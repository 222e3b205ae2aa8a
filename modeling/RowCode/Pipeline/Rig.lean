import RowCode.Pipeline.Session
import RowCode.Runner

/-!
# Rigs

A rig is a pipeline at work. Its filters and projections have runners, and a runner holds more
between two rows than the stage keeps of them: the row it is bound to, and the operands of its
last run, which after a fault are whatever the failing instruction left. Aggregations hold what
they keep.

`Rig.pipeline` is what a rig has kept of its rows, without what its runners hold. A rig is decoded
in place, stage by stage: the first thing to go is what stood there before, and a stage that
cannot be read leaves those before it standing.
-/

namespace RowCode

namespace Runner

/-- Binds a row, runs the program, unbinds the row again, and takes the operands off the stack.
After a failure the stack stays as it is. -/
def evalAll (r : Runner) (row : Row) : Except Fault Row × Runner :=
  let (_, r) := r.bind row
  let (outcome, r) := r.run
  let (_, r) := r.unbind
  match outcome with
  | .error e => (.error e, r)
  | .ok () =>
    let (out, r) := r.takeAll
    (.ok out, r)

theorem run_program (r : Runner) : r.run.2.program = r.program := by
  rw [run]
  split <;> rfl

theorem eval_program (r : Runner) (row : Row) : (r.eval row).2.program = r.program :=
  run_program _

theorem evalAll_program (r : Runner) (row : Row) : (r.evalAll row).2.program = r.program := by
  simp only [evalAll]
  split <;> exact run_program _

end Runner

/-- A runner that holds the program `p`. -/
structure Worker (p : Program) where
  runner : Runner
  holds : runner.program = p

namespace Worker

variable {p : Program}

def new (p : Program) : Worker p := ⟨⟨p, none, []⟩, rfl⟩

def eval (w : Worker p) (row : Row) : Except Fault (Operand × Row) × Worker p :=
  ((w.runner.eval row).1, ⟨(w.runner.eval row).2, (w.runner.eval_program row).trans w.holds⟩)

def evalAll (w : Worker p) (row : Row) : Except Fault Row × Worker p :=
  ((w.runner.evalAll row).1,
    ⟨(w.runner.evalAll row).2, (w.runner.evalAll_program row).trans w.holds⟩)

end Worker

variable [KeyMap]

namespace Stage

/-- What a stage at work holds between calls. -/
@[reducible] def State : Stage → Type
  | filter p => Worker p
  | project p => Worker p
  | aggregate _ => Option Row
  | groupBy _ _ => Groups

def start : (s : Stage) → s.State
  | filter p => .new p
  | project p => .new p
  | aggregate _ => none
  | groupBy _ _ => .empty

/-- What a stage has kept of its rows. -/
def memory : (s : Stage) → s.State → s.Memory
  | filter _, _ => ()
  | project _, _ => ()
  | aggregate _, cache => cache
  | groupBy _ _, groups => groups

/-- Hands a row to a stage at work. -/
def work : (s : Stage) → Row → s.State → Answer × s.State
  | filter _, row, w =>
    match w.eval row with
    | (.error e, w) => (.error e, w)
    | (.ok (v, row), w) => (verdict row v, w)
  | project _, row, w =>
    match w.evalAll row with
    | (.error e, w) => (.error e, w)
    | (.ok out, w) => (.ok (some out), w)
  | aggregate aggs, row, cache => (Plan.stage (aggregate aggs)).put row cache
  | groupBy columns aggs, row, groups => (Plan.stage (groupBy columns aggs)).put row groups

/-- Takes a row that a stage at work has kept. -/
def draw : (s : Stage) → s.State → Answer × s.State
  | filter _, w => (.ok none, w)
  | project _, w => (.ok none, w)
  | aggregate aggs, cache => (Plan.stage (aggregate aggs)).get cache
  | groupBy columns aggs, groups => (Plan.stage (groupBy columns aggs)).get groups

end Stage

namespace Plan

/-- What the stages of a plan hold at work. -/
@[reducible] def State : Plan → Type
  | identity => Unit
  | stage s => s.State
  | tandem front back => front.State × back.State

def start : (p : Plan) → p.State
  | identity => ()
  | stage s => s.start
  | tandem front back => (front.start, back.start)

def memory : (p : Plan) → p.State → p.Memory
  | identity, _ => ()
  | stage s, state => s.memory state
  | tandem front back, (m, n) => (front.memory m, back.memory n)

/-- Puts a row in at the front of a plan at work. -/
def work : (p : Plan) → Row → p.State → Answer × p.State
  | identity, row, m => (.ok (some row), m)
  | stage s, row, state => s.work row state
  | tandem front back, row, (m, n) =>
    match front.work row m with
    | (.error e, m) => (.error e, (m, n))
    | (.ok none, m) => (.ok none, (m, n))
    | (.ok (some row), m) =>
      let (answer, n) := back.work row n
      (answer, (m, n))

/-- Takes a row out at the back of a plan at work. -/
def draw : (p : Plan) → p.State → Answer × p.State
  | identity, m => (.ok none, m)
  | stage s, state => s.draw state
  | tandem front back, (m, n) =>
    pump front.draw back.work back.draw (front.pending (front.memory m) + 1) m n

end Plan

/-- A plan and what its stages hold at work. -/
structure Rig where
  plan : Plan
  state : plan.State

namespace Rig

/-- A rig that has seen no row. -/
def ofPlan (plan : Plan) : Rig := ⟨plan, plan.start⟩

def new : Rig := ofPlan .identity

/-- Takes all stages away, with what they hold. -/
def clear (rig : Rig) : Rig :=
  { rig with plan := .identity, state := () }

/-- Puts a fresh stage behind a rig. -/
def append (rig : Rig) (s : Stage) : Rig :=
  match rig with
  | ⟨.identity, _⟩ => ofPlan (.stage s)
  | ⟨p, state⟩ => ⟨.tandem p (.stage s), (state, s.start)⟩

/-- Reads the stages of a code and puts each behind those before it, until the code ends or one
cannot be read. `done` counts the bytes. -/
def extend (rig : Rig) (done : Nat) (code : Bytes) : Except Fault Nat × Rig :=
  match code with
  | [] => (.ok done, rig)
  | opcode :: rest =>
    match _h : Code.readStage opcode rest with
    | .error e => (.error e, rig)
    | .ok (s, rest') => extend (rig.append s) (done + 1 + (rest.length - rest'.length)) rest'
termination_by code.length
decreasing_by
  have := Code.readStage_length _h
  simp only [List.length_cons]
  omega

/-- Sets up the stages of a code in place of those that stood there. -/
def decode (rig : Rig) (code : Bytes) : Except Fault Nat × Rig :=
  rig.clear.extend 0 code

def put (rig : Rig) (row : Row) : Answer × Rig :=
  let (answer, state) := rig.plan.work row rig.state
  (answer, { rig with state })

def get (rig : Rig) : Answer × Rig :=
  let (answer, state) := rig.plan.draw rig.state
  (answer, { rig with state })

/-- What a rig has kept of its rows. -/
def pipeline (rig : Rig) : Pipeline := ⟨rig.plan, rig.plan.memory rig.state⟩

/-- How many rows are kept, in all stages together. -/
def pending (rig : Rig) : Nat :=
  rig.plan.pending (rig.plan.memory rig.state)

end Rig

end RowCode
