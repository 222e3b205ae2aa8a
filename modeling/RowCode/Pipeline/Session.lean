import RowCode.Code.Stage
import RowCode.Hash.Table

/-!
# Pipeline sessions

A session holds a pipeline and is driven call by call. Decoding replaces the pipeline by an empty
one for the stages of the code. A code that fails to decode leaves the stages before the fault.
-/

namespace RowCode

variable [KeyMap]

/-- A plan and what its stages keep. -/
structure Pipeline where
  plan : Plan
  memory : plan.Memory

namespace Pipeline

/-- A plan that has seen no row. -/
def ofPlan (plan : Plan) : Pipeline := ⟨plan, plan.empty⟩

def new : Pipeline := ofPlan .identity

/-- The pipeline of a code, and the number of bytes or the fault. The pipeline that was held
before plays no part in it. -/
def decode (code : Bytes) : Except Fault Nat × Pipeline :=
  let (stages, fault) := Code.readStages code
  let outcome := match fault with
    | none => .ok code.length
    | some e => .error e
  (outcome, ofPlan (.ofStages stages))

def put (p : Pipeline) (row : Row) : Answer × Pipeline :=
  let (answer, memory) := p.plan.put row p.memory
  (answer, { p with memory })

def get (p : Pipeline) : Answer × Pipeline :=
  let (answer, memory) := p.plan.get p.memory
  (answer, { p with memory })

/-- Takes rows out until nothing comes or a fault does; gives the rows and the fault. Takes at
most `fuel` rows. -/
def drainWithin : (fuel : Nat) → Pipeline → (List Row × Option Fault) × Pipeline
  | 0, p => (([], none), p)
  | fuel + 1, p =>
    match p.get with
    | (.ok none, p) => (([], none), p)
    | (.error e, p) => (([], some e), p)
    | (.ok (some row), p) =>
      let ((rows, fault), p) := drainWithin fuel p
      ((row :: rows, fault), p)

/-- Takes all rows out, up to a fault. -/
def drain (p : Pipeline) : (List Row × Option Fault) × Pipeline :=
  drainWithin (p.plan.pending p.memory + 1) p

/-- Whether the pipeline has no stages. -/
def isEmpty (p : Pipeline) : Bool :=
  p.plan = .identity

def listing (p : Pipeline) : String :=
  p.plan.listing

end Pipeline

end RowCode
