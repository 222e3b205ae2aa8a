import RowCode.Pipeline.Stage

/-!
# Pipelines

A plan is a composition of stages, and a pipeline is a plan with what its stages keep. Rows are
put in at the front; what a stage gives out is put into the next, and what the last one gives out
is the answer. Asking a pipeline for rows first drains its front part through its back part, and
then asks the back part.

`Plan.Memory` pairs the memories of the parts, and `pending` counts the rows they hold. A row that
is drained leaves the front and at most one row is added behind, which bounds the draining: the
loop is `pump`, and the count is its fuel.
-/

namespace RowCode

inductive Plan where
  /-- Hands every row back. -/
  | identity
  | stage (s : Stage)
  /-- What `front` gives out goes into `back`. -/
  | tandem (front back : Plan)
deriving Repr, DecidableEq

/-- Pulls rows and puts them on until something comes out; when nothing is left to pull, asks
`last`. Pulls at most `fuel` times. -/
def pump {σ τ : Type} (pull : σ → Answer × σ) (put : Row → τ → Answer × τ)
    (last : τ → Answer × τ) : (fuel : Nat) → σ → τ → Answer × (σ × τ)
  | 0, s, t =>
    let (answer, t) := last t
    (answer, (s, t))
  | fuel + 1, s, t =>
    match pull s with
    | (.error e, s) => (.error e, (s, t))
    | (.ok none, s) =>
      let (answer, t) := last t
      (answer, (s, t))
    | (.ok (some row), s) =>
      match put row t with
      | (.error e, t) => (.error e, (s, t))
      | (.ok (some out), t) => (.ok (some out), (s, t))
      | (.ok none, t) => pump pull put last fuel s t

namespace Plan

variable [KeyMap]

/-- What the stages of a plan keep. -/
@[reducible] def Memory : Plan → Type
  | identity => Unit
  | stage s => s.Memory
  | tandem front back => front.Memory × back.Memory

def empty : (p : Plan) → p.Memory
  | identity => ()
  | stage s => s.empty
  | tandem front back => (front.empty, back.empty)

/-- How many rows are kept, in all stages together. -/
def pending : (p : Plan) → p.Memory → Nat
  | identity, _ => 0
  | stage s, m => s.pending m
  | tandem front back, (m, n) => front.pending m + back.pending n

/-- Puts a row in at the front. -/
def put : (p : Plan) → Row → p.Memory → Answer × p.Memory
  | identity, row, m => (.ok (some row), m)
  | stage s, row, m =>
    match s.put row m with
    | .ok (out, m) => (.ok out, m)
    | .error e => (.error e, m)
  | tandem front back, row, (m, n) =>
    match front.put row m with
    | (.error e, m) => (.error e, (m, n))
    | (.ok none, m) => (.ok none, (m, n))
    | (.ok (some row), m) =>
      let (answer, n) := back.put row n
      (answer, (m, n))

/-- Takes a row out at the back. -/
def get : (p : Plan) → p.Memory → Answer × p.Memory
  | identity, m => (.ok none, m)
  | stage s, m =>
    let (out, m) := s.get m
    (.ok out, m)
  | tandem front back, (m, n) =>
    pump front.get back.put back.get (front.pending m + 1) m n

/-- Puts a stage behind a plan. -/
def append (p : Plan) (s : Stage) : Plan :=
  match p with
  | identity => stage s
  | p => tandem p (stage s)

/-- The stages one behind the other. -/
def ofStages (stages : List Stage) : Plan :=
  stages.foldl append identity

def listing : Plan → String
  | identity => "identity"
  | stage s => s.listing
  | tandem front back => front.listing ++ " | " ++ back.listing

end Plan

end RowCode
