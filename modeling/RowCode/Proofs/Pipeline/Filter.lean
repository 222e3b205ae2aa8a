import RowCode.Proofs.Code.StageWord
import RowCode.Proofs.Frame

/-!
# Filters and truth

Predicates are three-valued, and a filter lets only the true ones through. So a
filter for one predicate and another does what two filters in a row do, a
filter for one or the other lets through what either of them does, and each row
gets through exactly one of the filters for a predicate, for its negation and
for its being unknown (`Rig.filters_by_truth`).

All of this is about codes: a predicate is whatever words leave one truth value
on each of the rows, and a connective is a byte behind them. What the second
predicate does on top of the first one's result is `Program.runOn_of_run`.
-/

namespace RowCode

namespace Truth

theorem and_eq_true_iff {a b : Option Bool} :
    and a b = some true ↔ a = some true ∧ b = some true := by
  rcases a with _ | _ | _ <;> rcases b with _ | _ | _ <;> simp [and]

theorem or_eq_true_iff {a b : Option Bool} :
    or a b = some true ↔ a = some true ∨ b = some true := by
  rcases a with _ | _ | _ <;> rcases b with _ | _ | _ <;> simp [or]

/-- A truth value holds, or its negation does, or it is not known. -/
theorem holds_cases (a : Option Bool) :
    (a = some true ∧ ¬not a = some true ∧ ¬some a.isNone = some true) ∨
      (¬a = some true ∧ not a = some true ∧ ¬some a.isNone = some true) ∨
      (¬a = some true ∧ ¬not a = some true ∧ some a.isNone = some true) := by
  rcases a with _ | _ | _ <;> simp [not]

end Truth

namespace Program

/-- The program gives a truth value on a row and nothing else. Null stands for
one that is not known. -/
def Judges (p : Program) (row : Row) (truth : Option Bool) : Prop :=
  p.run (some row) = .ok [truth.map .bool]

variable {p q : Program} {row : Row} {a b : Option Bool}

theorem Judges.connective (hp : p.Judges row a) (hq : q.Judges row b) (c : Connective) :
    (p ++ q ++ [Instr.op (.connective c)]).Judges row (c.apply a b) := by
  have hfirst : runOn (some row) p [] = .ok [a.map .bool] := hp
  have hsecond := runOn_of_run hq [a.map .bool]
  rw [Judges, run, runOn_append, runOn_append, hfirst]
  show (runOn (some row) q [a.map .bool] >>= _) = _
  rw [hsecond]
  cases a <;> cases b <;> rfl

theorem Judges.not (hp : p.Judges row a) : (p ++ [Instr.op .not]).Judges row (Truth.not a) := by
  have hfirst : runOn (some row) p [] = .ok [a.map .bool] := hp
  rw [Judges, run, runOn_append, hfirst]
  cases a <;> rfl

theorem Judges.isNull (hp : p.Judges row a) :
    (p ++ [Instr.op (.test .isNull .bool)]).Judges row (some a.isNone) := by
  have hfirst : runOn (some row) p [] = .ok [a.map .bool] := hp
  rw [Judges, run, runOn_append, hfirst]
  cases a <;> rfl

theorem eval_of_judges (h : p.Judges row a) : p.eval row = .ok (a.map .bool) := by
  have hrun : p.run (some row) = .ok [a.map .bool] := h
  rw [eval, hrun]
  rfl

end Program

/-! ## Filters -/

/-- What a filter makes of a row. -/
def Stage.filtered (p : Program) (row : Row) : Answer :=
  p.eval row >>= verdict row

/-- What two filters make of a row, one behind the other. -/
def Stage.filteredTwice (p q : Program) (row : Row) : Answer :=
  match filtered p row with
  | .ok (some out) => filtered q out
  | answer => answer

theorem Stage.filtered_of_judges {p : Program} {row : Row} {truth : Option Bool}
    (h : p.Judges row truth) :
    filtered p row = .ok (if truth = some true then some row else none) := by
  rw [filtered, Program.eval_of_judges h]
  rcases truth with _ | _ | _ <;> rfl

theorem Stage.filteredTwice_of_judges {p q : Program} {row : Row} {a b : Option Bool}
    (hp : p.Judges row a) (hq : q.Judges row b) :
    filteredTwice p q row =
      .ok (if a = some true ∧ b = some true then some row else none) := by
  rw [filteredTwice, filtered_of_judges hp]
  by_cases ha : a = some true
  · rw [if_pos ha]
    simp only [ha, true_and, filtered_of_judges hq]
  · rw [if_neg ha]
    simp only [ha, false_and, if_false]

theorem Plan.put_filters [KeyMap] (p q : Program) (row : Row) (m : Unit × Unit) :
    (tandem (stage (.filter p)) (stage (.filter q))).put row m =
      (Stage.filteredTwice p q row, m) := by
  rw [put, put_filter, Stage.filteredTwice, Stage.filtered]
  rcases p.eval row >>= Stage.verdict row with _ | _ | out
  · rfl
  · rfl
  · dsimp only
    rw [put_filter]
    rfl

/-- A plan that keeps nothing answers each row by itself. -/
theorem Pipeline.answers_eq_map [KeyMap] {plan : Plan} {m : plan.Memory} {f : Row → Answer}
    (hput : ∀ row, plan.put row m = (f row, m)) (rows : List Row) :
    ((⟨plan, m⟩ : Pipeline).run (rows.map .put)).1 = rows.map f := by
  induction rows with
  | nil => rfl
  | cons row rows ih =>
      simp only [List.map_cons, run, call, put, hput]
      rw [ih]

namespace Rig

open Code

variable [KeyMap]

/-- The answers to rows that are put into stages just decoded, one for each. -/
def answers (rig : Rig) (stages : List StageWord) (rows : List Row) : List Answer :=
  ((rig.decode (stages.flatMap StageWord.bytes)).2.run (rows.map .put)).1

theorem answers_eq_pipeline (rig : Rig) (stages : List StageWord) (rows : List Row) :
    rig.answers stages rows =
      ((Pipeline.ofPlan (.ofStages (stages.map StageWord.stage))).run (rows.map .put)).1 := by
  have hrun := (ofPlan (.ofStages (stages.map StageWord.stage))).run_pipeline (rows.map .put)
  rw [pipeline_ofPlan] at hrun
  rw [answers, decode_stages, hrun]
  rfl

variable (rig : Rig) (rows : List Row)

theorem answers_filter (p : List Word) :
    rig.answers [.filter p] rows = rows.map (Stage.filtered (p.filterMap Word.instr?)) := by
  rw [answers_eq_pipeline]
  exact Pipeline.answers_eq_map (fun row => Plan.put_filter _ row ()) rows

theorem answers_filters (p q : List Word) :
    rig.answers [.filter p, .filter q] rows =
      rows.map (Stage.filteredTwice (p.filterMap Word.instr?) (q.filterMap Word.instr?)) := by
  rw [answers_eq_pipeline]
  exact Pipeline.answers_eq_map (fun row => Plan.put_filters _ _ row ((), ())) rows

end Rig

/-! ## Rows and truth -/

/-- Words that give a truth value, or null, on a row. -/
def Code.Decide (words : List Code.Word) (row : Row) : Prop :=
  ∃ truth, Program.Judges (words.filterMap Code.Word.instr?) row truth

/-- The row at a place comes out as it is. -/
def Passes (rows : List Row) (answers : List Answer) (i : Nat) : Prop :=
  ∃ row, rows[i]? = some row ∧ answers[i]? = some (.ok (some row))

namespace Rig

open Code

section

variable [KeyMap] (rig : Rig) {rows : List Row}

/-- A filter lets a row through exactly if its predicate is true of it. -/
theorem passes_filter_iff {i : Nat} {row : Row} (hrow : rows[i]? = some row) {p : List Word}
    {truth : Option Bool} (hp : Program.Judges (p.filterMap Word.instr?) row truth) :
    Passes rows (rig.answers [.filter p] rows) i ↔ truth = some true := by
  have hanswer : (rig.answers [.filter p] rows)[i]? =
      some (.ok (if truth = some true then some row else none)) := by
    rw [answers_filter, List.getElem?_map, hrow, Option.map_some, Stage.filtered_of_judges hp]
  rw [Passes, hrow, hanswer]
  by_cases htrue : truth = some true
  · rw [if_pos htrue]
    exact iff_of_true ⟨row, rfl, rfl⟩ htrue
  · rw [if_neg htrue]
    refine iff_of_false ?_ htrue
    rintro ⟨out, -, hout⟩
    cases hout

/-- The same of a predicate and a word behind it. -/
theorem passes_behind_iff {i : Nat} {row : Row} (hrow : rows[i]? = some row) {p : List Word}
    {op : Operator} {truth : Option Bool}
    (hp : Program.Judges (p.filterMap Word.instr? ++ [Instr.op op]) row truth) :
    Passes rows (rig.answers [.filter (p ++ [Word.op op])] rows) i ↔ truth = some true := by
  refine passes_filter_iff rig hrow ?_
  rw [List.filterMap_append]
  exact hp

/-- Filters by truth, for predicates that have one on every row. A filter for
both of two predicates answers every row as two filters in a row do. A filter
for either lets a row through exactly if one of their filters does. And each
row is let through by exactly one of the filters for a predicate, for its
negation and for its being unknown. -/
theorem filters_by_truth (p q : List Word) (rows : List Row)
    (hp : ∀ row ∈ rows, Decide p row) (hq : ∀ row ∈ rows, Decide q row) :
    let both := p ++ q ++ [Word.op (.connective .and)]
    let either := p ++ q ++ [Word.op (.connective .or)]
    let negation := p ++ [Word.op .not]
    let unknown := p ++ [Word.op (.test .isNull .bool)]
    rig.answers [.filter both] rows = rig.answers [.filter p, .filter q] rows ∧
    ∀ i < rows.length,
      let passes := fun words => Passes rows (rig.answers [.filter words] rows) i
      (passes either ↔ passes p ∨ passes q) ∧
      ((passes p ∧ ¬passes negation ∧ ¬passes unknown) ∨
        (¬passes p ∧ passes negation ∧ ¬passes unknown) ∨
        (¬passes p ∧ ¬passes negation ∧ passes unknown)) := by
  intro both either negation unknown
  have hwords : ∀ c : Connective, (p ++ q ++ [Word.op (.connective c)]).filterMap Word.instr? =
      p.filterMap Word.instr? ++ q.filterMap Word.instr? ++ [Instr.op (.connective c)] := by
    intro c
    rw [List.filterMap_append, List.filterMap_append]
    rfl
  refine ⟨?_, ?_⟩
  · rw [answers_filter, answers_filters, hwords]
    refine List.map_congr_left ?_
    intro row hrow
    obtain ⟨a, ha⟩ := hp row hrow
    obtain ⟨b, hb⟩ := hq row hrow
    rw [Stage.filtered_of_judges (ha.connective hb .and), Stage.filteredTwice_of_judges ha hb]
    simp only [Connective.apply, Truth.and_eq_true_iff]
  · intro i hi passes
    have hrow : rows[i]? = some rows[i] := List.getElem?_eq_getElem hi
    obtain ⟨a, ha⟩ := hp _ (List.getElem_mem hi)
    obtain ⟨b, hb⟩ := hq _ (List.getElem_mem hi)
    have hpassp : passes p ↔ a = some true := passes_filter_iff rig hrow ha
    have hpassq : passes q ↔ b = some true := passes_filter_iff rig hrow hb
    have hpassnot : passes negation ↔ Truth.not a = some true :=
      passes_behind_iff rig hrow ha.not
    have hpassnull : passes unknown ↔ some a.isNone = some true :=
      passes_behind_iff rig hrow ha.isNull
    have heither := ha.connective hb .or
    rw [← hwords] at heither
    have hpasseither : passes either ↔ Truth.or a b = some true :=
      passes_filter_iff rig hrow heither
    refine ⟨?_, ?_⟩
    · rw [hpasseither, hpassp, hpassq]
      exact Truth.or_eq_true_iff
    · rw [hpassp, hpassnot, hpassnull]
      exact Truth.holds_cases a

end

/-- `$0<INT32> > 5` and `$0<INT32> < 9`, on rows of which one makes both unknown. -/
theorem filters_by_truth_between :
    let zero : Varint := ⟨[], 0, List.forall_mem_nil _, by decide, by decide⟩
    let five : Varint := ⟨[], 5, List.forall_mem_nil _, by decide, by decide⟩
    let nine : Varint := ⟨[], 9, List.forall_mem_nil _, by decide, by decide⟩
    let p : List Word :=
      [.column zero .int32, .const (.int32 false five), .op (.relation .gt .int32)]
    let q : List Word :=
      [.column zero .int32, .const (.int32 false nine), .op (.relation .lt .int32)]
    let rows : List Row := [[none], [some (.int32 3)], [some (.int32 7)]]
    let passes := fun words i => Passes rows (Rig.new.answers [.filter words] rows) i
    ((∀ row ∈ rows, Decide p row) ∧ ∀ row ∈ rows, Decide q row) ∧
      Rig.new.answers [.filter (p ++ q ++ [Word.op (.connective .and)])] rows =
        Rig.new.answers [.filter p, .filter q] rows ∧
      ∀ i < 3,
        (passes (p ++ q ++ [Word.op (.connective .or)]) i ↔ passes p i ∨ passes q i) ∧
        ((passes p i ∧ ¬passes (p ++ [Word.op .not]) i ∧
            ¬passes (p ++ [Word.op (.test .isNull .bool)]) i) ∨
          (¬passes p i ∧ passes (p ++ [Word.op .not]) i ∧
            ¬passes (p ++ [Word.op (.test .isNull .bool)]) i) ∨
          (¬passes p i ∧ ¬passes (p ++ [Word.op .not]) i ∧
            passes (p ++ [Word.op (.test .isNull .bool)]) i)) := by
  intro zero five nine p q rows passes
  have hp : ∀ row ∈ rows, Decide p row := by
    intro row hrow
    simp only [rows, List.mem_cons, List.not_mem_nil, or_false] at hrow
    rcases hrow with rfl | rfl | rfl
    · exact ⟨none, rfl⟩
    · exact ⟨some false, rfl⟩
    · exact ⟨some true, rfl⟩
  have hq : ∀ row ∈ rows, Decide q row := by
    intro row hrow
    simp only [rows, List.mem_cons, List.not_mem_nil, or_false] at hrow
    rcases hrow with rfl | rfl | rfl
    · exact ⟨none, rfl⟩
    · exact ⟨some true, rfl⟩
    · exact ⟨some true, rfl⟩
  exact ⟨⟨hp, hq⟩, Rig.new.filters_by_truth p q rows hp hq⟩

end Rig

end RowCode
