import RowCode.Proofs.Pipeline.Calls

/-!
# Draining

Putting rows in (`feed`), and taking rows out until nothing comes
(`exhaust`), both passing over faults.

`exhaust_tandem` says what draining a tandem amounts to: the front is
exhausted first, what it gives is fed into the back, and then the back is
exhausted. Together with `feed_tandem` this makes a tandem the composition of
its parts on lists of rows (`outputs_tandem`), whichever of the two hands out
a row on being given one and whichever waits to be asked.
-/

namespace RowCode

namespace Plan

variable [KeyMap]

/-! ## Feeding and exhausting -/

/-- The row that an answer brings, if it brings one. -/
def given : Answer → List Row
  | .ok (some row) => [row]
  | .ok none => []
  | .error _ => []

/-- Puts rows in, one after the other, and gives what comes out at once. -/
def feed (p : Plan) : List Row → p.Memory → List Row × p.Memory
  | [], m => ([], m)
  | row :: rows, m =>
    let (answer, m) := p.put row m
    let (outs, m) := feed p rows m
    (given answer ++ outs, m)

/-- Takes rows out until nothing comes. -/
def exhaust (p : Plan) (m : p.Memory) : List Row :=
  match _h : p.get m with
  | (.ok none, _) => []
  | (.ok (some row), m') => row :: exhaust p m'
  | (.error _, m') => exhaust p m'
termination_by p.pending m
decreasing_by
  · exact pending_get_lt _h nofun
  · exact pending_get_lt _h nofun

/-- All that comes out when rows are put in and the plan is then exhausted. -/
def outputs (p : Plan) (rows : List Row) (m : p.Memory) : List Row :=
  (p.feed rows m).1 ++ p.exhaust (p.feed rows m).2

theorem exhaust_of_none {p : Plan} {m m' : p.Memory} (h : p.get m = (.ok none, m')) :
    p.exhaust m = [] := by
  rw [exhaust]
  split <;> simp_all

theorem exhaust_of_row {p : Plan} {m m' : p.Memory} {row : Row}
    (h : p.get m = (.ok (some row), m')) : p.exhaust m = row :: p.exhaust m' := by
  rw [exhaust]
  split <;> simp_all

theorem exhaust_of_fault {p : Plan} {m m' : p.Memory} {e : Fault}
    (h : p.get m = (.error e, m')) : p.exhaust m = p.exhaust m' := by
  rw [exhaust]
  split <;> simp_all

theorem exhaust_congr {p : Plan} {m m' : p.Memory} (h : p.get m = p.get m') :
    p.exhaust m = p.exhaust m' := by
  rw [exhaust, exhaust]
  split <;> split <;> simp_all

theorem feed_append (p : Plan) (ys : List Row) : ∀ (xs : List Row) (m : p.Memory),
    p.feed (xs ++ ys) m =
      ((p.feed xs m).1 ++ (p.feed ys (p.feed xs m).2).1, (p.feed ys (p.feed xs m).2).2)
  | [], _ => rfl
  | row :: xs, m => by
      simp only [List.cons_append, feed, feed_append p ys xs, List.append_assoc]

/-! ## Tandems -/

section

variable (front back : Plan)

/-- What the front gives at once is fed into the back. -/
theorem feed_tandem : ∀ (rows : List Row) (m : front.Memory) (n : back.Memory),
    (tandem front back).feed rows (m, n) =
      ((back.feed (front.feed rows m).1 n).1,
        ((front.feed rows m).2, (back.feed (front.feed rows m).1 n).2))
  | [], _, _ => rfl
  | row :: rows, m, n => by
      simp only [feed, put]
      rcases front.put row m with ⟨_ | _ | out, m'⟩
      · simp only [feed_tandem rows, given, List.nil_append]
      · simp only [feed_tandem rows, given, List.nil_append]
      · simp only [feed_tandem rows, given, List.singleton_append, feed]

/-- With nothing left in the front, only the back gives rows. -/
theorem exhaust_tandem_of_dry {m : front.Memory} (n : back.Memory) (h : front.pending m = 0) :
    (tandem front back).exhaust (m, n) = back.exhaust n := by
  have hdry := front.get_of_pending_eq_zero h
  fun_induction back.exhaust n with
  | case1 n n' hn =>
      have hget := get_tandem front back m n
      simp only [hdry, hn] at hget
      exact exhaust_of_none hget
  | case2 n row n' hn ih =>
      have hget := get_tandem front back m n
      simp only [hdry, hn] at hget
      rw [exhaust_of_row hget, ih]
  | case3 n e n' hn ih =>
      have hget := get_tandem front back m n
      simp only [hdry, hn] at hget
      rw [exhaust_of_fault hget, ih]

/-- The front is exhausted into the back before the back is exhausted. -/
theorem exhaust_tandem (m : front.Memory) (n : back.Memory) :
    (tandem front back).exhaust (m, n) = back.outputs (front.exhaust m) n := by
  rw [outputs]
  fun_induction front.exhaust m generalizing n with
  | case1 m m' hm =>
      -- asked once more, the front has nothing either, and keeps nothing
      have hget := get_tandem front back m n
      have hdry := pending_of_get_none hm
      have hagain := get_tandem front back m' n
      rw [front.get_of_pending_eq_zero hdry] at hagain
      rw [hm] at hget
      rw [exhaust_congr (hget.trans hagain.symm), exhaust_tandem_of_dry front back n hdry]
      rfl
  | case2 m row m' hm ih =>
      have hget := get_tandem front back m n
      simp only [hm] at hget
      simp only [feed]
      rcases hn : back.put row n with ⟨_ | _ | out, n'⟩
      · simp only [hn] at hget
        rw [exhaust_of_fault hget, ih]
        rfl
      · simp only [hn] at hget
        rw [exhaust_congr hget, ih]
        rfl
      · simp only [hn] at hget
        rw [exhaust_of_row hget, ih]
        rfl
  | case3 m e m' hm ih =>
      have hget := get_tandem front back m n
      simp only [hm] at hget
      rw [exhaust_of_fault hget, ih]

/-- A tandem works on a list of rows as its parts do, one after the other. -/
theorem outputs_tandem (rows : List Row) (m : front.Memory) (n : back.Memory) :
    (tandem front back).outputs rows (m, n) = back.outputs (front.outputs rows m) n := by
  rw [outputs, feed_tandem, exhaust_tandem]
  simp only [outputs, feed_append, List.append_assoc]

end

end Plan

/-! ## One aggregation over all rows -/

namespace Aggregate

/-- The accumulators after one more row; a row that fails is passed over. -/
def advance (aggs : List Aggregate) (cache : Option Row) (row : Row) : Option Row :=
  match addAll aggs (cache.getD (initials aggs)) row with
  | .ok accs => some accs
  | .error _ => cache

/-- The accumulators over all rows that do not fail, in order; there are none
if every row fails. -/
def total (aggs : List Aggregate) (rows : List Row) : Option Row :=
  rows.foldl (advance aggs) none

theorem total_concat (aggs : List Aggregate) (rows : List Row) (row : Row) :
    total aggs (rows ++ [row]) = advance aggs (total aggs rows) row := by
  rw [total, List.foldl_append]
  rfl

theorem isSome_total_concat {aggs : List Aggregate} {rows : List Row}
    (h : (total aggs rows).isSome) (row : Row) : (total aggs (rows ++ [row])).isSome := by
  rw [total_concat, advance]
  split
  · rfl
  · exact h

theorem isSome_total_append {aggs : List Aggregate} {rows : List Row}
    (h : (total aggs rows).isSome) : ∀ later : List Row, (total aggs (rows ++ later)).isSome
  | [] => by rwa [List.append_nil]
  | row :: later => by
      rw [← List.singleton_append, ← List.append_assoc]
      exact isSome_total_append (isSome_total_concat h row) later

end Aggregate

namespace Plan

variable [KeyMap]

theorem put_aggregate (aggs : List Aggregate) (row : Row) (cache : Option Row) :
    (stage (.aggregate aggs)).put row cache =
      match Aggregate.addAll aggs (cache.getD (Aggregate.initials aggs)) row with
      | .ok accs => (.ok none, some accs)
      | .error e => (.error e, cache) := by
  rw [put, Stage.put]
  cases Aggregate.addAll aggs (cache.getD (Aggregate.initials aggs)) row <;> rfl

theorem feed_aggregate (aggs : List Aggregate) : ∀ (rows : List Row) (cache : Option Row),
    (stage (.aggregate aggs)).feed rows cache =
      ([], rows.foldl (Aggregate.advance aggs) cache)
  | [], _ => rfl
  | row :: rows, cache => by
      rw [feed, put_aggregate, List.foldl_cons, Aggregate.advance]
      rcases Aggregate.addAll aggs (cache.getD (Aggregate.initials aggs)) row with e | accs
      · simp only [feed_aggregate aggs rows, given, List.nil_append]
      · simp only [feed_aggregate aggs rows, given, List.nil_append]

end Plan

end RowCode
