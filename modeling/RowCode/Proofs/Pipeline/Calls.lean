import RowCode.Code.Instr
import RowCode.Proofs.Pipeline.Groups

/-!
# Calls

What a single call does to the number of rows that a pipeline keeps, and what
taking a row out of a tandem amounts to.

`Plan.get` drains the front part of a tandem through its back part by `pump`,
whose fuel is the number of rows the front keeps. The number falls with every
row and every fault that comes out (`get_shrinks`), so the fuel is never used
up: `get_tandem` is the loop without it, and the modules about whole runs rest
on that equation alone. When nothing comes out, no row is kept, and then asking
again changes nothing (`get_of_pending_eq_zero`).
-/

namespace RowCode

open Code (bind_eq_ok)

variable [KeyMap]

/-! ## Rows kept by a stage -/

namespace Stage

/-- A stage that takes a row keeps at most one more, and no more than before
if it gives a row out. -/
theorem pending_put {s : Stage} {row : Row} {m m' : s.Memory} {out : Option Row}
    (h : s.put row m = .ok (out, m')) :
    s.pending m' ≤ s.pending m ∨ (out = none ∧ s.pending m' ≤ s.pending m + 1) := by
  cases s with
  | filter p => exact Or.inl (Nat.le_refl _)
  | project p => exact Or.inl (Nat.le_refl _)
  | aggregate aggs =>
      obtain ⟨accs, _, h⟩ := bind_eq_ok.1 h
      cases h
      exact Or.inr ⟨rfl, Nat.succ_le_succ (Nat.zero_le _)⟩
  | groupBy columns aggs =>
      obtain ⟨key, _, h⟩ := bind_eq_ok.1 h
      obtain ⟨groups, hfold, h⟩ := bind_eq_ok.1 h
      cases h
      exact Or.inr ⟨rfl, Groups.length_fold_le hfold⟩

/-- A stage that gives nothing out keeps no rows and stays as it is; otherwise
it keeps one row less than before. -/
theorem get_cases (s : Stage) (m : s.Memory) :
    (s.get m = (none, m) ∧ s.pending m = 0) ∨
      ∃ row m', s.get m = (some row, m') ∧ s.pending m' < s.pending m := by
  cases s with
  | filter p => exact Or.inl ⟨rfl, rfl⟩
  | project p => exact Or.inl ⟨rfl, rfl⟩
  | aggregate aggs =>
      cases m with
      | none => exact Or.inl ⟨rfl, rfl⟩
      | some accs => exact Or.inr ⟨accs, none, rfl, Nat.zero_lt_one⟩
  | groupBy columns aggs =>
      obtain ⟨index, slots⟩ := m
      rcases List.eq_nil_or_concat slots with rfl | ⟨older, g, rfl⟩
      · exact Or.inl ⟨rfl, rfl⟩
      · rw [List.concat_eq_append]
        refine Or.inr ⟨g.row, ⟨KeyMap.remove index g.key, older⟩, ?_, ?_⟩
        · rw [get, Groups.pop_concat]
        · rw [pending, pending, List.length_append]
          exact Nat.lt_succ_self _

end Stage

/-! ## Rows kept by a plan -/

namespace Plan

/-- `Stage.pending_put` for plans: a call that answers with a row or a fault
leaves no more rows than there were. -/
theorem pending_put : ∀ (p : Plan) (row : Row) (m : p.Memory),
    p.pending (p.put row m).2 ≤ p.pending m ∨
      ((p.put row m).1 = .ok none ∧ p.pending (p.put row m).2 ≤ p.pending m + 1)
  | identity, _, _ => Or.inl (Nat.le_refl _)
  | stage s, row, m => by
      cases hput : s.put row m with
      | error e => simp [put, hput]
      | ok r =>
          obtain ⟨out, m'⟩ := r
          rcases Stage.pending_put hput with h | ⟨rfl, h⟩
          · exact Or.inl (by simpa [put, hput, pending] using h)
          · exact Or.inr (by simpa [put, hput, pending] using h)
  | tandem front back, row, (m, n) => by
      have hfront := pending_put front row m
      rw [put]
      split
      · next e m' hput =>
        rw [hput] at hfront
        rcases hfront with h | ⟨h, -⟩
        · exact Or.inl (Nat.add_le_add_right h _)
        · cases h
      · next m' hput =>
        rw [hput] at hfront
        rcases hfront with h | ⟨-, h⟩
        · exact Or.inl (Nat.add_le_add_right h _)
        · refine Or.inr ⟨rfl, ?_⟩
          simp only [pending] at h ⊢
          omega
      · next out m' hput =>
        rw [hput] at hfront
        have hback := pending_put back out n
        rcases hfront with h | ⟨h, -⟩
        · simp only [pending] at h ⊢
          rcases hback with hb | ⟨hb, hb'⟩
          · exact Or.inl (Nat.add_le_add h hb)
          · exact Or.inr ⟨hb, by omega⟩
        · cases h

theorem pending_put_le {p : Plan} {row : Row} {m m' : p.Memory} {answer : Answer}
    (h : p.put row m = (answer, m')) (hne : answer ≠ .ok none) :
    p.pending m' ≤ p.pending m := by
  have hput := pending_put p row m
  rw [h] at hput
  rcases hput with hle | ⟨hnone, -⟩
  · exact hle
  · exact absurd hnone hne

theorem pending_put_le_succ {p : Plan} {row : Row} {m m' : p.Memory} {answer : Answer}
    (h : p.put row m = (answer, m')) : p.pending m' ≤ p.pending m + 1 := by
  have hput := pending_put p row m
  rw [h] at hput
  rcases hput with hle | ⟨-, hle⟩
  · exact Nat.le_succ_of_le hle
  · exact hle

/-- What a call that takes a row out may do: find nothing, and then no row is
kept, or leave fewer rows than there were. -/
def Shrinks (p : Plan) (m : p.Memory) (result : Answer × p.Memory) : Prop :=
  (result.1 = .ok none ∧ p.pending result.2 = 0) ∨
    (result.1 ≠ .ok none ∧ p.pending result.2 < p.pending m)

/-- Each turn of the loop takes a row from the front and puts at most one into
the back, so the rows of both together never grow. -/
theorem pump_shrinks {front back : Plan}
    (hfront : ∀ m, Shrinks front m (front.get m))
    (hback : ∀ n, Shrinks back n (back.get n)) :
    ∀ (fuel : Nat) (m : front.Memory) (n : back.Memory), front.pending m < fuel →
      Shrinks (tandem front back) (m, n) (pump front.get back.put back.get fuel m n)
  | 0, _, _, hfuel => absurd hfuel (Nat.not_lt_zero _)
  | fuel + 1, m, n, hfuel => by
      have hpull := hfront m
      rw [pump]
      split
      · next e m' hm =>
        rw [hm] at hpull
        rcases hpull with ⟨hnone, -⟩ | ⟨hne, hlt⟩
        · cases hnone
        · exact Or.inr ⟨hne, Nat.add_lt_add_right hlt _⟩
      · next m' hm =>
        rw [hm] at hpull
        rcases hpull with ⟨-, hdry⟩ | ⟨hne, -⟩
        · dsimp only at hdry
          rcases hback n with ⟨hnone, hdry'⟩ | ⟨hne, hlt⟩
          · exact Or.inl ⟨hnone, by rw [pending, hdry, hdry']⟩
          · refine Or.inr ⟨hne, ?_⟩
            simp only [pending]
            omega
        · exact absurd rfl hne
      · next row m' hm =>
        rw [hm] at hpull
        rcases hpull with ⟨hnone, -⟩ | ⟨-, hlt⟩
        · cases hnone
        · split
          · next e n' hn =>
            have := pending_put_le hn nofun
            refine Or.inr ⟨nofun, ?_⟩
            simp only [pending] at hlt ⊢
            omega
          · next out n' hn =>
            have := pending_put_le hn nofun
            refine Or.inr ⟨nofun, ?_⟩
            simp only [pending] at hlt ⊢
            omega
          · next n' hn =>
            have hle := pending_put_le_succ hn
            simp only at hlt
            rcases pump_shrinks hfront hback fuel m' n' (by omega) with h | ⟨hne, hlt'⟩
            · exact Or.inl h
            · refine Or.inr ⟨hne, ?_⟩
              simp only [pending] at hlt' ⊢
              omega

theorem get_shrinks : ∀ (p : Plan) (m : p.Memory), Shrinks p m (p.get m)
  | identity, _ => Or.inl ⟨rfl, rfl⟩
  | stage s, m => by
      rcases s.get_cases m with ⟨h, hdry⟩ | ⟨row, m', h, hlt⟩
      · exact Or.inl (by simpa [get, h, pending] using hdry)
      · exact Or.inr (by simpa [get, h, pending] using hlt)
  | tandem front back, (m, n) =>
      pump_shrinks (get_shrinks front) (get_shrinks back) _ m n (Nat.lt_succ_self _)

/-! ## The loop without fuel -/

theorem pump_fuel {front back : Plan} :
    ∀ {fuel fuel' : Nat} (m : front.Memory) (n : back.Memory),
      front.pending m < fuel → front.pending m < fuel' →
      pump front.get back.put back.get fuel m n =
        pump front.get back.put back.get fuel' m n
  | 0, _, _, _, h, _ => absurd h (Nat.not_lt_zero _)
  | _, 0, _, _, _, h => absurd h (Nat.not_lt_zero _)
  | fuel + 1, fuel' + 1, m, n, h, h' => by
      rw [pump, pump]
      rcases hm : front.get m with ⟨_ | _ | row, m'⟩
      · rfl
      · rfl
      · dsimp only
        rcases back.put row n with ⟨_ | _ | out, n'⟩
        · rfl
        · have hpull := get_shrinks front m
          rw [hm] at hpull
          rcases hpull with ⟨hnone, -⟩ | ⟨-, hlt⟩
          · cases hnone
          · simp only at hlt
            exact pump_fuel m' n' (by omega) (by omega)
        · rfl

/-- Taking a row out of a tandem: rows go from the front into the back until
one comes out; when the front has none left, the back is asked. -/
theorem get_tandem (front back : Plan) (m : front.Memory) (n : back.Memory) :
    (tandem front back).get (m, n) =
      match front.get m with
      | (.error e, m) => (.error e, (m, n))
      | (.ok none, m) => ((back.get n).1, (m, (back.get n).2))
      | (.ok (some row), m) =>
        match back.put row n with
        | (.error e, n) => (.error e, (m, n))
        | (.ok (some out), n) => (.ok (some out), (m, n))
        | (.ok none, n) => (tandem front back).get (m, n) := by
  rw [get, pump]
  rcases hm : front.get m with ⟨_ | _ | row, m'⟩
  · rfl
  · rfl
  · dsimp only
    rcases back.put row n with ⟨_ | _ | out, n'⟩
    · rfl
    · have hpull := get_shrinks front m
      rw [hm] at hpull
      rcases hpull with ⟨hnone, -⟩ | ⟨-, hlt⟩
      · cases hnone
      · exact pump_fuel m' n' hlt (Nat.lt_succ_self _)
    · rfl

/-- When nothing comes out, no row is kept. -/
theorem pending_of_get_none {p : Plan} {m m' : p.Memory} (h : p.get m = (.ok none, m')) :
    p.pending m' = 0 := by
  have hpull := get_shrinks p m
  rw [h] at hpull
  rcases hpull with ⟨-, hdry⟩ | ⟨hne, -⟩
  · exact hdry
  · exact absurd rfl hne

theorem pending_get_lt {p : Plan} {m m' : p.Memory} {answer : Answer}
    (h : p.get m = (answer, m')) (hne : answer ≠ .ok none) :
    p.pending m' < p.pending m := by
  have hpull := get_shrinks p m
  rw [h] at hpull
  rcases hpull with ⟨hnone, -⟩ | ⟨-, hlt⟩
  · exact absurd hnone hne
  · exact hlt

/-- A plan that keeps no row gives none, and stays as it is. -/
theorem get_of_pending_eq_zero : ∀ (p : Plan) {m : p.Memory}, p.pending m = 0 →
    p.get m = (.ok none, m)
  | identity, _, _ => rfl
  | stage s, m, h => by
      rcases s.get_cases m with ⟨hget, -⟩ | ⟨row, m', -, hlt⟩
      · rw [get, hget]
      · change s.pending m = 0 at h
        omega
  | tandem front back, (m, n), h => by
      obtain ⟨hfront, hback⟩ := Nat.add_eq_zero_iff.mp h
      rw [get_tandem, get_of_pending_eq_zero front hfront]
      dsimp only
      rw [get_of_pending_eq_zero back hback]

end Plan

/-! ## Sequences of calls -/

/-- A call of a pipeline. -/
inductive Call where
  | put (row : Row)
  | get
deriving Repr, DecidableEq

namespace Plan

def call (p : Plan) (m : p.Memory) : Call → Answer × p.Memory
  | .put row => p.put row m
  | .get => p.get m

/-- The answers to calls made one after the other, and what is kept in the end. -/
def run (p : Plan) : List Call → p.Memory → List Answer × p.Memory
  | [], m => ([], m)
  | c :: calls, m =>
    let (answer, m) := p.call m c
    let (answers, m) := p.run calls m
    (answer :: answers, m)

end Plan

end RowCode
