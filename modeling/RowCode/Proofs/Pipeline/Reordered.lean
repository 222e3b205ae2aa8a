import RowCode.Proofs.Pipeline.Batch
import RowCode.Proofs.Pipeline.Totals
import RowCode.Proofs.Typing

/-!
# Extremes of reordered rows

Whether an extreme depends on the order of the rows. Between numbers it does
not: the least and the greatest are the same in any order, up to equality of
operands. But extremes compare as operators do, by an order in which a NaN is
not beyond anything and nothing is beyond a NaN. So a NaN is kept for good if it
is the first value that is not null, and passed over if it comes later, and two
orders of the same rows give equal operands exactly if they agree in that
(`extreme_reordered`).
-/

namespace RowCode

/-! ## Extremes of the same values -/

/-- A NaN is equal to every NaN of its type, and above all numbers of it. -/
theorem Scalar.compare_of_isNaN {v w : Scalar} (hty : v.ty = w.ty) (hv : v.isNaN = true) :
    v.compare w = if w.isNaN then .eq else .gt := by
  cases v <;> try cases hv
  case float32 x =>
    cases w <;> try cases hty
    case float32 y => exact Binary.totalCompare_of_isNaN hv
  case float64 x =>
    cases w <;> try cases hty
    case float64 y => exact Binary.totalCompare_of_isNaN hv

theorem Scalar.isNaN_of_compare {v w : Scalar} (h : v.compare w = .eq) (hv : v.isNaN = true) :
    w.isNaN = true := by
  rw [compare_of_isNaN (ty_of_compare h) hv] at h
  simpa using h

namespace Extreme

theorem compare_eq_iff : ∀ {e : Extreme} {v w : Scalar},
    e.compare v w = .eq ↔ v.compare w = .eq
  | min, _, _ => Iff.rfl
  | max, _, _ => Std.OrientedCmp.eq_comm

variable {e : Extreme} {t : ValueTy}

/-- What an extreme takes from two lists of the same values is of one value,
unless only one of the lists starts with a NaN. -/
theorem IsOf.compare_eq_iff {vs vs' : List t.Carrier} {m m' : t.Carrier}
    (h : e.IsOf t vs m) (h' : e.IsOf t vs' m') (hperm : vs.Perm vs') :
    (t.ty.wrap m).compare (t.ty.wrap m') = .eq ↔ t.startsWithNaN vs = t.startsWithNaN vs' := by
  rw [← h.isNaN, ← h'.isNaN]
  constructor
  · intro heq
    rw [Bool.eq_iff_iff]
    exact ⟨Scalar.isNaN_of_compare heq,
      Scalar.isNaN_of_compare (Std.OrientedCmp.eq_symm heq)⟩
  · intro hsame
    cases hm : (t.ty.wrap m).isNaN with
    | true =>
        rw [hm] at hsame
        rw [Scalar.compare_of_isNaN (by rw [Ty.ty_wrap, Ty.ty_wrap]) hm, if_pos hsame.symm]
    | false =>
        rw [hm] at hsame
        have hle := h.first hm m' (hperm.mem_iff.mpr h'.mem) hsame.symm
        have hge := h'.first hsame.symm m (hperm.mem_iff.mp h.mem) hm
        exact Extreme.compare_eq_iff.mp (Std.OrientedCmp.isLE_antisymm hle hge)

end Extreme

namespace Aggregate

variable {e : Extreme} {t : ValueTy} {index : Nat}

/-- So are the operands that are given for them; floats of one value are equal. -/
theorem same_iff_of_comes (ht : t = .float32 ∨ t = .float64) {vs vs' : List t.Carrier}
    {v v' : Operand} (h : Comes t.ty (e.IsOf t) vs v) (h' : Comes t.ty (e.IsOf t) vs' v')
    (hperm : vs.Perm vs') :
    v.same v' = true ↔ t.startsWithNaN vs = t.startsWithNaN vs' := by
  cases h with
  | null =>
      obtain rfl := hperm.nil_eq
      cases h' with
      | null => exact iff_of_true rfl rfl
      | value hne _ => exact absurd rfl hne
  | @value _ m hne hm =>
      cases h' with
      | null => exact absurd hperm.eq_nil hne
      | @value _ m' _ hm' =>
          rw [← hm.compare_eq_iff hm' hperm]
          rcases ht with rfl | rfl
          · exact Operand.same_iff id
          · exact Operand.same_iff id

/-! ## Rows that are all taken -/

theorem Keeps.taken_eq [KeyMap] {aggs : List Aggregate} {seen : List Row} {cache : Option Row}
    {rows : List Row} (h : Keeps aggs seen cache)
    (hfree : ∀ row ∈ rows, ∀ seen, ¬∃ a ∈ aggs, a.Refuses seen row) :
    (Plan.stage (.aggregate aggs)).taken rows cache = rows := by
  induction rows generalizing seen cache with
  | nil => rfl
  | cons row rows ih =>
      rw [List.forall_mem_cons] at hfree
      rw [Plan.taken]
      rcases h.put_cases row with ⟨e, -, hrefused⟩ | ⟨cache', hput, -, hkeeps⟩
      · exact absurd hrefused (hfree.1 seen)
      · rw [hput]
        exact congrArg (row :: ·) (ih hkeeps hfree.2)

/-- An extreme refuses no row with null or a value of its type in the column. -/
theorem not_refuses_extreme (e : Extreme) {row : Row} {v : Operand} (hv : row[index]? = some v)
    (hfits : v.Fits t.ty) (seen : List Row) : ¬(extreme e index t).Refuses seen row := by
  rintro (hlen | ⟨s, hs, hne⟩)
  · obtain ⟨hlt, -⟩ := List.getElem?_eq_some_iff.mp hv
    exact absurd hlt (Nat.not_lt.mpr hlen)
  · obtain rfl : v = some s := Option.some.inj (hv.symm.trans hs)
    exact hne hfits

/-- What comes out over such rows: one operand, if there are any rows at all. -/
theorem outputs_extreme [KeyMap] (e : Extreme) {rows : List Row}
    (hrows : ∀ row ∈ rows, ∃ v, row[index]? = some v ∧ v.Fits t.ty) :
    let p := Plan.stage (.aggregate [.extreme e index t])
    (rows = [] ∧ p.outputs rows p.empty = []) ∨
      rows ≠ [] ∧ ∃ v, p.outputs rows p.empty = [[v]] ∧
        Comes t.ty (e.IsOf t) (values t.ty index rows) v := by
  intro p
  have hfree : ∀ row ∈ rows, ∀ seen, ¬∃ a ∈ [extreme e index t], a.Refuses seen row := by
    intro row hrow seen
    obtain ⟨v, hv, hfits⟩ := hrows row hrow
    simpa using not_refuses_extreme e hv hfits seen
  have hkeeps : Keeps [extreme e index t] ([] ++ p.taken rows none) (p.feed rows none).2 :=
    Keeps.nothing.feed
  rw [Keeps.nothing.taken_eq hfree, List.nil_append, Plan.feed_aggregate] at hkeeps
  have hout : p.outputs rows p.empty = (total [extreme e index t] rows).toList :=
    Plan.outputs_aggregate _ rows
  rw [← total] at hkeeps
  rw [hout]
  cases hcache : total [extreme e index t] rows with
  | none =>
      rw [hcache] at hkeeps
      cases hkeeps with
      | nothing => exact Or.inl ⟨rfl, rfl⟩
  | some accs =>
      rw [hcache] at hkeeps
      cases hkeeps with
      | slots hne h =>
          cases h with
          | cons hv hnil =>
              cases hnil with
              | nil => exact Or.inr ⟨hne, _, rfl, hv⟩

end Aggregate

/-- Extremes of floats over two orders of the same rows. What comes out is equal
just if the first value that is not null is a NaN in both orders or in neither. -/
theorem extreme_reordered [KeyMap] {e : Extreme} {index : Nat} {t : ValueTy}
    (ht : t = .float32 ∨ t = .float64) {rows rows' : List Row}
    (hrows : ∀ row ∈ rows, ∃ v, row[index]? = some v ∧ v.Fits t.ty)
    (hperm : rows.Perm rows') :
    let p := Plan.stage (.aggregate [.extreme e index t])
    List.Forall₂ (fun out out' => out.same out' = true)
        (p.outputs rows p.empty) (p.outputs rows' p.empty) ↔
      t.startsWithNaN (Aggregate.values t.ty index rows) =
        t.startsWithNaN (Aggregate.values t.ty index rows') := by
  intro p
  have hrows' : ∀ row ∈ rows', ∃ v, row[index]? = some v ∧ v.Fits t.ty :=
    fun row hrow => hrows row (hperm.mem_iff.mpr hrow)
  rcases Aggregate.outputs_extreme e hrows with ⟨rfl, hout⟩ | ⟨hne, v, hout, hv⟩
  · obtain rfl := hperm.nil_eq
    exact iff_of_true (by rw [hout]; exact .nil) rfl
  · rcases Aggregate.outputs_extreme e hrows' with ⟨rfl, -⟩ | ⟨-, v', hout', hv'⟩
    · exact absurd hperm.eq_nil hne
    · rw [hout, hout', List.forall₂_cons, and_iff_left List.Forall₂.nil, Row.same, Row.same,
        Bool.and_true]
      exact Aggregate.same_iff_of_comes ht hv hv' (hperm.filterMap _)

/-- Both orders start with a number, once the null is passed over. -/
theorem extreme_reordered_numbers :
    let one : Row := [some (.float64 ⟨0x3FF0000000000000⟩)]
    let two : Row := [some (.float64 ⟨0x4000000000000000⟩)]
    let nan : Row := [some (.float64 .nan)]
    let p := Plan.stage (.aggregate [.extreme .max 0 .float64])
    List.Forall₂ (fun out out' => Row.same out out' = true)
      (p.outputs [one, nan, two, [none]] p.empty) (p.outputs [[none], two, one, nan] p.empty) := by
  intro one two nan p
  have hrows : ∀ row ∈ [one, nan, two, [none]],
      ∃ v, row[0]? = some v ∧ v.Fits ValueTy.float64.ty := by
    simp [one, nan, two, Operand.Fits, Scalar.ty, Scalar.valueTy]
  have hperm : [one, nan, two, [none]].Perm [[none], two, one, nan] := by decide
  exact (extreme_reordered (Or.inr rfl) hrows hperm).mpr rfl

/-- A NaN in front of a number and behind it. -/
theorem min_of_nan_reordered :
    let nan : Row := [some (.float32 .nan)]
    let one : Row := [some (.float32 ⟨0x3F800000⟩)]
    let p := Plan.stage (.aggregate [.extreme .min 0 .float32])
    [nan, one].Perm [one, nan] ∧ p.outputs [nan, one] p.empty = [nan] ∧
      p.outputs [one, nan] p.empty = [one] ∧ nan.same one = false := by
  intro nan one p
  refine ⟨List.Perm.swap one nan [], ?_, ?_, by decide⟩
  · exact Plan.outputs_aggregate [.extreme .min 0 .float32] [nan, one]
  · exact Plan.outputs_aggregate [.extreme .min 0 .float32] [one, nan]

end RowCode
