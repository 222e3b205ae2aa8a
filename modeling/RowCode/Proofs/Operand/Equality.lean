import RowCode.Operand.Order
import RowCode.Proofs.Decimal.Equality

/-!
# Equality and order of rows

Rows have an order by value (`Row.compare`) and an equality of their own
(`Row.same`). On operands that compare equal the two agree, except on decimals
that are apart in the sense of `Decimal.Apart`. Hence two rows that compare
equal are the same unless they are apart in some column (`Row.same_eq_true_iff`).
-/

namespace RowCode

theorem compareText_eq_iff {s t : String} : compareText s t = .eq ↔ s = t := by
  rw [compareText, Std.compare_eq_iff_eq]
  refine ⟨fun h => ?_, fun h => by rw [h]⟩
  have hdata : s.toUTF8.data = t.toUTF8.data := Array.toList_inj.mp h
  exact String.toByteArray_inj.mp (ByteArray.ext hdata)

namespace Binary

variable {f : Format}

theorem magnitude_le_of_not_isNaN {x : Binary f} (h : x.isNaN = false) :
    x.magnitude ≤ f.infinity := by
  simpa [isNaN] using h

/-- No number has the rank of a NaN. -/
theorem rank_ne_of_not_isNaN {x : Binary f} (h : x.isNaN = false) :
    x.rank ≠ f.infinity + 1 := by
  have := magnitude_le_of_not_isNaN h
  rw [rank, h]
  split
  · contradiction
  · split <;> omega

theorem same_of_totalCompare {x y : Binary f} (h : x.totalCompare y = .eq) :
    x.same y = true := by
  rw [totalCompare, Std.compare_eq_iff_eq] at h
  cases hx : x.isNaN with
  | true =>
      cases hy : y.isNaN with
      | true => simp [same, hx, hy]
      | false =>
          refine absurd ?_ (rank_ne_of_not_isNaN hy)
          rw [← h, rank, if_pos hx]
  | false =>
      cases hy : y.isNaN with
      | true =>
          refine absurd ?_ (rank_ne_of_not_isNaN hx)
          rw [h, rank, if_pos hy]
      | false => simp [same, partialCompare, hx, hy, h]

end Binary

namespace Scalar

/-- Decimals that equality tells apart, whatever their values. -/
def Apart : Scalar → Scalar → Prop
  | decimal a, decimal b => a.Apart b
  | _, _ => False

theorem ty_of_compare {v w : Scalar} (h : v.compare w = .eq) : v.ty = w.ty := by
  cases v <;> cases w <;>
    first
      | rfl
      | exact Ty.code_injective (Std.compare_eq_iff_eq.mp h)

theorem same_eq_true_iff {v w : Scalar} (h : v.compare w = .eq) :
    v.same w = true ↔ ¬Apart v w := by
  have hty := ty_of_compare h
  cases v <;> cases w <;> try cases hty
  case int32 m n => simpa [same, Apart] using Std.compare_eq_iff_eq.mp h
  case int64 m n => simpa [same, Apart] using Std.compare_eq_iff_eq.mp h
  case bool a b => simpa [same, Apart] using Std.compare_eq_iff_eq.mp h
  case float32 x y => simpa [same, Apart] using Binary.same_of_totalCompare h
  case float64 x y => simpa [same, Apart] using Binary.same_of_totalCompare h
  case decimal a b => exact Decimal.same_eq_true_iff h
  case string s t => simpa [same, Apart] using compareText_eq_iff.mp h

end Scalar

namespace Operand

/-- `Scalar.Apart` for operands; a null is never apart from anything. -/
def Apart : Operand → Operand → Prop
  | some v, some w => v.Apart w
  | _, _ => False

theorem same_eq_true_iff {v w : Operand} (h : v.compare w = .eq) :
    v.same w = true ↔ ¬Apart v w := by
  cases v <;> cases w
  case none.none => simp [same, Apart]
  case none.some w => cases h
  case some.none v => cases h
  case some.some v w => exact Scalar.same_eq_true_iff h

end Operand

namespace Row

/-- Rows that are apart in some column. -/
def Apart (a b : Row) : Prop :=
  ∃ p ∈ a.zip b, Operand.Apart p.1 p.2

theorem compare_cons_eq_iff {v w : Operand} {a b : Row} :
    compare (v :: a) (w :: b) = .eq ↔ Operand.compare v w = .eq ∧ compare a b = .eq := by
  rw [compare, Ordering.then_eq_eq]

theorem apart_cons_iff {v w : Operand} {a b : Row} :
    Apart (v :: a) (w :: b) ↔ Operand.Apart v w ∨ Apart a b := by
  simp [Apart]

/-- Rows of one value are the same unless they are apart. -/
theorem same_eq_true_iff : ∀ {a b : Row}, compare a b = .eq →
    (same a b = true ↔ ¬Apart a b)
  | [], [], _ => by simp [same, Apart]
  | [], _ :: _, h => by cases h
  | _ :: _, [], h => by cases h
  | v :: a, w :: b, h => by
      obtain ⟨hhead, htail⟩ := compare_cons_eq_iff.mp h
      rw [same, Bool.and_eq_true, Operand.same_eq_true_iff hhead, same_eq_true_iff htail,
        apart_cons_iff, not_or]

end Row

end RowCode
