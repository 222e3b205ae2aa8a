import RowCode.Hash.Digest
import RowCode.Proofs.Decimal.Text
import RowCode.Proofs.Operand.Equality

/-!
# Digests go by value

Rows that compare equal have one digest (`Row.digest_of_compare`). The converse
fails, as for every digest, and so does it for rows that are the same: `same`
may take decimals of two values for equal, and their digests differ.
-/

namespace RowCode

namespace Binary

variable {f : Format}

theorem isNaN_of_rank {x y : Binary f} (h : x.rank = y.rank) (hx : x.isNaN = true) :
    y.isNaN = true := by
  by_contra hy
  refine rank_ne_of_not_isNaN (Bool.not_eq_true _ ▸ hy) ?_
  rw [← h, rank, if_pos hx]

theorem rank_of_not_isNaN {x : Binary f} (h : x.isNaN = false) :
    x.rank = if x.negative then -(x.magnitude : Int) else x.magnitude := by
  rw [rank, if_neg (by rw [h]; exact Bool.false_ne_true)]

/-- Numbers of one rank differ at most in the sign of a zero. -/
theorem magnitude_eq_of_rank {x y : Binary f} (hx : x.isNaN = false) (hy : y.isNaN = false)
    (h : x.rank = y.rank) :
    x.magnitude = y.magnitude ∧ (x.negative && !x.isZero) = (y.negative && !y.isZero) := by
  rw [rank_of_not_isNaN hx, rank_of_not_isNaN hy] at h
  have hmagnitude : x.magnitude = y.magnitude := by split at h <;> split at h <;> omega
  refine ⟨hmagnitude, ?_⟩
  rw [isZero, isZero, hmagnitude]
  rcases Nat.eq_zero_or_pos y.magnitude with hzero | hpos
  · simp [hzero]
  · have hsign : x.negative = y.negative := by
      rw [Bool.eq_iff_iff]
      constructor
      · intro hneg
        by_contra hpositive
        rw [if_pos hneg, if_neg hpositive] at h
        omega
      · intro hneg
        by_contra hpositive
        rw [if_neg hpositive, if_pos hneg] at h
        omega
    rw [hsign]

theorem floatWord_of_totalCompare {x y : Binary f} (h : x.totalCompare y = .eq) :
    Digest.floatWord x = Digest.floatWord y := by
  have hrank : x.rank = y.rank := Std.compare_eq_iff_eq.mp h
  cases hx : x.isNaN with
  | true => rw [Digest.floatWord, Digest.floatWord, if_pos hx, if_pos (isNaN_of_rank hrank hx)]
  | false =>
      have hy : y.isNaN = false := by
        by_contra hy
        rw [isNaN_of_rank hrank.symm (by simpa using hy)] at hx
        cases hx
      obtain ⟨hmagnitude, hsign⟩ := magnitude_eq_of_rank hx hy hrank
      simp only [Digest.floatWord, hx, hy, hmagnitude, hsign]

end Binary

theorem Decimal.figures_of_compare {a b : Decimal} (h : a.compare b = .eq) :
    Digest.figures a = Digest.figures b := by
  have hnormal : a.normal = b.normal := normal_eq_iff.mpr (compare_eq_iff_value.mp h)
  rw [Digest.figures, Digest.figures, hnormal]

theorem Scalar.bytes_of_compare {v w : Scalar} (h : v.compare w = .eq) : v.bytes = w.bytes := by
  have hty := ty_of_compare h
  cases v <;> cases w <;> try cases hty
  case int32 m n => rw [Std.compare_eq_iff_eq.mp h]
  case int64 m n => rw [Std.compare_eq_iff_eq.mp h]
  case bool a b => rw [Std.compare_eq_iff_eq.mp h]
  case float32 x y => rw [bytes, bytes, Binary.floatWord_of_totalCompare h]
  case float64 x y => rw [bytes, bytes, Binary.floatWord_of_totalCompare h]
  case decimal a b => rw [bytes, bytes, Decimal.figures_of_compare h]
  case string s t => rw [compareText_eq_iff.mp h]

theorem Operand.bytes_of_compare : ∀ {v w : Operand}, v.compare w = .eq → v.bytes = w.bytes
  | none, none, _ => rfl
  | none, some _, h => by cases h
  | some _, none, h => by cases h
  | some v, some w, h => by
      rw [bytes, bytes, ty, ty, Scalar.ty_of_compare h, Option.elim_some, Option.elim_some,
        Scalar.bytes_of_compare h]

namespace Row

theorem bytes_of_compare : ∀ {a b : Row}, compare a b = .eq →
    a.length = b.length ∧ a.flatMap Operand.bytes = b.flatMap Operand.bytes
  | [], [], _ => ⟨rfl, rfl⟩
  | [], _ :: _, h => by cases h
  | _ :: _, [], h => by cases h
  | v :: a, w :: b, h => by
      obtain ⟨hhead, htail⟩ := compare_cons_eq_iff.mp h
      obtain ⟨hlength, hbytes⟩ := bytes_of_compare htail
      rw [List.length_cons, List.length_cons, List.flatMap_cons, List.flatMap_cons, hlength,
        hbytes, Operand.bytes_of_compare hhead]
      exact ⟨rfl, rfl⟩

/-- Rows of one value have one digest. -/
theorem digest_of_compare {a b : Row} (h : compare a b = .eq) : a.digest = b.digest := by
  obtain ⟨hlength, hbytes⟩ := bytes_of_compare h
  rw [digest, digest, hlength, hbytes]

end Row

end RowCode
