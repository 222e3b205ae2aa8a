import RowCode.Proofs.Binary.Exact
import RowCode.Proofs.Operator.Integer

/-!
# Casts of floats to integers

A float becomes the nearest integer, a tie going away from zero. The checked
cast compares the rounded float with the bounds of the type as doubles, and two
things make this exact: all bounds but the greatest 64-bit integer are doubles,
and that one becomes the power of two above it, which has a test of its own. The
plain cast takes the nearer bound instead, and zero for a NaN.

The checked cast works on doubles while the plain one stays in the format of the
source. Since every single is a double, this makes no difference.
-/

namespace RowCode

/-! ## Comparing with the bounds -/

namespace Binary

variable {f : Format}

theorem natAbs_rank_lt {x : Binary f} (hx : x.isFinite = true) :
    x.rank.natAbs < f.infinity := by
  have hlt := magnitude_lt_of_isFinite hx
  rw [rank, isNaN_of_isFinite hx]
  split
  · contradiction
  · split <;> omega

theorem isInfinite_iff {x : Binary f} :
    x.isInfinite = true ↔ x.isFinite = false ∧ x.isNaN = false := by
  simp only [isInfinite, isFinite, isNaN, decide_eq_true_iff, decide_eq_false_iff_not]
  omega

theorem isFinite_of_isNaN {x : Binary f} (hx : x.isNaN = true) : x.isFinite = false := by
  simp only [isFinite, isNaN, decide_eq_true_iff, decide_eq_false_iff_not] at hx ⊢
  omega

/-- A float that is neither finite nor a NaN is beyond all finite ones. -/
theorem rank_of_not_isFinite {x : Binary f} (hx : x.isFinite = false) (hnan : x.isNaN = false) :
    x.rank = if x.negative then -(f.infinity : Int) else f.infinity := by
  have hmagnitude : x.magnitude = f.infinity := by
    simpa [isInfinite] using isInfinite_iff.mpr ⟨hx, hnan⟩
  rw [rank, hnan, if_neg Bool.false_ne_true, hmagnitude]

end Binary

namespace Cast

/-- Between finite bounds, finite floats are judged by value. -/
theorem isBetween_iff {least greatest x : Double} (hleast : least.isFinite = true)
    (hgreatest : greatest.isFinite = true) (hx : x.isFinite = true) :
    isBetween least greatest x = true ↔ least.value ≤ x.value ∧ x.value ≤ greatest.value := by
  rw [isBetween, Binary.isNaN_of_isFinite hx, Binary.partialCompare_of_isFinite hx hleast,
    Binary.partialCompare_of_isFinite hx hgreatest]
  simp [Ordering.isGE_iff_ne_lt, Ordering.isLE_iff_ne_gt, compare_ge_iff_ge, compare_le_iff_le]

/-- Nothing else is between finite bounds. -/
theorem isBetween_of_not_isFinite {least greatest x : Double} (hleast : least.isFinite = true)
    (hgreatest : greatest.isFinite = true) (hx : x.isFinite = false) :
    isBetween least greatest x = false := by
  unfold isBetween
  cases hnan : x.isNaN with
  | true => rfl
  | false =>
      have hrank := Binary.rank_of_not_isFinite hx hnan
      have hlow := Binary.natAbs_rank_lt hleast
      have hhigh := Binary.natAbs_rank_lt hgreatest
      simp only [Binary.partialCompare, hnan, Binary.isNaN_of_isFinite hleast,
        Binary.isNaN_of_isFinite hgreatest, hrank]
      cases x.negative with
      | true =>
          have hlt : compare (-(Format.double.infinity : Int)) least.rank = .lt :=
            compare_lt_iff_lt.mpr (by omega)
          simp [hlt]
      | false =>
          have hgt : compare (Format.double.infinity : Int) greatest.rank = .gt :=
            compare_gt_iff_gt.mpr (by omega)
          simp [hgt]

/-! ## Finite floats -/

section Finite

variable {α : Type} {w : Window α} {f : Format} {n : Int}

theorem truncateInto_of_value {x : Binary f} (hx : x.isFinite = true) (hvalue : x.value = n) :
    truncateInto w x = w.saturate n := by
  rw [truncateInto, Binary.truncate?_of_value hx hvalue]

theorem truncateInto_round {x : Binary f} (hx : x.isFinite = true) (hn : IsNearest x.value n) :
    truncateInto w x.round = w.saturate n := by
  obtain ⟨hfinite, hvalue⟩ := Binary.round_of_isNearest hx hn
  exact truncateInto_of_value hfinite hvalue

/-- A double that an integer becomes. -/
structure IsDouble (n : Int) (x : Double) : Prop where
  isFinite : x.isFinite = true
  value : x.value = n

/-- Small integers are doubles if they have few digits but for trailing zeros. -/
theorem isDouble_ofInt {units shift : Nat} (hn : n.natAbs = units * 2 ^ shift)
    (hunits : units < 2 ^ 53) (hlt : n.natAbs < 2 ^ 64) : IsDouble n (.ofInt n) := by
  have hsmall :
      (n.natAbs : ℚ) < 2 ^ (2 - Format.double.minExponent - Format.double.fractionBits) :=
    calc (n.natAbs : ℚ) < 2 ^ 64 := by exact_mod_cast hlt
      _ = 2 ^ (64 : Int) := by norm_num
      _ < 2 ^ (2 - Format.double.minExponent - Format.double.fractionBits) :=
        zpow_lt_zpow_right₀ one_lt_two (by decide)
  obtain ⟨hfinite, hvalue⟩ := Binary.ofInt_exact (f := .double) hn hunits hsmall
  exact ⟨hfinite, hvalue⟩

theorem isDouble_least : ∀ t : IntTy, IsDouble t.window.least (.ofInt t.window.least)
  | .int32 =>
      isDouble_ofInt (show Window.int32.least.natAbs = 1 * 2 ^ 31 by decide) (by decide) (by decide)
  | .int64 =>
      isDouble_ofInt (show Window.int64.least.natAbs = 1 * 2 ^ 63 by decide) (by decide) (by decide)

theorem isDouble_greatest32 : IsDouble Window.int32.greatest (.ofInt Window.int32.greatest) :=
  isDouble_ofInt (show Window.int32.greatest.natAbs = (2 ^ 31 - 1) * 2 ^ 0 by decide) (by decide)
    (by decide)

/-- The greatest integer of 64 bits has too many digits and is rounded up. -/
theorem isDouble_greatest64 : IsDouble (2 ^ 63) (.ofInt Window.int64.greatest) := by
  have hround : (.ofInt Window.int64.greatest : Double) = .ofInt (2 ^ 63) := by decide
  rw [hround]
  exact isDouble_ofInt (show ((2 : Int) ^ 63).natAbs = 1 * 2 ^ 63 by decide) (by decide)
    (by decide)

/-- The bounds are tested as the doubles that they become. -/
theorem roundInto_eq {high : Int} {x : Double} (hleast : IsDouble w.least (.ofInt w.least))
    (hhigh : IsDouble high (.ofInt w.greatest)) (hx : x.isFinite = true)
    (hn : IsNearest x.value n) :
    roundInto w x =
      if w.least ≤ n ∧ n ≤ high then .ok (w.saturate n) else .error (.overflow w.ty) := by
  obtain ⟨hfinite, hvalue⟩ := Binary.round_of_isNearest hx hn
  have hbetween := isBetween_iff hleast.isFinite hhigh.isFinite hfinite
  rw [hleast.value, hhigh.value, hvalue, Int.cast_le, Int.cast_le] at hbetween
  unfold roundInto
  dsimp only
  rw [truncateInto_of_value hfinite hvalue]
  exact if_congr hbetween rfl rfl

/-- Rounding to 32 bits is exact. -/
theorem roundInto_int32 {x : Double} (hx : x.isFinite = true) (hn : IsNearest x.value n) :
    roundInto .int32 x = Window.int32.exact n := by
  rw [roundInto_eq (w := .int32) (isDouble_least .int32) isDouble_greatest32 hx hn, Window.exact_eq]

/-- Rounding to 64 bits is exact, since what reaches the bound is refused. -/
theorem roundInto64_eq {x : Double} (hx : x.isFinite = true) (hn : IsNearest x.value n) :
    roundInto64 x = Window.int64.exact n := by
  obtain ⟨hfinite, hvalue⟩ := Binary.round_of_isNearest hx hn
  have hreached : (x.round.partialCompare (.ofInt Window.int64.greatest)).any Ordering.isGE = true ↔
      2 ^ 63 ≤ n := by
    rw [Binary.partialCompare_of_isFinite hfinite isDouble_greatest64.isFinite, hvalue,
      isDouble_greatest64.value, Option.any_some, Ordering.isGE_iff_ne_lt]
    exact compare_ge_iff_ge.trans Int.cast_le
  rw [roundInto64, roundInto_eq (w := .int64) (isDouble_least .int64) isDouble_greatest64 hx hn,
    Window.exact_eq]
  have hgreatest : Window.int64.greatest = 2 ^ 63 - 1 := rfl
  split
  · next hge =>
    rw [hreached] at hge
    rw [if_neg (by omega)]
    rfl
  · next hlt =>
    rw [hreached] at hlt
    refine if_congr ?_ rfl rfl
    omega

end Finite

/-! ## All other floats -/

theorem roundInto_of_not_isFinite {α : Type} {w : Window α} {low high : Int} {x : Double}
    (hlow : IsDouble low (.ofInt w.least)) (hhigh : IsDouble high (.ofInt w.greatest))
    (hx : x.isFinite = false) : roundInto w x = .error (.overflow w.ty) := by
  unfold roundInto
  dsimp only
  rw [Binary.round_of_not_isFinite hx,
    isBetween_of_not_isFinite hlow.isFinite hhigh.isFinite hx]
  rfl

theorem roundInto64_of_not_isFinite {x : Double} (hx : x.isFinite = false) :
    roundInto64 x = .error (.overflow .int64) := by
  rw [roundInto64,
    roundInto_of_not_isFinite (w := .int64) (isDouble_least .int64) isDouble_greatest64 hx]
  split <;> rfl

theorem truncateInto_of_not_isFinite {α : Type} {f : Format} (w : Window α) {x : Binary f}
    (hx : x.isFinite = false) :
    truncateInto w x.round =
      if x.isNaN then w.ofInt 0
      else if x.negative then w.ofInt w.least
      else w.ofInt w.greatest := by
  rw [Binary.round_of_not_isFinite hx, truncateInto, Binary.truncate?_of_not_isFinite hx]

end Cast

/-! ## Singles as doubles -/

namespace Binary

theorem convert_of_isNaN {f g : Format} {x : Binary f} (h : x.isNaN = true) :
    (x.convert : Binary g) = nan :=
  if_pos h

theorem convert_of_isInfinite {f g : Format} {x : Binary f} (hnan : x.isNaN = false)
    (h : x.isInfinite = true) : (x.convert : Binary g) = infinity x.negative := by
  unfold convert
  rw [hnan, if_neg Bool.false_ne_true, if_pos h]

/-- What is not finite stays what it is as a double. -/
theorem widen_of_not_isFinite : ∀ {f : Format} {x : Binary f}, x.isFinite = false →
    x.widen.isFinite = false ∧ x.widen.isNaN = x.isNaN ∧
      (x.isNaN = false → x.widen.negative = x.negative)
  | .double, _, hx => ⟨hx, rfl, fun _ => rfl⟩
  | .single, x, hx => by
      rw [widen]
      cases hnan : x.isNaN with
      | true =>
          rw [convert_of_isNaN hnan]
          exact ⟨by decide, by decide, Bool.noConfusion⟩
      | false =>
          rw [convert_of_isInfinite hnan (isInfinite_iff.mpr ⟨hx, hnan⟩)]
          cases x.negative <;> exact ⟨by decide, by decide, fun _ => by decide⟩

end Binary

/-- The plain cast makes the same of a single and of the double that it is. -/
theorem Cast.truncateInto_widen {α : Type} (w : Window α) (x : Single) :
    truncateInto w x.widen.round = truncateInto w x.round := by
  cases hx : x.isFinite with
  | true =>
      obtain ⟨n, hn, -, -⟩ := Binary.exists_round hx
      obtain ⟨hfinite, hvalue⟩ := Binary.widen_finite hx
      rw [truncateInto_round hx hn, truncateInto_round hfinite (hvalue ▸ hn)]
  | false =>
      obtain ⟨hfinite, hnan, hsign⟩ := Binary.widen_of_not_isFinite hx
      rw [truncateInto_of_not_isFinite w hx, truncateInto_of_not_isFinite w hfinite, hnan]
      split
      · rfl
      · next hnumber => rw [hsign (by simpa using hnumber)]

/-! ## Steps -/

def Format.valueTy : Format → ValueTy
  | single => .float32
  | double => .float64

namespace IntTy

variable {f : Format}

theorem cast_defined (f : Format) (t : IntTy) : Cast.Defined f.valueTy t.valueTy := by
  cases f <;> cases t <;> decide

/-- The cast of a float to an integer type. -/
def ofFloat (f : Format) (t : IntTy) (checked : Bool) : Instr :=
  .op (.cast checked f.valueTy t.valueTy (cast_defined f t))

/-- What a float becomes in either kind of cast. -/
def roundFloat (checked : Bool) (x : Binary f) : (t : IntTy) → Except Fault t.Carrier
  | int32 => Cast.ofFloat checked x .int32
  | int64 => Cast.ofFloat checked x .int64

theorem step_ofFloat (t : IntTy) (checked : Bool) (x : Binary f) (row : Option Row)
    (rest : Stack) :
    (ofFloat f t checked).step row (some (.ofBinary x) :: rest) =
      push t.ty rest (some <$> roundFloat checked x t) := by
  cases f with
  | single => cases t <;> exact Kernel.apply_strict1 (a := .float32) _ x rest
  | double => cases t <;> exact Kernel.apply_strict1 (a := .float64) _ x rest

theorem roundFloat_plain (t : IntTy) (x : Binary f) :
    roundFloat false x t = .ok (Cast.truncateInto t.window x.round) := by
  cases t <;> rfl

theorem roundFloat_checked (t : IntTy) {x : Binary f} {n : Int} (hx : x.isFinite = true)
    (hn : IsNearest x.value n) : roundFloat true x t = t.window.exact n := by
  obtain ⟨hfinite, hvalue⟩ := Binary.widen_finite hx
  rw [← hvalue] at hn
  cases t with
  | int32 => exact Cast.roundInto_int32 hfinite hn
  | int64 => exact Cast.roundInto64_eq hfinite hn

theorem roundFloat_checked_of_not_isFinite (t : IntTy) {x : Binary f} (hx : x.isFinite = false) :
    roundFloat true x t = .error (.overflow t.ty) := by
  have hwide := (Binary.widen_of_not_isFinite hx).1
  have hleast := Cast.isDouble_least t
  cases t with
  | int32 => exact Cast.roundInto_of_not_isFinite hleast Cast.isDouble_greatest32 hwide
  | int64 => exact Cast.roundInto64_of_not_isFinite hwide

/-- On the way over the double nothing changes. -/
theorem roundFloat_widen (t : IntTy) (checked : Bool) (x : Single) :
    roundFloat checked x.widen t = roundFloat checked x t := by
  cases checked with
  | true =>
      have hwide : x.widen.widen = x.widen := rfl
      cases t with
      | int32 => exact congrArg (Cast.roundInto .int32) hwide
      | int64 => exact congrArg Cast.roundInto64 hwide
  | false => rw [roundFloat_plain, roundFloat_plain, Cast.truncateInto_widen]

theorem step_widen (checked : Bool) (x : Single) (row : Option Row) (rest : Stack) :
    (Instr.op (.cast checked .float32 .float64 (by decide))).step row (some (.float32 x) :: rest) =
      .ok (some (.float64 x.widen) :: rest) :=
  Kernel.apply_strict1 (a := .float32) _ x rest

/-- Widened first, in either kind of cast, a single becomes the same integer. -/
theorem runOn_widen (t : IntTy) (checked widened : Bool) (x : Single) (row : Option Row)
    (rest : Stack) :
    Program.runOn row
        [.op (.cast widened .float32 .float64 (by decide)), ofFloat .double t checked]
        (some (.float32 x) :: rest) =
      (ofFloat .single t checked).step row (some (.float32 x) :: rest) := by
  have hdirect : (ofFloat .single t checked).step row (some (.float32 x) :: rest) =
      push t.ty rest (some <$> roundFloat checked x t) := step_ofFloat t checked x row rest
  have hwide : (ofFloat .double t checked).step row (some (.float64 x.widen) :: rest) =
      push t.ty rest (some <$> roundFloat checked x.widen t) :=
    step_ofFloat t checked x.widen row rest
  rw [Program.runOn, step_widen, hdirect, ← roundFloat_widen, ← hwide]
  exact Program.runOn_singleton row _ _

/-- The casts of floats to integers, on all floats. A finite float becomes the
nearest integer if that is in the type. If not, and for infinities, the checked
cast overflows and the plain one takes the nearer bound; a NaN overflows or is
zero. A single gives the same as the double that it is. -/
theorem casts_exact (t : IntTy) (x : Binary f) (row : Option Row) (rest : Stack) :
    let cast (checked : Bool) := (ofFloat f t checked).step row (some (.ofBinary x) :: rest)
    (x.isFinite = true → ∃ n, IsNearest x.value n ∧ t.Exact n rest (cast true) ∧
      ∃ c, cast false = .ok (some (t.ty.wrap c) :: rest) ∧
        t.toInt c = max t.window.least (min t.window.greatest n)) ∧
    (x.isFinite = false → cast true = .error ⟨.overflow t.ty, rest⟩) ∧
    (x.isInfinite = true → ∃ c, cast false = .ok (some (t.ty.wrap c) :: rest) ∧
      t.toInt c = if x.negative then t.window.least else t.window.greatest) ∧
    (x.isNaN = true → ∃ c, cast false = .ok (some (t.ty.wrap c) :: rest) ∧ t.toInt c = 0) ∧
    ∀ (y : Single) (checked widened : Bool),
      Program.runOn row
          [.op (.cast widened .float32 .float64 (by decide)), ofFloat .double t checked]
          (some (.float32 y) :: rest) =
        (ofFloat .single t checked).step row (some (.float32 y) :: rest) := by
  intro cast
  have hchecked : cast true = push t.ty rest (some <$> roundFloat true x t) :=
    step_ofFloat t true x row rest
  have hplain : cast false =
      .ok (some (t.ty.wrap (Cast.truncateInto t.window x.round)) :: rest) := by
    rw [show cast false = _ from step_ofFloat t false x row rest, roundFloat_plain]
    rfl
  refine ⟨fun hx => ?_, fun hx => ?_, fun hx => ⟨_, hplain, ?_⟩, fun hx => ⟨_, hplain, ?_⟩,
    fun y checked widened => runOn_widen t checked widened y row rest⟩
  · obtain ⟨n, hn, -, -⟩ := Binary.exists_round hx
    refine ⟨n, hn, ?_, _, hplain, ?_⟩
    · rw [hchecked, roundFloat_checked t hx hn]
      exact exact_push n rest
    · rw [Cast.truncateInto_round hx hn]
      exact t.faithful_window.toInt_saturate n
  · rw [hchecked, roundFloat_checked_of_not_isFinite t hx]
    rfl
  · obtain ⟨hfinite, hnan⟩ := Binary.isInfinite_iff.mp hx
    rw [Cast.truncateInto_of_not_isFinite _ hfinite, hnan, if_neg Bool.false_ne_true]
    split
    · exact toInt_ofInt t.faithful_window.contains_least
    · exact toInt_ofInt t.faithful_window.contains_greatest
  · rw [Cast.truncateInto_of_not_isFinite _ (Binary.isFinite_of_isNaN hx), if_pos hx]
    exact toInt_ofInt t.faithful_window.contains_zero

end IntTy

end RowCode
