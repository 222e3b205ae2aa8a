import Mathlib.Data.List.Induction
import RowCode.Proofs.Decimal.Quotient
import RowCode.Proofs.Frame
import RowCode.Proofs.Step

/-!
# Powers of ten along a run

Decimals are read with a power of ten within `Decimal.maxExponent`, and this
module follows the bound through runs. Signs, extremes and casts keep it, and a
product that leaves it is refused with an overflow. Sums, differences and
quotients are not checked. `ArithOp.Escapes` says of their arguments when the
result is out of bounds: a sum or a difference only at the upper end, where a
carry gives it a trailing zero too many, a quotient at either end, after it has
been rounded where it comes out even or has a hundred digits.

So a run with bounded constants on a bounded row stays bounded as long as no
such step is taken, and exactly as long (`Program.runs_bounded_iff`).
-/

namespace RowCode

/-! ## Bounded decimals -/

namespace Decimal

/-- A number other than zero whose trailing zeros alone are beyond the bound. -/
def Exceeds (v : ℚ) : Prop :=
  v ≠ 0 ∧ IsMultiple v (maxExponent + 1)

theorem isMultiple_zero (e : Int) : IsMultiple 0 e :=
  ⟨0, by simp⟩

theorem isMultiple_of_isBounded {d : Decimal} (h : d.isBounded = true) :
    IsMultiple d.value (-maxExponent) := by
  rcases isBounded_iff.mp h with hzero | ⟨hmultiple, -⟩
  · rw [hzero]
    exact isMultiple_zero _
  · exact hmultiple

/-- There are two ends at which a decimal may be out of bounds. -/
theorem isBounded_eq_false_iff {d : Decimal} :
    d.isBounded = false ↔ ¬IsMultiple d.value (-maxExponent) ∨ Exceeds d.value := by
  rw [Bool.eq_false_iff, ne_eq, isBounded_iff, Exceeds]
  by_cases hzero : d.value = 0
  · simp [hzero, isMultiple_zero]
  · tauto

/-- What has no place beyond the bound can only be out of bounds at the upper end. -/
theorem exceeds_iff {d : Decimal} (h : IsMultiple d.value (-maxExponent)) :
    Exceeds d.value ↔ d.isBounded = false := by
  rw [isBounded_eq_false_iff, or_iff_right (not_not_intro h)]

theorem isBounded_neg {d : Decimal} (h : d.isBounded = true) : d.neg.isBounded = true := by
  rw [isBounded_iff] at h ⊢
  rw [value_neg, neg_eq_zero, isMultiple_neg_iff, isMultiple_neg_iff]
  exact h

theorem isBounded_abs {d : Decimal} (h : d.isBounded = true) : d.abs.isBounded = true := by
  rw [isBounded_iff] at h ⊢
  rw [value_abs]
  rcases abs_choice d.value with habs | habs
  · rw [habs]
    exact h
  · rw [habs, neg_eq_zero, isMultiple_neg_iff, isMultiple_neg_iff]
    exact h

/-- A nonzero integer has fewer trailing zeros than digits. -/
theorem isBounded_ofInt {n : Int} (h : n.natAbs < 10 ^ (maxExponent + 1)) :
    (ofInt n).isBounded = true := by
  rw [isBounded_iff, value_ofInt]
  by_cases hn : n = 0
  · exact .inl (by simp [hn])
  · refine .inr ⟨⟨n * 10 ^ maxExponent, ?_⟩, ?_⟩
    · have hpow := ten_zpow_of_le (show -(maxExponent : Int) ≤ 0 by omega)
      rw [zpow_zero, Int.sub_neg, Int.zero_add, Int.toNat_natCast] at hpow
      push_cast at hpow ⊢
      rw [mul_assoc, ← hpow, mul_one]
    · rintro ⟨k, hk⟩
      have hint : n = k * 10 ^ (maxExponent + 1) := by exact_mod_cast hk
      have hk0 : k ≠ 0 := by
        rintro rfl
        exact hn (by rw [hint, Int.zero_mul])
      have habs : n.natAbs = k.natAbs * 10 ^ (maxExponent + 1) := by
        rw [hint, Int.natAbs_mul, Int.natAbs_pow, show (10 : Int).natAbs = 10 from rfl]
      rw [habs] at h
      exact Nat.not_lt_of_le (Nat.le_mul_of_pos_left _ (Int.natAbs_pos.mpr hk0)) h

theorem isBounded_of_bounded {d d' : Decimal} (h : bounded d = .ok d') :
    d'.isBounded = true := by
  rw [bounded] at h
  split at h
  · next hd =>
      cases h
      exact hd
  · cases h

theorem isBounded_of_parse {s : String} {d : Decimal} (h : parse s = .ok d) :
    d.isBounded = true := by
  rw [parse] at h
  split at h
  · exact isBounded_of_bounded h
  · cases h

end Decimal

theorem mapError_eq_ok {ε ε' α : Type} {x : Except ε α} {f : ε → ε'} {v : α} :
    x.mapError f = .ok v ↔ x = .ok v := by
  cases x <;> simp [Except.mapError]

theorem map_some_eq_ok {ε α : Type} {x : Except ε α} {v : α} :
    some <$> x = .ok (some v) ↔ x = .ok v := by
  cases x <;> simp [Functor.map, Except.map]

theorem isBounded_of_readDecimal {s : String} {d : Decimal} (h : readDecimal s = .ok d) :
    d.isBounded = true :=
  Decimal.isBounded_of_parse (mapError_eq_ok.mp h)

/-! ## Bounded operands -/

/-- A power of ten within bounds, where there is one. -/
def Scalar.Bounded : Scalar → Prop
  | decimal d => d.isBounded = true
  | _ => True

/-- `Scalar.Bounded` for operands; null is bounded. -/
def Operand.Bounded : Operand → Prop
  | none => True
  | some v => v.Bounded

/-- A stack of bounded operands. -/
def Stack.Bounded (stack : Stack) : Prop :=
  ∀ v ∈ stack, Operand.Bounded v

theorem Stack.bounded_cons {v : Operand} {stack : Stack} :
    Stack.Bounded (v :: stack) ↔ v.Bounded ∧ stack.Bounded :=
  List.forall_mem_cons

theorem Operand.bounded_map {t : Ty} {x : Option t.Carrier}
    (h : ∀ v, x = some v → (t.wrap v).Bounded) : Operand.Bounded (x.map t.wrap) := by
  cases x with
  | none => exact trivial
  | some v => exact h v rfl

/-! ## Operators that keep the bound -/

/-- Bounded arguments give a bounded result. -/
def Kernel.Keeps : Kernel → Prop
  | strict1 a r f =>
    ∀ x z, (a.wrap x).Bounded → f x = .ok (some z) → (r.wrap z).Bounded
  | strict2 a b r f =>
    ∀ x y z, (a.wrap x).Bounded → (b.wrap y).Bounded → f x y = .ok (some z) → (r.wrap z).Bounded
  | strict3 a b c r f =>
    ∀ x y z v, (a.wrap x).Bounded → (b.wrap y).Bounded → (c.wrap z).Bounded →
      f x y z = .ok (some v) → (r.wrap v).Bounded
  | lenient1 a r f =>
    ∀ x z, Operand.Bounded (x.map a.wrap) → f x = some z → (r.wrap z).Bounded
  | lenient2 a b r f =>
    ∀ x y z, Operand.Bounded (x.map a.wrap) → Operand.Bounded (y.map b.wrap) →
      f x y = some z → (r.wrap z).Bounded

theorem Kernel.Reduces.bounded {k : Kernel} {rest stack stack' : Stack} (hk : k.Keeps)
    (h : k.Reduces rest stack stack') (hstack : stack.Bounded) : stack'.Bounded := by
  cases h with
  | strict1 h =>
      obtain ⟨hx, hrest⟩ := Stack.bounded_cons.mp hstack
      refine Stack.bounded_cons.mpr ⟨Operand.bounded_map fun z hz => ?_, hrest⟩
      subst hz
      exact hk _ z hx h
  | null1 =>
      obtain ⟨-, hrest⟩ := Stack.bounded_cons.mp hstack
      exact Stack.bounded_cons.mpr ⟨trivial, hrest⟩
  | strict2 h =>
      obtain ⟨hy, hstack⟩ := Stack.bounded_cons.mp hstack
      obtain ⟨hx, hrest⟩ := Stack.bounded_cons.mp hstack
      refine Stack.bounded_cons.mpr ⟨Operand.bounded_map fun z hz => ?_, hrest⟩
      subst hz
      exact hk _ _ z hx hy h
  | null2 =>
      obtain ⟨-, hstack⟩ := Stack.bounded_cons.mp hstack
      obtain ⟨-, hrest⟩ := Stack.bounded_cons.mp hstack
      exact Stack.bounded_cons.mpr ⟨trivial, hrest⟩
  | strict3 h =>
      obtain ⟨hz, hstack⟩ := Stack.bounded_cons.mp hstack
      obtain ⟨hy, hstack⟩ := Stack.bounded_cons.mp hstack
      obtain ⟨hx, hrest⟩ := Stack.bounded_cons.mp hstack
      refine Stack.bounded_cons.mpr ⟨Operand.bounded_map fun v hv => ?_, hrest⟩
      subst hv
      exact hk _ _ _ v hx hy hz h
  | null3 =>
      obtain ⟨-, hstack⟩ := Stack.bounded_cons.mp hstack
      obtain ⟨-, hstack⟩ := Stack.bounded_cons.mp hstack
      obtain ⟨-, hrest⟩ := Stack.bounded_cons.mp hstack
      exact Stack.bounded_cons.mpr ⟨trivial, hrest⟩
  | lenient1 x =>
      obtain ⟨hx, hrest⟩ := Stack.bounded_cons.mp hstack
      refine Stack.bounded_cons.mpr ⟨Operand.bounded_map fun z hz => ?_, hrest⟩
      exact hk x z hx hz
  | lenient2 x y =>
      obtain ⟨hy, hstack⟩ := Stack.bounded_cons.mp hstack
      obtain ⟨hx, hrest⟩ := Stack.bounded_cons.mp hstack
      refine Stack.bounded_cons.mpr ⟨Operand.bounded_map fun z hz => ?_, hrest⟩
      exact hk x y z hx hy hz

theorem SignFn.isBounded_apply {f : SignFn} {d d' : Decimal} (hd : d.isBounded = true)
    (h : f.apply .decimal d = .ok d') : d'.isBounded = true := by
  cases f with
  | pos =>
      cases h
      exact hd
  | neg =>
      cases h
      exact Decimal.isBounded_neg hd
  | abs =>
      cases h
      exact Decimal.isBounded_abs hd
  | absCheck =>
      cases h
      exact Decimal.isBounded_abs hd

theorem Extreme.isBounded_pick (e : Extreme) {a b : Decimal} (ha : a.isBounded = true)
    (hb : b.isBounded = true) : Decimal.isBounded (e.pick .decimal a b) = true := by
  have hpick : e.pick .decimal a b = b ∨ e.pick .decimal a b = a := by
    unfold pick
    exact ite_eq_or_eq _ b a
  rcases hpick with h | h
  · rw [h]
    exact hb
  · rw [h]
    exact ha

namespace Cast

theorem isBounded_of_toDecimal {f : Format} {x : Binary f} {d : Decimal}
    (h : toDecimal x = .ok d) : d.isBounded = true := by
  rw [toDecimal, mapError_eq_ok, Decimal.ofBinary] at h
  split at h
  · exact Decimal.isBounded_of_parse h
  · cases h

/-- Only integers of at most 64 bits are cast, which have few digits. -/
theorem isBounded_of_ofInteger {checked : Bool} {n : Int} {d : Decimal} (hn : n.natAbs ≤ 2 ^ 63)
    (h : ofInteger checked n .decimal = .ok d) : d.isBounded = true := by
  cases h
  refine Decimal.isBounded_ofInt ?_
  have hfew : 2 ^ 63 < 10 ^ 19 := by decide
  have hmany : 10 ^ 19 ≤ 10 ^ (Decimal.maxExponent + 1) :=
    Nat.pow_le_pow_right (by decide) (by rw [Decimal.maxExponent]; decide)
  exact Nat.lt_of_le_of_lt hn (Nat.lt_of_lt_of_le hfew hmany)

theorem isBounded_of_convert {checked : Bool} {src : ValueTy} {x : src.Carrier} {d : Decimal}
    (hx : (src.ty.wrap x).Bounded) (h : convert checked src .decimal x = .ok d) :
    d.isBounded = true := by
  cases src with
  | int32 =>
      have hlt := Int32.toInt_lt x
      have hle := Int32.le_toInt x
      exact @isBounded_of_ofInteger checked _ d (by omega) h
  | int64 =>
      have hlt := Int64.toInt_lt x
      have hle := Int64.le_toInt x
      exact @isBounded_of_ofInteger checked _ d (by omega) h
  | bool =>
      have hone : (if x then 1 else 0 : Int).natAbs ≤ 2 ^ 63 := by
        split <;> decide
      exact @isBounded_of_ofInteger true _ d hone h
  | float32 => exact isBounded_of_toDecimal h
  | float64 => exact isBounded_of_toDecimal h
  | decimal =>
      cases h
      exact hx
  | string => exact isBounded_of_readDecimal h

end Cast

/-- Every operator but the arithmetic of decimals keeps the bound. Where the
result is no decimal there is nothing to keep. -/
theorem Operator.keeps {o : Operator} (h : ∀ op, o ≠ .arith op .decimal) : o.kernel.Keeps := by
  cases o with
  | sign f t =>
      intro x z hx hz
      cases t with
      | decimal =>
          exact SignFn.isBounded_apply hx (map_some_eq_ok.mp hz)
      | _ => trivial
  | arith op t =>
      intro x y z hx hy hz
      cases t with
      | decimal => exact absurd rfl (h op)
      | _ => trivial
  | extreme e t =>
      intro x y z hx hy hz
      cases t with
      | decimal =>
          cases hz
          exact e.isBounded_pick hx hy
      | _ => trivial
  | cast checked src dst defined =>
      intro x z hx hz
      cases dst with
      | decimal => exact Cast.isBounded_of_convert hx (map_some_eq_ok.mp hz)
      | _ => trivial
  | rem t =>
      intro x y z hx hy hz
      cases t <;> trivial
  | join => exact fun _ _ _ _ _ _ => trivial
  | relation => exact fun _ _ _ _ _ _ => trivial
  | test => exact fun _ _ _ _ => trivial
  | not => exact fun _ _ _ _ => trivial
  | connective => exact fun _ _ _ _ _ _ => trivial
  | math => exact fun _ _ _ _ => trivial
  | text => exact fun _ _ _ _ => trivial
  | cut => exact fun _ _ _ _ _ _ => trivial
  | range => exact fun _ _ _ _ _ _ _ _ => trivial

/-! ## Steps that leave the bound -/

/-- When the result of two bounded arguments is out of bounds. No product is,
since one that would be is refused. Nor is a quotient if the dividend is zero or
the divisor is recognised as one; any other is what the quotient of the unscaled
integers comes to, and is out of bounds if it has too many places or too many
trailing zeros. -/
def ArithOp.Escapes : ArithOp → Decimal → Decimal → Prop
  | add, x, y => Decimal.Exceeds (x.value + y.value)
  | sub, x, y => Decimal.Exceeds (x.value - y.value)
  | mul, _, _ => False
  | div, x, y => x.value ≠ 0 ∧ y.value ≠ 0 ∧ y.isOne = false ∧
      ∃ z, Decimal.IsQuotient x y z ∧
        (¬Decimal.IsMultiple z.value (-Decimal.maxExponent) ∨ Decimal.Exceeds z.value)

/-- Dividing zero, or by one, leaves the dividend as it is. -/
theorem ArithOp.escapes_div_iff {x y : Decimal} (hx : x.isBounded = true) (hy : y.value ≠ 0) :
    div.Escapes x y ↔ (x.quotient y).isBounded = false := by
  have hy' : y.unscaled ≠ 0 := mt Decimal.value_eq_zero_iff.mpr hy
  by_cases hplain : x.value = 0 ∨ y.isOne = true
  · have hquotient : x.quotient y = x := by
      rw [Decimal.quotient, if_pos]
      rcases hplain with hzero | hone
      · simp [Decimal.isZero, Decimal.value_eq_zero_iff.mp hzero]
      · simp [hone]
    rw [hquotient, hx, Escapes]
    refine iff_of_false ?_ Bool.noConfusion
    rintro ⟨hx0, -, hone, -⟩
    rcases hplain with hzero | hone'
    · exact hx0 hzero
    · rw [hone'] at hone
      cases hone
  · obtain ⟨hx0, hone⟩ := not_or.mp hplain
    have hone' : y.isOne = false := Bool.eq_false_iff.mpr hone
    have hx' : x.unscaled ≠ 0 := mt Decimal.value_eq_zero_iff.mpr hx0
    have hquotient : ∀ z, Decimal.IsQuotient x y z ↔ z = x.quotient y :=
      fun _ => Decimal.isQuotient_iff hx' hy' hone'
    rw [Escapes, Decimal.isBounded_eq_false_iff]
    constructor
    · rintro ⟨-, -, -, z, hz, hends⟩
      rw [← (hquotient z).mp hz]
      exact hends
    · intro hends
      exact ⟨hx0, hy, hone', x.quotient y, (hquotient _).mpr rfl, hends⟩

theorem ArithOp.escapes_iff {op : ArithOp} {x y : Decimal} (hx : x.isBounded = true)
    (hy : y.isBounded = true) :
    op.Escapes x y ↔ ∃ z, op.apply .decimal x y = .ok (some z) ∧ z.isBounded = false := by
  have hxm := Decimal.isMultiple_of_isBounded hx
  have hym := Decimal.isMultiple_of_isBounded hy
  cases op with
  | add =>
      have hz : Decimal.IsMultiple (x.add y).value (-Decimal.maxExponent) := by
        rw [Decimal.value_add]
        exact hxm.add hym
      have happly : apply .decimal add x y = .ok (some (x.add y)) := rfl
      rw [Escapes, ← Decimal.value_add, Decimal.exceeds_iff hz, happly]
      simp
  | sub =>
      have hz : Decimal.IsMultiple (x.sub y).value (-Decimal.maxExponent) := by
        rw [Decimal.value_sub]
        exact hxm.sub hym
      have happly : apply .decimal sub x y = .ok (some (x.sub y)) := rfl
      rw [Escapes, ← Decimal.value_sub, Decimal.exceeds_iff hz, happly]
      simp
  | mul =>
      refine iff_of_false not_false ?_
      rintro ⟨z, hz, hunbounded⟩
      have hmul : Arith.decimal.mul x y = .ok z := map_some_eq_ok.mp hz
      rw [Arith.decimal] at hmul
      dsimp only at hmul
      split at hmul
      · next hbounded =>
          cases hmul
          rw [hbounded] at hunbounded
          cases hunbounded
      · cases hmul
  | div =>
      have happly : apply .decimal div x y = .ok (x.div? y) := rfl
      rw [happly, Decimal.div?]
      by_cases hzero : y.isZero = true
      · rw [if_pos hzero, Escapes, Decimal.value_of_isZero hzero]
        simp
      · have hy0 : y.value ≠ 0 := by
          rw [ne_eq, Decimal.value_eq_zero_iff]
          simpa [Decimal.isZero] using hzero
        rw [if_neg hzero, escapes_div_iff hx hy0]
        simp

theorem kernel_arith_decimal (op : ArithOp) :
    (Operator.arith op .decimal).kernel =
      .strict2 .decimal .decimal .decimal (op.apply .decimal) :=
  rfl

theorem Kernel.Reduces.bounded_arith {op : ArithOp} {rest stack stack' : Stack}
    (h : (Operator.arith op .decimal).kernel.Reduces rest stack stack') (hstack : stack.Bounded)
    (hstays : ∀ x y, stack = some (.decimal y) :: some (.decimal x) :: rest → ¬op.Escapes x y) :
    stack'.Bounded := by
  rw [kernel_arith_decimal] at h
  cases h with
  | @strict2 _ _ _ _ x y z h =>
      obtain ⟨hy, hbelow⟩ := Stack.bounded_cons.mp hstack
      obtain ⟨hx, hrest⟩ := Stack.bounded_cons.mp hbelow
      refine Stack.bounded_cons.mpr ⟨Operand.bounded_map fun d hd => ?_, hrest⟩
      subst hd
      by_contra hd
      have hescapes : op.Escapes x y :=
        (ArithOp.escapes_iff hx hy).mpr ⟨d, h, Bool.eq_false_iff.mpr hd⟩
      exact hstays x y rfl hescapes
  | null2 =>
      obtain ⟨-, hbelow⟩ := Stack.bounded_cons.mp hstack
      obtain ⟨-, hrest⟩ := Stack.bounded_cons.mp hbelow
      exact Stack.bounded_cons.mpr ⟨trivial, hrest⟩

/-- The arithmetic on the two decimals on top leaves the bound. -/
def Instr.Escapes (stack : Stack) (i : Instr) : Prop :=
  ∃ op x y rest, i = .op (.arith op .decimal) ∧
    stack = some (.decimal y) :: some (.decimal x) :: rest ∧ op.Escapes x y

section

variable {row : Option Row}

theorem Instr.Reduces.bounded {i : Instr} {stack stack' : Stack} (h : i.Reduces row stack stack')
    (hconst : ∀ v, i = .const v → v.Bounded)
    (hrow : ∀ columns ∈ row, ∀ v ∈ columns, Operand.Bounded v) (hstack : stack.Bounded)
    (hstays : ¬i.Escapes stack) : stack'.Bounded := by
  cases h with
  | null t => exact Stack.bounded_cons.mpr ⟨trivial, hstack⟩
  | const v => exact Stack.bounded_cons.mpr ⟨hconst v rfl, hstack⟩
  | column hcolumns hv =>
      have hmem := List.mem_of_getElem? hv
      exact Stack.bounded_cons.mpr ⟨hrow _ hcolumns _ hmem, hstack⟩
  | @op o rest _ h =>
      by_cases harith : ∃ op, o = .arith op .decimal
      · obtain ⟨op, rfl⟩ := harith
        refine h.bounded_arith hstack ?_
        intro x y hargs hescapes
        exact hstays ⟨op, x, y, rest, rfl, hargs, hescapes⟩
      · have hkeeps : o.kernel.Keeps := Operator.keeps fun op heq => harith ⟨op, heq⟩
        exact h.bounded hkeeps hstack

/-- A step on a bounded stack leaves the bound exactly if it escapes. -/
theorem Instr.escapes_iff {i : Instr} {stack : Stack} (hconst : ∀ v, i = .const v → v.Bounded)
    (hrow : ∀ columns ∈ row, ∀ v ∈ columns, Operand.Bounded v) (hstack : stack.Bounded) :
    i.Escapes stack ↔ ∃ stack', i.step row stack = .ok stack' ∧ ¬stack'.Bounded := by
  constructor
  · rintro ⟨op, x, y, rest, rfl, rfl, hescapes⟩
    obtain ⟨hy, hbelow⟩ := Stack.bounded_cons.mp hstack
    obtain ⟨hx, hrest⟩ := Stack.bounded_cons.mp hbelow
    obtain ⟨z, hz, hunbounded⟩ := (ArithOp.escapes_iff hx hy).mp hescapes
    have hreduces : (Operator.arith op .decimal).kernel.Reduces rest
        (some (.decimal y) :: some (.decimal x) :: rest) (some (.decimal z) :: rest) := by
      rw [kernel_arith_decimal]
      exact @Kernel.Reduces.strict2 rest .decimal .decimal .decimal _ x y (some z) hz
    refine ⟨some (.decimal z) :: rest, Instr.step_eq_ok_iff.mpr (.op hreduces), ?_⟩
    intro h
    have hbounded : z.isBounded = true := (Stack.bounded_cons.mp h).1
    rw [hbounded] at hunbounded
    cases hunbounded
  · rintro ⟨stack', hstep, hunbounded⟩
    by_contra hstays
    have hreduces := Instr.step_eq_ok_iff.mp hstep
    exact hunbounded (hreduces.bounded hconst hrow hstack hstays)

namespace Program

theorem run_concat (front : Program) (i : Instr) :
    run (front ++ [i]) row = run front row >>= i.step row := by
  rw [run, runOn_append]
  cases hfront : runOn row front [] with
  | ok stack =>
      rw [run, hfront]
      cases hstep : i.step row stack with
      | ok stack' => simp [runOn, hstep, bind, Except.bind]
      | error halt => simp [runOn, hstep, bind, Except.bind]
  | error halt =>
      rw [run, hfront]
      rfl

/-- The constants of a program are bounded. -/
def Bounded (p : Program) : Prop :=
  ∀ v, Instr.const v ∈ p → v.Bounded

/-- Some step of the run on the row leaves the bound. -/
def Escapes (row : Option Row) (p : Program) : Prop :=
  ∃ front i stack, front ++ [i] <+: p ∧ run front row = .ok stack ∧ i.Escapes stack

theorem Bounded.of_concat {p front : Program} {i : Instr} (hp : p.Bounded)
    (h : front ++ [i] <+: p) : ∀ v, i = .const v → v.Bounded := by
  rintro v rfl
  exact hp v (h.subset (by simp))

/-- A run with bounded constants on a bounded row is bounded as far as it goes,
a program being a part of itself, exactly if no step of it escapes. -/
theorem runs_bounded_iff {p : Program} (hp : p.Bounded)
    (hrow : ∀ columns ∈ row, ∀ v ∈ columns, Operand.Bounded v) :
    (∀ front stack, front <+: p → run front row = .ok stack → stack.Bounded) ↔
      ¬p.Escapes row := by
  constructor
  · rintro hbounded ⟨front, i, stack, hprefix, hrun, hescapes⟩
    have hstack := hbounded front stack ((List.prefix_append front [i]).trans hprefix) hrun
    obtain ⟨stack', hstep, hunbounded⟩ :=
      (Instr.escapes_iff (hp.of_concat hprefix) hrow hstack).mp hescapes
    have hrun' : run (front ++ [i]) row = .ok stack' := by
      rw [run_concat, hrun]
      exact hstep
    exact hunbounded (hbounded (front ++ [i]) stack' hprefix hrun')
  · intro hstays front
    induction front using List.reverseRecOn with
    | nil =>
        intro stack hprefix hrun
        cases hrun
        intro v hv
        cases hv
    | append_singleton front i ih =>
        intro stack' hprefix hrun
        rw [run_concat] at hrun
        obtain ⟨stack, hfront, hstep⟩ := Code.bind_eq_ok.mp hrun
        have hstack := ih stack ((List.prefix_append front [i]).trans hprefix) hfront
        by_contra hunbounded
        have hescapes : i.Escapes stack :=
          (Instr.escapes_iff (hp.of_concat hprefix) hrow hstack).mpr
            ⟨stack', hstep, hunbounded⟩
        exact hstays ⟨front, i, stack, hprefix, hfront, hescapes⟩

/-! A carry at the upper end: the program adds `1E4096` to a column. -/

def carry : Program :=
  [.column 0 .decimal, .const (.decimal ⟨1, -4096⟩), .op (.arith .add .decimal)]

/-- The row with `9E4096`. -/
def carryRow : Row :=
  [some (.decimal ⟨9, -4096⟩)]

theorem bounded_carry : carry.Bounded := by
  intro v hv
  have hv' : v = .decimal ⟨1, -4096⟩ := by simpa [carry] using hv
  rw [hv', Scalar.Bounded, Decimal.isBounded, Decimal.exponent, Decimal.normal, Decimal.strip]
  decide

theorem bounded_carryRow : ∀ columns ∈ some carryRow, ∀ v ∈ columns, Operand.Bounded v := by
  rintro columns ⟨⟩ v hv
  have hv' : v = some (.decimal ⟨9, -4096⟩) := by simpa [carryRow] using hv
  rw [hv', Operand.Bounded, Scalar.Bounded, Decimal.isBounded, Decimal.exponent, Decimal.normal,
    Decimal.strip]
  decide

theorem runs_bounded_iff_carry :
    carry.Bounded ∧ (∀ columns ∈ some carryRow, ∀ v ∈ columns, Operand.Bounded v) ∧
      ((∀ front stack, front <+: carry → run front (some carryRow) = .ok stack →
          stack.Bounded) ↔ ¬carry.Escapes (some carryRow)) :=
  ⟨bounded_carry, bounded_carryRow, runs_bounded_iff bounded_carry bounded_carryRow⟩

/-- The sum is `10E4096`, which is `1E4097`. -/
theorem carry_unbounded :
    carry.Bounded ∧ (∀ columns ∈ some carryRow, ∀ v ∈ columns, Operand.Bounded v) ∧
      run carry (some carryRow) = .ok [some (.decimal ⟨10, -4096⟩)] ∧
      ¬Stack.Bounded [some (.decimal ⟨10, -4096⟩)] := by
  refine ⟨bounded_carry, bounded_carryRow, by rfl, ?_⟩
  intro h
  have hsum : Decimal.isBounded ⟨10, -4096⟩ = true := (Stack.bounded_cons.mp h).1
  simp [Decimal.isBounded, Decimal.exponent, Decimal.normal, Decimal.strip,
    Decimal.maxExponent] at hsum

end Program

end

end RowCode
