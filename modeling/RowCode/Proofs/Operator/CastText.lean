import RowCode.Proofs.Bounded
import RowCode.Proofs.Decimal.Text
import RowCode.Proofs.Operator.Cast

/-!
# Integers as decimals and as texts

An integer can be held as itself, as a decimal and as a text (`Face`). Casts take
each face of an integer to any other, in either kind of cast: nothing overflows
and nothing is lost (`IntTy.step_cast`), so it does not matter over which faces a
sequence of casts goes (`IntTy.runOn_route`).

Texts are more than the faces of integers. There may be blanks around the digits,
zeros in front of them, and a plus sign. Whatever is read as an integer of the
type is read as the same number by the cast to decimals.
-/

namespace RowCode

/-! ## Values on the stack -/

theorem Ty.wrap_injective {t : Ty} {v w : t.Carrier} (h : t.wrap v = t.wrap w) : v = w := by
  have hcarried := Scalar.carried?_wrap t v
  rw [h, Scalar.carried?_wrap, Option.some.injEq] at hcarried
  exact hcarried.symm

theorem push_some_eq_ok_iff {t : Ty} {rest : Stack} {x : Except Fault t.Carrier} {v : t.Carrier} :
    push t rest (some <$> x) = .ok (some (t.wrap v) :: rest) ↔ x = .ok v := by
  rw [push_eq_ok_iff]
  constructor
  · rintro ⟨z, hz, hwrap⟩
    cases z with
    | none => cases (List.cons.inj hwrap).1
    | some w =>
        rw [Ty.wrap_injective (Option.some.inj (List.cons.inj hwrap).1)]
        exact map_some_eq_ok.mp hz
  · rintro rfl
    exact ⟨some v, rfl, rfl⟩

/-! ## Integers among decimals -/

namespace Decimal

theorem roundToInt_ofInt (n : Int) : (ofInt n).roundToInt = n := by
  have hnear := isNearest_roundToInt (ofInt n)
  rw [value_ofInt] at hnear
  exact hnear.unique (isNearest_intCast n)

/-- What is read from the text of an integer is the integer. -/
theorem plain_ofInt (n : Int) : (ofInt n).plain = ofInt n := by
  have hscale : (ofInt n).plain.scale = 0 := by
    have hle := scale_normal_le (ofInt n)
    rw [scale_plain]
    simp only [ofInt] at *
    omega
  refine eq_of_unscaled_eq ?_ hscale
  have hvalue := value_plain (ofInt n)
  rw [value_ofInt, value, hscale, neg_zero, zpow_zero, mul_one] at hvalue
  exact_mod_cast hvalue

/-- The trailing zeros that the normal form takes out are written again. -/
theorem text_ofInt (n : Int) : (ofInt n).text = Text.ofInt n := by
  have hsign : (ofInt n).normal.negative = decide (n < 0) := by
    rw [Bool.eq_iff_iff, negative_iff, value_normal, value_ofInt, decide_eq_true_iff,
      Int.cast_lt_zero]
  have hexp : 0 ≤ -(ofInt n).normal.scale := by
    have hle := scale_normal_le (ofInt n)
    simp only [ofInt] at *
    omega
  have hunscaled := congrArg (Int.natAbs ∘ unscaled) (plain_ofInt n)
  rw [Function.comp_apply, unscaled_plain, Int.natAbs_mul, Int.natAbs_pow] at hunscaled
  rw [text, hsign, Text.positional_of_nonneg _ hexp, Text.ofInt]
  exact congrArg (fun m => Text.signed (decide (n < 0)) (Text.digits m)) hunscaled

/-- A text that is read as an integer is read as a decimal, too. -/
theorem readDecimal_of_readInt? {s : String} {n : Int}
    (h : Text.readInt? (Text.stripped s) = some n) (hn : n.natAbs ≤ 2 ^ 63) :
    readDecimal s = .ok (ofInt n) := by
  have hbound : (ofInt n).isBounded = true :=
    @Cast.isBounded_of_ofInteger true n _ hn rfl
  rw [readDecimal, parse_eq_ok_iff.mpr ⟨readPair?_of_readInt? h, hbound⟩]
  rfl

end Decimal

/-! ## Faces of an integer -/

/-- What an integer can be held as. -/
inductive Face where
  | int
  | decimal
  | text
deriving DecidableEq

namespace Face

def valueTy (t : IntTy) : Face → ValueTy
  | int => t.valueTy
  | decimal => .decimal
  | text => .string

/-- A member of an integer type, held as a scalar. -/
def of (t : IntTy) (c : t.Carrier) : Face → Scalar
  | int => t.ty.wrap c
  | decimal => .decimal (.ofInt (t.toInt c))
  | text => .string (String.ofList (Text.ofInt (t.toInt c)))

theorem cast_defined (t : IntTy) {a b : Face} (h : a ≠ b) :
    Cast.Defined (a.valueTy t) (b.valueTy t) := by
  cases t <;> cases a <;> cases b <;> first | exact absurd rfl h | decide

/-- Casts one after the other, each in a kind of its own. -/
inductive Route : Face → Face → Type where
  | stop {a : Face} : Route a a
  | cast {a b z : Face} (checked : Bool) (h : a ≠ b) (route : Route b z) : Route a z

end Face

namespace IntTy

section

variable (t : IntTy)

/-- The cast from one face to another. -/
def cast (checked : Bool) (a b : Face) (h : a ≠ b := by decide) : Instr :=
  .op (.cast checked (a.valueTy t) (b.valueTy t) (Face.cast_defined t h))

/-- The casts of a route. -/
def route {a b : Face} : Face.Route a b → Program
  | .stop => []
  | .cast checked h r => t.cast checked _ _ h :: route r

end

variable {t : IntTy}

theorem natAbs_toInt_le (c : t.Carrier) : (t.toInt c).natAbs ≤ 2 ^ 63 := by
  have hrange := Window.contains_iff.mp (contains_toInt c)
  cases t with
  | int32 =>
      simp only [window, Window.int32] at hrange
      omega
  | int64 =>
      simp only [window, Window.int64] at hrange
      omega

/-- Members of the type are not changed, whatever the kind of the cast. -/
theorem intoWindow_toInt (checked : Bool) (c : t.Carrier) :
    Cast.intoWindow t.window checked (t.toInt c) = .ok c := by
  have hexact : t.window.exact (t.toInt c) = .ok c := by
    rw [Window.exact, if_pos (contains_toInt c), ofInt_toInt]
  cases checked with
  | true => exact hexact
  | false => exact (Window.exact_of_contains (contains_toInt c)).symm.trans hexact

theorem readInto_eq_ok_iff {s : String} {c : t.Carrier} :
    Cast.readInto t.window s = .ok c ↔ Text.readInt? (Text.stripped s) = some (t.toInt c) := by
  unfold Cast.readInto
  cases hread : Text.readInt? (Text.stripped s) with
  | none => simp
  | some n =>
      rw [Option.bind_some, Window.member?, Option.some.injEq]
      by_cases hin : t.window.contains n = true
      · rw [if_pos hin, Except.ok.injEq]
        constructor
        · rintro rfl
          exact (toInt_ofInt hin).symm
        · rintro rfl
          exact ofInt_toInt c
      · rw [if_neg hin]
        refine iff_of_false (fun h => nomatch h) ?_
        rintro rfl
        exact hin (contains_toInt c)

/-! ## Steps -/

section

variable (checked : Bool) (row : Option Row) (rest : Stack)

theorem step_int_decimal (c : t.Carrier) :
    (t.cast checked .int .decimal).step row (some (t.ty.wrap c) :: rest) =
      .ok (some (.decimal (.ofInt (t.toInt c))) :: rest) := by
  cases t with
  | int32 => exact Kernel.apply_strict1 (a := .int32) _ c rest
  | int64 => exact Kernel.apply_strict1 (a := .int64) _ c rest

theorem step_int_text (c : t.Carrier) :
    (t.cast checked .int .text).step row (some (t.ty.wrap c) :: rest) =
      .ok (some (.string (String.ofList (Text.ofInt (t.toInt c)))) :: rest) := by
  cases t with
  | int32 => exact Kernel.apply_strict1 (a := .int32) _ c rest
  | int64 => exact Kernel.apply_strict1 (a := .int64) _ c rest

theorem step_decimal_int (d : Decimal) :
    (t.cast checked .decimal .int).step row (some (.decimal d) :: rest) =
      push t.ty rest (some <$> Cast.intoWindow t.window checked d.roundToInt) := by
  cases t <;> exact Kernel.apply_strict1 (a := .decimal) _ d rest

theorem step_decimal_text (d : Decimal) :
    (t.cast checked .decimal .text).step row (some (.decimal d) :: rest) =
      .ok (some (.string (String.ofList d.text)) :: rest) :=
  Kernel.apply_strict1 (a := .decimal) _ d rest

theorem step_text_int (s : String) :
    (t.cast checked .text .int).step row (some (.string s) :: rest) =
      push t.ty rest (some <$> Cast.readInto t.window s) := by
  cases t <;> exact Kernel.apply_strict1 (a := .string) _ s rest

theorem step_text_decimal (s : String) :
    (t.cast checked .text .decimal).step row (some (.string s) :: rest) =
      push .decimal rest (some <$> readDecimal s) :=
  Kernel.apply_strict1 (a := .string) _ s rest

variable {row rest}

/-- The cast of a text to an integer, said of the characters. -/
theorem step_text_int_eq_ok_iff {s : String} {c : t.Carrier} :
    (t.cast checked .text .int).step row (some (.string s) :: rest) =
        .ok (some (t.ty.wrap c) :: rest) ↔
      Text.readInt? (Text.stripped s) = some (t.toInt c) := by
  rw [step_text_int, push_some_eq_ok_iff, readInto_eq_ok_iff]

/-- Whatever is read as an integer is read as a decimal of no more. -/
theorem step_text_decimal_of_readInt? {s : String} {c : t.Carrier}
    (h : Text.readInt? (Text.stripped s) = some (t.toInt c)) :
    (t.cast checked .text .decimal).step row (some (.string s) :: rest) =
      .ok (some (.decimal (.ofInt (t.toInt c))) :: rest) := by
  rw [step_text_decimal, Decimal.readDecimal_of_readInt? h (natAbs_toInt_le c)]
  rfl

theorem readInt?_text (c : t.Carrier) :
    Text.readInt? (Text.stripped (String.ofList (Text.ofInt (t.toInt c)))) = some (t.toInt c) := by
  have hread := Text.readInt?_ofInt (t.toInt c)
  rw [Text.stripped_ofList, hread]
  exact fun x hx => Text.isSpace_of_isFigure (Text.isFigure_of_readInt? hread x hx)

/-- From any face to any other. -/
theorem step_cast {a b : Face} (h : a ≠ b) (c : t.Carrier) :
    (t.cast checked a b h).step row (some (a.of t c) :: rest) = .ok (some (b.of t c) :: rest) := by
  cases a with
  | int =>
      cases b with
      | int => exact absurd rfl h
      | decimal => exact step_int_decimal checked row rest c
      | text => exact step_int_text checked row rest c
  | decimal =>
      cases b with
      | int =>
          refine (step_decimal_int checked row rest _).trans ?_
          rw [Decimal.roundToInt_ofInt, intoWindow_toInt]
          rfl
      | decimal => exact absurd rfl h
      | text =>
          refine (step_decimal_text checked row rest _).trans ?_
          rw [Decimal.text_ofInt]
          rfl
  | text =>
      cases b with
      | int => exact (step_text_int_eq_ok_iff checked).mpr (readInt?_text c)
      | decimal => exact step_text_decimal_of_readInt? checked (readInt?_text c)
      | text => exact absurd rfl h

end

/-- Where a route ends is all that matters. -/
theorem runOn_route {row : Option Row} {rest : Stack} (c : t.Carrier) {a b : Face}
    (r : Face.Route a b) :
    Program.runOn row (t.route r) (some (a.of t c) :: rest) = .ok (some (b.of t c) :: rest) := by
  induction r with
  | stop => rfl
  | cast checked h r ih =>
      rw [route, Program.runOn, step_cast checked h c]
      exact ih

/-- Integers, decimals and strings cast to one another. Over a string or a decimal
an integer comes back as it was; over the one it becomes the same of the other as
it does at once. A string that becomes an integer becomes a decimal, and over that
the same integer. -/
theorem casts_commute (t : IntTy) (row : Option Row) (rest : Stack) (k k' k'' : Bool) :
    (∀ c : t.Carrier,
      let run (p : Program) := Program.runOn row p (some (t.ty.wrap c) :: rest)
      run [t.cast k .int .text, t.cast k' .text .int] = .ok (some (t.ty.wrap c) :: rest) ∧
      run [t.cast k .int .decimal, t.cast k' .decimal .int] = .ok (some (t.ty.wrap c) :: rest) ∧
      (∃ s, run [t.cast k .int .text] = .ok (some (.string s) :: rest) ∧
        run [t.cast k' .int .decimal, t.cast k'' .decimal .text] =
          .ok (some (.string s) :: rest)) ∧
      ∃ d, run [t.cast k .int .decimal] = .ok (some (.decimal d) :: rest) ∧
        run [t.cast k' .int .text, t.cast k'' .text .decimal] = .ok (some (.decimal d) :: rest)) ∧
    ∀ (s : String) (c : t.Carrier),
      Program.runOn row [t.cast k .text .int] (some (.string s) :: rest) =
          .ok (some (t.ty.wrap c) :: rest) →
        ∃ d, Program.runOn row [t.cast k' .text .decimal] (some (.string s) :: rest) =
            .ok (some (.decimal d) :: rest) ∧
          Program.runOn row [t.cast k'' .decimal .int] (some (.decimal d) :: rest) =
            .ok (some (t.ty.wrap c) :: rest) := by
  refine ⟨fun c => ?_, fun s c h => ?_⟩
  · have hone : ∀ (k : Bool) (b : Face) (h : .int ≠ b), Program.runOn row [t.cast k .int b h]
        (some (t.ty.wrap c) :: rest) = .ok (some (b.of t c) :: rest) :=
      fun k b h => runOn_route c (.cast k h .stop)
    have htwo : ∀ (k k' : Bool) (b z : Face) (h : .int ≠ b) (h' : b ≠ z),
        Program.runOn row [t.cast k .int b h, t.cast k' b z h'] (some (t.ty.wrap c) :: rest) =
          .ok (some (z.of t c) :: rest) :=
      fun k k' b z h h' => runOn_route c (.cast k h (.cast k' h' .stop))
    exact ⟨htwo k k' .text .int _ _, htwo k k' .decimal .int _ _,
      ⟨_, hone k .text _, htwo k' k'' .decimal .text _ _⟩,
      ⟨_, hone k .decimal _, htwo k' k'' .text .decimal _ _⟩⟩
  · rw [Program.runOn_singleton, step_text_int_eq_ok_iff] at h
    refine ⟨.ofInt (t.toInt c), ?_, ?_⟩
    · rw [Program.runOn_singleton, step_text_decimal_of_readInt? k' h]
    · rw [Program.runOn_singleton]
      exact step_cast k'' (by decide : Face.decimal ≠ .int) c

/-- Blanks and zeros around the digits. -/
theorem casts_commute_padded :
    let run (i : Instr) (v : Operand) := Program.runOn none [i] [v]
    let padded : Operand := some (.string "\u3000-00120\n")
    run (int32.cast true .text .int) padded = .ok [some (.int32 (-120))] ∧
      ∃ d, run (int32.cast true .text .decimal) padded = .ok [some (.decimal d)] ∧
        run (int32.cast true .decimal .int) (some (.decimal d)) = .ok [some (.int32 (-120))] := by
  have hread : Program.runOn none [int32.cast true .text .int]
      [some (.string "\u3000-00120\n")] = .ok [some (.int32 (-120))] := by
    rw [Program.runOn_singleton]
    exact (step_text_int_eq_ok_iff (t := int32) true).mpr (by decide)
  exact ⟨hread, (casts_commute int32 none [] true true true).2 _ (-120) hread⟩

end IntTy

end RowCode
