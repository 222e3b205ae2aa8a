import RowCode.Proofs.Code.Varint
import RowCode.Proofs.Operator.Integer

/-!
# Negated constants

An integer constant goes through three kinds of arithmetic. Its number has 64
bits and no sign, the constant is the member of the type that is congruent to
it, and a constant of class two is negated with wrapping. The operator that
negates in a run does not wrap. So the two ways to negate a constant agree on
every number, however large, until the constant is the least of its type: that
one wraps to itself in the code and overflows in a run.
-/

namespace RowCode

namespace IntTy

variable {t : IntTy}

/-- The least integer is the only one whose negation is not in the type. -/
theorem contains_neg {c : t.Carrier} (h : t.toInt c ≠ t.window.least) :
    t.window.contains (-t.toInt c) = true := by
  have hc := contains_toInt c
  have hleast := least_eq t
  rw [Window.contains_iff] at hc ⊢
  omega

theorem not_contains_neg {c : t.Carrier} (h : t.toInt c = t.window.least) :
    t.window.contains (-t.toInt c) = false := by
  rw [h]
  cases t <;> rfl

/-- The member of the type that the number of a constant stands for. -/
def constant (t : IntTy) (n : Code.Varint) : t.Carrier :=
  t.window.ofInt n.value.toNat

/-- The wrapping negation. -/
def wrappingNeg (t : IntTy) (c : t.Carrier) : t.Carrier :=
  t.window.ofInt (-t.toInt c)

theorem toInt_wrappingNeg {c : t.Carrier} (h : t.toInt c ≠ t.window.least) :
    t.toInt (t.wrappingNeg c) = -t.toInt c :=
  toInt_ofInt (contains_neg h)

theorem wrappingNeg_of_least {c : t.Carrier} (h : t.toInt c = t.window.least) :
    t.wrappingNeg c = c :=
  calc t.wrappingNeg c
    _ = t.window.ofInt (-t.window.least) := by rw [wrappingNeg, h]
    _ = t.window.ofInt t.window.least := by cases t <;> rfl
    _ = c := by rw [← h, ofInt_toInt]

theorem wrappingNeg_wrappingNeg (c : t.Carrier) : t.wrappingNeg (t.wrappingNeg c) = c := by
  by_cases hleast : t.toInt c = t.window.least
  · rw [wrappingNeg_of_least hleast, wrappingNeg_of_least hleast]
  · rw [wrappingNeg, toInt_wrappingNeg hleast, Int.neg_neg, ofInt_toInt]

/-- The operator is the wrapping negation, except on the least integer. -/
theorem step_neg (c : t.Carrier) (row : Option Row) (rest : Stack) :
    (Instr.op (.sign .neg t.num)).step row (some (t.ty.wrap c) :: rest) =
      if t.toInt c = t.window.least then .error ⟨.overflow t.ty, rest⟩
      else .ok (some (t.ty.wrap (t.wrappingNeg c)) :: rest) := by
  have hneg : SignFn.neg.apply (.ofWindow t.window) c = t.window.exact (-t.toInt c) := rfl
  rw [step_sign, hneg, Window.exact, ty_window]
  by_cases hleast : t.toInt c = t.window.least
  · rw [if_pos hleast, if_neg (Bool.eq_false_iff.mp (not_contains_neg hleast))]
    rfl
  · rw [if_neg hleast, if_pos (contains_neg hleast)]
    rfl

end IntTy

namespace Code

/-- An integer constant as it is written. -/
def Literal.integer : (t : IntTy) → (negated : Bool) → Varint → Literal
  | .int32 => .int32
  | .int64 => .int64

theorem Literal.value_integer (t : IntTy) (negated : Bool) (n : Varint) :
    (integer t negated n).value =
      t.ty.wrap (if negated then t.wrappingNeg (t.constant n) else t.constant n) := by
  cases t with
  | int32 =>
      have hneg : -Int32.ofInt n.value.toNat =
          Int32.ofInt (-(Int32.ofInt n.value.toNat).toInt) := by
        rw [Int32.ofInt_neg, Int32.ofInt_toInt]
      cases negated with
      | false => rfl
      | true => exact congrArg Scalar.int32 hneg
  | int64 =>
      have hneg : -Int64.ofInt n.value.toNat =
          Int64.ofInt (-(Int64.ofInt n.value.toNat).toInt) := by
        rw [Int64.ofInt_neg, Int64.ofInt_toInt]
      cases negated with
      | false => rfl
      | true => exact congrArg Scalar.int64 hneg

theorem Literal.bytes_integer (t : IntTy) (negated : Bool) (n : Varint) :
    (Word.const (integer t negated n)).bytes =
      t.ty.tagged (if negated then 2 else 1) :: n.bytes := by
  cases t <;> rfl

theorem bytes_neg (t : IntTy) :
    (Word.op (.sign .neg t.num)).bytes = [0x82, t.ty.tagged 0] := by
  cases t <;> rfl

/-! ## Running code -/

/-- Reads a program and runs it on top of a stack. -/
def runCode (row : Option Row) (code : Bytes) (stack : Stack) : Except Halt Stack :=
  match readProgram code with
  | .ok (p, _) => p.runOn row stack
  | .error e => .error ⟨e, stack⟩

section

variable (row : Option Row) (stack : Stack)

theorem runCode_words (words : List Word) :
    runCode row (words.flatMap Word.bytes) stack =
      Program.runOn row (words.filterMap Word.instr?) stack := by
  have hread := readProgram_append [] words
  rw [List.append_nil, readProgram] at hread
  rw [runCode, hread]
  exact congrArg (fun p => Program.runOn row p stack) (List.append_nil _)

theorem runCode_integer (t : IntTy) (negated : Bool) (n : Varint) :
    runCode row (t.ty.tagged (if negated then 2 else 1) :: n.bytes) stack =
      .ok (some (t.ty.wrap
        (if negated then t.wrappingNeg (t.constant n) else t.constant n)) :: stack) := by
  have hrun := runCode_words row stack [.const (.integer t negated n)]
  rw [List.flatMap_singleton, Literal.bytes_integer] at hrun
  rw [hrun, ← Literal.value_integer]
  exact Program.runOn_singleton row _ stack

theorem runCode_integer_neg (t : IntTy) (n : Varint) :
    runCode row ((t.ty.tagged 1 :: n.bytes) ++ [0x82, t.ty.tagged 0]) stack =
      (Instr.op (.sign .neg t.num)).step row (some (t.ty.wrap (t.constant n)) :: stack) := by
  have hrun := runCode_words row stack [.const (.integer t false n), .op (.sign .neg t.num)]
  rw [List.flatMap_cons, List.flatMap_singleton, Literal.bytes_integer, bytes_neg,
    if_neg Bool.false_ne_true] at hrun
  rw [hrun]
  have hvalue := Literal.value_integer t false n
  rw [if_neg Bool.false_ne_true] at hvalue
  rw [← hvalue]
  exact Program.runOn_singleton row _ _

end

theorem runCode_encode (row : Option Row) (stack : Stack) (t : IntTy) (c : t.Carrier) :
    runCode row (t.ty.tagged (if t.toInt c < 0 then 2 else 1) ::
        Varint.encode 1 (t.toInt c).natAbs) stack = .ok (some (t.ty.wrap c) :: stack) := by
  have hsmall : (t.toInt c).natAbs < 2 ^ 64 := by
    have hc := IntTy.contains_toInt c
    rw [Window.contains_iff] at hc
    have hwide : -2 ^ 63 ≤ t.window.least ∧ t.window.greatest < 2 ^ 63 := by cases t <;> decide
    omega
  obtain ⟨v, hbytes, hvalue⟩ := Varint.exists_encode hsmall
  have hrun := runCode_integer row stack t (t.toInt c < 0) v
  rw [hbytes, IntTy.constant, hvalue] at hrun
  simp only [decide_eq_true_eq] at hrun
  rw [hrun]
  by_cases hneg : t.toInt c < 0
  · have habs : ((t.toInt c).natAbs : Int) = -t.toInt c := by omega
    rw [if_pos hneg, habs, ← IntTy.wrappingNeg, IntTy.wrappingNeg_wrappingNeg]
  · have habs : ((t.toInt c).natAbs : Int) = t.toInt c := by omega
    rw [if_neg hneg, habs, IntTy.ofInt_toInt]

/-- The two ways to negate a constant, on any stack. A constant of class two is
what the operator makes of the one of class one, for every number that can
stand behind it, unless the constant is the least of its type: then the code
has the least once more, and the operator overflows. For truth values the two
ways are the same. Every integer of a type, the least included, is the constant
that its magnitude in the shortest form makes, of class two if it is negative
and of class one if it is not. -/
theorem runCode_negated (row : Option Row) (stack : Stack) :
    (∀ (t : IntTy) (n : Varint),
      let plain := t.ty.tagged 1 :: n.bytes
      let negated := t.ty.tagged 2 :: n.bytes
      let neg := [0x82, t.ty.tagged 0]
      let c := t.constant n
      runCode row plain stack = .ok (some (t.ty.wrap c) :: stack) ∧
      (t.toInt c = t.window.least →
        runCode row negated stack = .ok (some (t.ty.wrap c) :: stack) ∧
        runCode row (plain ++ neg) stack = .error ⟨.overflow t.ty, stack⟩) ∧
      (t.toInt c ≠ t.window.least →
        ∃ d : t.Carrier, t.toInt d = -t.toInt c ∧
          runCode row negated stack = .ok (some (t.ty.wrap d) :: stack) ∧
          runCode row (plain ++ neg) stack = .ok (some (t.ty.wrap d) :: stack))) ∧
    (runCode row [0x23] stack = .ok (some (.bool false) :: stack) ∧
      runCode row [0x13, 0x51] stack = .ok (some (.bool false) :: stack)) ∧
    ∀ (t : IntTy) (c : t.Carrier),
      runCode row (t.ty.tagged (if t.toInt c < 0 then 2 else 1) ::
          Varint.encode 1 (t.toInt c).natAbs) stack = .ok (some (t.ty.wrap c) :: stack) := by
  refine ⟨fun t n => ?_, ⟨?_, ?_⟩, runCode_encode row stack⟩
  · intro plain negated neg c
    have hnegated : runCode row negated stack = .ok (some (t.ty.wrap (t.wrappingNeg c)) :: stack) :=
      runCode_integer row stack t true n
    have hneg := runCode_integer_neg row stack t n
    rw [IntTy.step_neg] at hneg
    refine ⟨runCode_integer row stack t false n, fun hleast => ⟨?_, ?_⟩, fun hother =>
      ⟨t.wrappingNeg c, IntTy.toInt_wrappingNeg hother, hnegated, ?_⟩⟩
    · rw [hnegated, IntTy.wrappingNeg_of_least hleast]
    · rw [hneg, if_pos hleast]
    · rw [hneg, if_neg hother]
  · exact runCode_words row stack [.const (.bool true)]
  · exact runCode_words row stack [.const (.bool false), .op .not]

end Code

end RowCode
