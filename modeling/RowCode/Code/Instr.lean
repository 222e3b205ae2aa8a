import RowCode.Code.Opcode
import RowCode.Code.Reader
import RowCode.Instr

/-!
# Instructions in code

The high half of an instruction byte is its class. In the classes of nulls, constants and columns
the low half is a type tag; in the others the byte as a whole is an opcode. A program is a list of
instructions up to the byte zero or to the end of the code.

A cast from a type to itself is an instruction that does nothing; it is read and left out.

An instruction that does not exist is reported with all the bytes from its first one on, a value
that does not end with the bytes from its own start on.
-/

namespace RowCode.Code

/-- The constant of a class-1 byte, or negated of a class-2 byte. Integers wrap, so that the least
one can be written as the negation of itself; only integers and booleans can be negated. -/
def readConst (negate : Bool) (t : Ty) (whole rest : Bytes) : Except Fault (Scalar × Bytes) :=
  match t, negate with
  | .int32, _ => do
    let (n, rest) ← readVarint rest
    let n := Int32.ofInt n.toNat
    .ok (.int32 (if negate then -n else n), rest)
  | .int64, _ => do
    let (n, rest) ← readVarint rest
    let n := Int64.ofInt n.toNat
    .ok (.int64 (if negate then -n else n), rest)
  | .bool, _ => .ok (.bool !negate, rest)
  | .float32, false => do
    let (x, rest) ← readBinary .single rest
    .ok (.float32 x, rest)
  | .float64, false => do
    let (x, rest) ← readBinary .double rest
    .ok (.float64 x, rest)
  | .decimal, false => do
    let (s, rest) ← readString rest
    let d ← readDecimal s
    .ok (.decimal d, rest)
  | .string, false => do
    let (s, rest) ← readString rest
    .ok (.string s, rest)
  | _, _ => .error (.unknownCode whole)

/-- What a byte must find, or the instruction does not exist. -/
def orUnknown {α : Type} (whole : Bytes) : Option α → Except Fault α
  | some v => .ok v
  | none => .error (.unknownCode whole)

/-- The byte behind an opcode. -/
def readOperandByte (whole : Bytes) : Bytes → Except Fault (UInt8 × Bytes)
  | b :: rest => .ok (b, rest)
  | [] => .error (.truncated whole)

/-- The operator of an opcode outside the tagged classes; a cast of a type to itself is none. -/
def readOperator (opcode : UInt8) (whole rest : Bytes) : Except Fault (Option Operator × Bytes) :=
  match Opcode.connective? opcode, Opcode.family? opcode with
  | some op, _ => .ok (some op, rest)
  | none, some family => do
    let (b, rest) ← readOperandByte whole rest
    let t ← orUnknown whole (Ty.ofCode? b.toNat)
    let op ← orUnknown whole (family t)
    .ok (some op, rest)
  | none, none =>
    if opcode = Opcode.castPlain ∨ opcode = Opcode.castChecked then do
      let (b, rest) ← readOperandByte whole rest
      let dst ← orUnknown whole (Ty.ofCode? (b.toNat / 16))
      let src ← orUnknown whole (Ty.ofCode? (b.toNat % 16))
      if dst = src then .ok (none, rest)
      else do
        let op ← orUnknown whole (Opcode.cast? (opcode = Opcode.castChecked) dst src)
        .ok (some op, rest)
    else if opcode = Opcode.function then do
      let (b, rest) ← readOperandByte whole rest
      let op ← orUnknown whole (Opcode.function? b)
      .ok (some op, rest)
    else .error (.unknownCode whole)

/-- One instruction, from its first byte and what follows it. -/
def readInstr (opcode : UInt8) (rest : Bytes) : Except Fault (Option Instr × Bytes) :=
  let whole := opcode :: rest
  let tag := Ty.ofCode? (opcode.toNat % 16)
  match opcode.toNat / 16 with
  | 0 => do
    let t ← orUnknown whole (tag.bind ValueTy.ofTy?)
    .ok (some (.null t), rest)
  | 1 => do
    let t ← orUnknown whole tag
    let (v, rest) ← readConst false t whole rest
    .ok (some (.const v), rest)
  | 2 => do
    let t ← orUnknown whole tag
    let (v, rest) ← readConst true t whole rest
    .ok (some (.const v), rest)
  | 3 => do
    let t ← orUnknown whole tag
    let (index, rest) ← readNat rest
    .ok (some (.column index t), rest)
  | _ => do
    let (op, rest) ← readOperator opcode whole rest
    .ok (op.map .op, rest)

/-! ## Instructions take bytes -/

theorem bind_eq_ok {ε α β : Type} {x : Except ε α} {f : α → Except ε β} {b : β} :
    (x >>= f) = .ok b ↔ ∃ a, x = .ok a ∧ f a = .ok b := by
  cases x <;> simp [bind, Except.bind]

theorem readOperandByte_length {whole rest rest' : Bytes} {b : UInt8}
    (h : readOperandByte whole rest = .ok (b, rest')) : rest'.length < rest.length := by
  cases rest with
  | nil => cases h
  | cons c rest =>
    cases h
    simp

theorem readConst_length {negate : Bool} {t : Ty} {whole rest rest' : Bytes} {v : Scalar}
    (h : readConst negate t whole rest = .ok (v, rest')) : rest'.length ≤ rest.length := by
  unfold readConst at h
  split at h
  · obtain ⟨⟨n, r⟩, hn, hv⟩ := bind_eq_ok.1 h
    cases hv
    exact Nat.le_of_lt (readVarint_shorter hn)
  · obtain ⟨⟨n, r⟩, hn, hv⟩ := bind_eq_ok.1 h
    cases hv
    exact Nat.le_of_lt (readVarint_shorter hn)
  · cases h
    exact Nat.le_refl _
  · obtain ⟨⟨x, r⟩, hx, hv⟩ := bind_eq_ok.1 h
    cases hv
    exact Nat.le_of_lt (readBinary_shorter hx)
  · obtain ⟨⟨x, r⟩, hx, hv⟩ := bind_eq_ok.1 h
    cases hv
    exact Nat.le_of_lt (readBinary_shorter hx)
  · obtain ⟨⟨s, r⟩, hs, h⟩ := bind_eq_ok.1 h
    obtain ⟨d, _, hv⟩ := bind_eq_ok.1 h
    cases hv
    exact Nat.le_of_lt (readString_shorter hs)
  · obtain ⟨⟨s, r⟩, hs, hv⟩ := bind_eq_ok.1 h
    cases hv
    exact Nat.le_of_lt (readString_shorter hs)
  · cases h

theorem readOperator_length {opcode : UInt8} {whole rest rest' : Bytes} {op : Option Operator}
    (h : readOperator opcode whole rest = .ok (op, rest')) : rest'.length ≤ rest.length := by
  unfold readOperator at h
  split at h
  · cases h
    exact Nat.le_refl _
  · obtain ⟨⟨b, r⟩, hb, h⟩ := bind_eq_ok.1 h
    obtain ⟨t, _, h⟩ := bind_eq_ok.1 h
    obtain ⟨o, _, h⟩ := bind_eq_ok.1 h
    cases h
    exact Nat.le_of_lt (readOperandByte_length hb)
  · split at h
    · obtain ⟨⟨b, r⟩, hb, h⟩ := bind_eq_ok.1 h
      obtain ⟨dst, _, h⟩ := bind_eq_ok.1 h
      obtain ⟨src, _, h⟩ := bind_eq_ok.1 h
      have := readOperandByte_length hb
      split at h
      · cases h
        exact Nat.le_of_lt this
      · obtain ⟨o, _, h⟩ := bind_eq_ok.1 h
        cases h
        exact Nat.le_of_lt this
    · split at h
      · obtain ⟨⟨b, r⟩, hb, h⟩ := bind_eq_ok.1 h
        obtain ⟨o, _, h⟩ := bind_eq_ok.1 h
        cases h
        exact Nat.le_of_lt (readOperandByte_length hb)
      · cases h

theorem readInstr_length {opcode : UInt8} {rest rest' : Bytes} {i : Option Instr}
    (h : readInstr opcode rest = .ok (i, rest')) : rest'.length ≤ rest.length := by
  unfold readInstr at h
  dsimp only at h
  split at h
  · obtain ⟨t, _, h⟩ := bind_eq_ok.1 h
    cases h
    exact Nat.le_refl _
  · obtain ⟨t, _, h⟩ := bind_eq_ok.1 h
    obtain ⟨⟨v, r⟩, hv, h⟩ := bind_eq_ok.1 h
    cases h
    exact readConst_length hv
  · obtain ⟨t, _, h⟩ := bind_eq_ok.1 h
    obtain ⟨⟨v, r⟩, hv, h⟩ := bind_eq_ok.1 h
    cases h
    exact readConst_length hv
  · obtain ⟨t, _, h⟩ := bind_eq_ok.1 h
    obtain ⟨⟨n, r⟩, hn, h⟩ := bind_eq_ok.1 h
    cases h
    exact Nat.le_of_lt (readNat_shorter hn)
  · obtain ⟨⟨op, r⟩, ho, h⟩ := bind_eq_ok.1 h
    cases h
    exact readOperator_length ho

end RowCode.Code
