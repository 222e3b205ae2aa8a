import RowCode.Code.Program

/-!
# Words of code

Instructions as they are written. A `Word` is an instruction together with the
bytes that are chosen for it, where there is a choice: numbers may have more
groups than they need, and a decimal is written as any of its texts. What makes
the bytes well formed is part of the word, so every word is one that the reader
accepts (`readInstr_word`), and a list of words with a stop byte behind it is a
program (`readProgram_words`).
-/

namespace RowCode

/-- The byte of a class, in its high half, and a type tag. -/
def Ty.tagged (t : Ty) (group : Nat) : UInt8 :=
  UInt8.ofNat (16 * group + t.code)

theorem Ty.toNat_tagged (t : Ty) {group : Nat} (h : group < 16) :
    (t.tagged group).toNat = 16 * group + t.code := by
  have := t.code_lt
  rw [tagged, UInt8.toNat_ofNat']
  omega

theorem Ty.tagged_div (t : Ty) {group : Nat} (h : group < 16) :
    (t.tagged group).toNat / 16 = group := by
  have := t.code_lt
  rw [t.toNat_tagged h]
  omega

theorem Ty.tagged_mod (t : Ty) {group : Nat} (h : group < 16) :
    (t.tagged group).toNat % 16 = t.code := by
  have := t.code_lt
  rw [t.toNat_tagged h]
  omega

theorem ValueTy.ty_injective {t t' : ValueTy} (h : t.ty = t'.ty) : t = t' := by
  have hty := t.ofTy?_ty
  rw [h, t'.ofTy?_ty] at hty
  exact (Option.some.inj hty).symm

namespace Code

/-! ## Values -/

/-- A number in groups of seven bits: groups that are followed by another, and
the last one. -/
structure Varint where
  front : Bytes
  last : UInt8
  more : ∀ b ∈ front, ¬b < 128
  ends : last < 128
  fits : front.length < maxGroups

namespace Varint

def bytes (n : Varint) : Bytes :=
  n.front ++ [n.last]

/-- The groups as digits, of which the low 64 bits count. -/
def value (n : Varint) : UInt64 :=
  UInt64.ofNat (n.front.foldr (fun b m => b.toNat - 128 + 128 * m) n.last.toNat)

theorem readGroups_append {last : UInt8} (hlast : last < 128) (rest : Bytes) :
    ∀ {front : Bytes} {room : Nat}, (∀ b ∈ front, ¬b < 128) → front.length < room →
      readGroups room (front ++ last :: rest) =
        .ok (front.foldr (fun b m => b.toNat - 128 + 128 * m) last.toNat, rest)
  | _, 0, _, hroom => absurd hroom (Nat.not_lt_zero _)
  | [], room + 1, _, _ => by
      rw [List.nil_append, readGroups, if_pos hlast, List.foldr_nil]
  | b :: front, room + 1, hmore, hroom => by
      rw [List.cons_append, readGroups, if_neg (hmore b (List.mem_cons_self ..)),
        readGroups_append hlast rest (fun b' hb' => hmore b' (List.mem_cons_of_mem _ hb'))
          (Nat.lt_of_succ_lt_succ hroom), List.foldr_cons]

theorem readVarint_bytes (n : Varint) (rest : Bytes) :
    readVarint (n.bytes ++ rest) = .ok (n.value, rest) := by
  rw [readVarint, bytes, List.append_assoc, List.singleton_append,
    readGroups_append n.ends rest n.more n.fits]
  rfl

theorem readNat_bytes (n : Varint) (rest : Bytes) :
    readNat (n.bytes ++ rest) = .ok (n.value.toNat, rest) := by
  rw [readNat, readVarint_bytes]

end Varint

theorem readBytes_append (bytes rest : Bytes) :
    readBytes bytes.length (bytes ++ rest) = .ok (bytes, rest) := by
  rw [readBytes, if_pos (by simp), List.take_left, List.drop_left]

theorem readBinary_append {f : Format} {bits : Bytes} (wide : bits.length = f.width / 8)
    (rest : Bytes) :
    readBinary f (bits ++ rest) = .ok (⟨BitVec.ofNat _ (bigEndian bits)⟩, rest) := by
  rw [readBinary, ← wide, readBytes_append]

theorem fromUTF8?_toUTF8 (s : String) :
    String.fromUTF8? ⟨s.toUTF8.data.toList.toArray⟩ = some s := by
  exact dif_pos (show ByteArray.IsValidUTF8 ⟨s.toUTF8.data⟩ from s.isValidUTF8)

/-- A string behind its length. -/
structure Counted where
  string : String
  length : Varint
  counts : length.value.toNat = string.toUTF8.data.toList.length

namespace Counted

def bytes (s : Counted) : Bytes :=
  s.length.bytes ++ s.string.toUTF8.data.toList

theorem readString_bytes (s : Counted) (rest : Bytes) :
    readString (s.bytes ++ rest) = .ok (s.string, rest) := by
  rw [readString, bytes, List.append_assoc, Varint.readNat_bytes]
  simp only [s.counts, readBytes_append, fromUTF8?_toUTF8]

end Counted

/-! ## Constants -/

/-- A constant as it is written. Integers and booleans can be written negated. -/
inductive Literal where
  | int32 (negated : Bool) (n : Varint)
  | int64 (negated : Bool) (n : Varint)
  | bool (negated : Bool)
  | float32 (bits : Bytes) (wide : bits.length = 4)
  | float64 (bits : Bytes) (wide : bits.length = 8)
  | decimal (text : Counted) (d : Decimal) (accepted : readDecimal text.string = .ok d)
  | string (s : Counted)

namespace Literal

/-- The constant that is meant. -/
def value : Literal → Scalar
  | int32 negated n =>
    let n := Int32.ofInt n.value.toNat
    .int32 (if negated then -n else n)
  | int64 negated n =>
    let n := Int64.ofInt n.value.toNat
    .int64 (if negated then -n else n)
  | bool negated => .bool !negated
  | float32 bits _ => .float32 ⟨BitVec.ofNat _ (bigEndian bits)⟩
  | float64 bits _ => .float64 ⟨BitVec.ofNat _ (bigEndian bits)⟩
  | decimal _ d _ => .decimal d
  | string s => .string s.string

def negated : Literal → Bool
  | int32 negated _ => negated
  | int64 negated _ => negated
  | bool negated => negated
  | _ => false

/-- The bytes behind the first one. -/
def payload : Literal → Bytes
  | int32 _ n => n.bytes
  | int64 _ n => n.bytes
  | bool _ => []
  | float32 bits _ => bits
  | float64 bits _ => bits
  | decimal text _ _ => text.bytes
  | string s => s.bytes

theorem readConst_payload (l : Literal) (whole rest : Bytes) :
    readConst l.negated l.value.ty whole (l.payload ++ rest) = .ok (l.value, rest) := by
  cases l with
  | int32 negated n =>
      show readConst negated .int32 whole (n.bytes ++ rest) = _
      rw [readConst, Varint.readVarint_bytes]
      rfl
  | int64 negated n =>
      show readConst negated .int64 whole (n.bytes ++ rest) = _
      rw [readConst, Varint.readVarint_bytes]
      rfl
  | bool negated => rfl
  | float32 bits wide =>
      show readConst false .float32 whole (bits ++ rest) = _
      rw [readConst, readBinary_append wide]
      rfl
  | float64 bits wide =>
      show readConst false .float64 whole (bits ++ rest) = _
      rw [readConst, readBinary_append wide]
      rfl
  | decimal text d accepted =>
      show readConst false .decimal whole (text.bytes ++ rest) = _
      rw [readConst, Counted.readString_bytes]
      simp only [bind, Except.bind, accepted]
      rfl
  | string s =>
      show readConst false .string whole (s.bytes ++ rest) = _
      rw [readConst, Counted.readString_bytes]
      rfl

end Literal

/-! ## Values that can be written

Numbers of 64 bits fit ten groups, and floats are their bytes. Strings must
have a length of 64 bits, and a decimal must be what some text is read as. -/

theorem exists_groups : ∀ (room n : Nat), n < 128 ^ (room + 1) →
    ∃ (front : Bytes) (last : UInt8), (∀ b ∈ front, ¬b < 128) ∧ last < 128 ∧
      front.length ≤ room ∧
      front.foldr (fun b m => b.toNat - 128 + 128 * m) last.toNat = n
  | 0, n, h => by
      have hlast : (UInt8.ofNat n).toNat = n := by
        rw [UInt8.toNat_ofNat']
        omega
      refine ⟨[], UInt8.ofNat n, nofun, ?_, Nat.le_refl 0, hlast⟩
      rw [UInt8.lt_iff_toNat_lt, hlast]
      exact h
  | room + 1, n, h => by
      have hdiv : n / 128 < 128 ^ (room + 1) := by
        rw [Nat.div_lt_iff_lt_mul (by decide)]
        exact h
      obtain ⟨front, last, hmore, hends, hlength, hvalue⟩ := exists_groups room (n / 128) hdiv
      have hfirst : (UInt8.ofNat (n % 128 + 128)).toNat = n % 128 + 128 := by
        rw [UInt8.toNat_ofNat']
        omega
      refine ⟨UInt8.ofNat (n % 128 + 128) :: front, last, ?_, hends,
        Nat.succ_le_succ hlength, ?_⟩
      · intro b hb
        rcases List.mem_cons.mp hb with rfl | hb
        · rw [UInt8.lt_iff_toNat_lt, hfirst]
          exact Nat.not_lt.mpr (Nat.le_add_left _ _)
        · exact hmore b hb
      · rw [List.foldr_cons, hvalue, hfirst]
        omega

/-- Every number of 64 bits can be written. -/
theorem Varint.exists_value (n : UInt64) : ∃ v : Varint, v.value = n := by
  have hlt : n.toNat < 128 ^ (9 + 1) := Nat.lt_trans n.toNat_lt (by decide)
  obtain ⟨front, last, hmore, hends, hlength, hvalue⟩ := exists_groups 9 n.toNat hlt
  refine ⟨⟨front, last, hmore, hends, Nat.lt_succ_of_le hlength⟩, ?_⟩
  rw [value, hvalue, UInt64.ofNat_toNat]

theorem exists_bigEndian : ∀ (count n : Nat), n < 256 ^ count →
    ∃ bytes : Bytes, bytes.length = count ∧ bigEndian bytes = n
  | 0, n, h => by
      obtain rfl : n = 0 := Nat.lt_one_iff.mp h
      exact ⟨[], rfl, rfl⟩
  | count + 1, n, h => by
      have hdiv : n / 256 < 256 ^ count := by
        rw [Nat.div_lt_iff_lt_mul (by decide)]
        exact h
      obtain ⟨bytes, hlength, hvalue⟩ := exists_bigEndian count (n / 256) hdiv
      have hlast : (UInt8.ofNat (n % 256)).toNat = n % 256 := by
        rw [UInt8.toNat_ofNat']
        omega
      refine ⟨bytes ++ [UInt8.ofNat (n % 256)], by simp [hlength], ?_⟩
      rw [bigEndian] at hvalue
      rw [bigEndian, List.foldl_append, hvalue, List.foldl_cons, List.foldl_nil, hlast]
      omega

theorem exists_counted {s : String} (h : s.toUTF8.data.toList.length < 2 ^ 64) :
    ∃ c : Counted, c.string = s := by
  obtain ⟨length, hlength⟩ := Varint.exists_value (UInt64.ofNat s.toUTF8.data.toList.length)
  refine ⟨⟨s, length, ?_⟩, rfl⟩
  rw [hlength, UInt64.toNat_ofNat_of_lt' h]

/-- The constants that have a form in code. -/
def Writable : Scalar → Prop
  | .decimal d => ∃ text : String,
      text.toUTF8.data.toList.length < 2 ^ 64 ∧ readDecimal text = .ok d
  | .string s => s.toUTF8.data.toList.length < 2 ^ 64
  | _ => True

theorem Counted.length_lt (c : Counted) : c.string.toUTF8.data.toList.length < 2 ^ 64 := by
  rw [← c.counts]
  exact c.length.value.toNat_lt

theorem Literal.writable_value (l : Literal) : Writable l.value := by
  cases l with
  | decimal text d accepted => exact ⟨text.string, text.length_lt, accepted⟩
  | string s => exact s.length_lt
  | _ => exact trivial

theorem Literal.exists_value {v : Scalar} (h : Writable v) : ∃ l : Literal, l.value = v := by
  cases v with
  | int32 n =>
      obtain ⟨m, hm⟩ := Varint.exists_value (UInt64.ofNat (n.toInt % 2 ^ 32).toNat)
      have hvalue : (m.value.toNat : Int) = n.toInt % 2 ^ 32 := by
        rw [hm, UInt64.toNat_ofNat']
        omega
      refine ⟨.int32 false m, congrArg Scalar.int32 (Int32.toInt_inj.mp ?_)⟩
      rw [if_neg Bool.false_ne_true, Int32.toInt_ofInt, hvalue]
      exact (Int.emod_bmod _ _).trans n.toInt_bmod
  | int64 n =>
      obtain ⟨m, hm⟩ := Varint.exists_value (UInt64.ofNat (n.toInt % 2 ^ 64).toNat)
      have hvalue : (m.value.toNat : Int) = n.toInt % 2 ^ 64 := by
        rw [hm, UInt64.toNat_ofNat']
        omega
      refine ⟨.int64 false m, congrArg Scalar.int64 (Int64.toInt_inj.mp ?_)⟩
      rw [if_neg Bool.false_ne_true, Int64.toInt_ofInt, hvalue]
      exact (Int.emod_bmod _ _).trans n.toInt_bmod
  | bool b => exact ⟨.bool !b, by rw [value, Bool.not_not]⟩
  | float32 x =>
      obtain ⟨bytes, hlength, hvalue⟩ := exists_bigEndian 4 x.bits.toNat x.bits.isLt
      refine ⟨.float32 bytes hlength, ?_⟩
      rw [value, hvalue, BitVec.ofNat_toNat, BitVec.setWidth_eq]
  | float64 x =>
      obtain ⟨bytes, hlength, hvalue⟩ := exists_bigEndian 8 x.bits.toNat x.bits.isLt
      refine ⟨.float64 bytes hlength, ?_⟩
      rw [value, hvalue, BitVec.ofNat_toNat, BitVec.setWidth_eq]
  | decimal d =>
      obtain ⟨text, hsize, haccepted⟩ := h
      obtain ⟨c, rfl⟩ := exists_counted hsize
      exact ⟨.decimal c d haccepted, rfl⟩
  | string s =>
      obtain ⟨c, rfl⟩ := exists_counted h
      exact ⟨.string c, rfl⟩

end Code

/-! ## Operators -/

namespace MathFn

/-- The place in the function table. -/
def number : MathFn → UInt8
  | ceil => 0x01
  | floor => 0x02
  | sin => 0x07
  | cos => 0x08
  | tan => 0x09
  | asin => 0x0A
  | acos => 0x0B
  | atan => 0x0C
  | sinh => 0x0D
  | cosh => 0x0E
  | tanh => 0x0F
  | exp => 0x10
  | log => 0x11

theorem function?_number (f : MathFn) : Opcode.function? f.number = some (.math f) := by
  cases f <;> rfl

end MathFn

namespace TextFn

def number : TextFn → UInt8
  | lower => 0x22
  | upper => 0x23
  | trim => 0x26
  | ltrim => 0x28
  | rtrim => 0x2A

theorem function?_number (f : TextFn) : Opcode.function? f.number = some (.text f) := by
  cases f <;> rfl

end TextFn

namespace CutFn

def number : CutFn → UInt8
  | left => 0x24
  | right => 0x25
  | substr => 0x2D
  | mid => 0x2F

theorem function?_number (f : CutFn) : Opcode.function? f.number = some (.cut f) := by
  cases f <;> rfl

end CutFn

namespace RangeFn

def number : RangeFn → UInt8
  | substr => 0x2C
  | mid => 0x2E

theorem function?_number (f : RangeFn) : Opcode.function? f.number = some (.range f) := by
  cases f <;> rfl

end RangeFn

namespace Operator

/-- The byte that selects the operator or its family. -/
def opcode : Operator → UInt8
  | sign .pos _ => 0x81
  | sign .neg _ => 0x82
  | arith .add _ => 0x83
  | join .plus => 0x83
  | arith .sub _ => 0x84
  | join .minus => 0x84
  | arith .mul _ => 0x85
  | arith .div _ => 0x86
  | rem _ => 0x87
  | relation .eq _ => 0x91
  | relation .ge _ => 0x92
  | relation .gt _ => 0x93
  | relation .le _ => 0x94
  | relation .lt _ => 0x95
  | relation .ne _ => 0x96
  | test .isNull _ => 0xA1
  | test .isTrue _ => 0xA2
  | test .isFalse _ => 0xA3
  | extreme .min _ => 0xB1
  | extreme .max _ => 0xB2
  | sign .abs _ => 0xB3
  | sign .absCheck _ => 0xB4
  | not => 0x51
  | connective .and => 0x52
  | connective .or => 0x53
  | cast checked _ _ _ => if checked then Opcode.castChecked else Opcode.castPlain
  | join .bars => Opcode.function
  | math _ => Opcode.function
  | text _ => Opcode.function
  | cut _ => Opcode.function
  | range _ => Opcode.function

/-- The byte behind the opcode, if there is one. -/
def choice : Operator → Bytes
  | sign _ t => [t.ty.tagged 0]
  | arith _ t => [t.ty.tagged 0]
  | rem t => [t.ty.tagged 0]
  | join .plus => [Ty.string.tagged 0]
  | join .minus => [Ty.string.tagged 0]
  | join .bars => [0x21]
  | relation _ t => [t.ty.tagged 0]
  | extreme _ t => [t.ty.tagged 0]
  | test _ t => [t.tagged 0]
  | not => []
  | connective _ => []
  | cast _ src dst _ => [src.ty.tagged dst.ty.code]
  | math f => [f.number]
  | text f => [f.number]
  | cut f => [f.number]
  | range f => [f.number]

end Operator

namespace Code

theorem readOperator_typed {opcode : UInt8} {family : Opcode.Family} {t : Ty} {op : Operator}
    (hconnective : Opcode.connective? opcode = none)
    (hfamily : Opcode.family? opcode = some family) (hop : family t = some op)
    (whole rest : Bytes) :
    readOperator opcode whole (t.tagged 0 :: rest) = .ok (some op, rest) := by
  have htag : (t.tagged 0).toNat = t.code := by
    rw [t.toNat_tagged (by decide), Nat.mul_zero, Nat.zero_add]
  simp [readOperator, hconnective, hfamily, readOperandByte, htag, Ty.ofCode?_code, hop,
    orUnknown, bind, Except.bind]

theorem readOperator_function {number : UInt8} {op : Operator}
    (hop : Opcode.function? number = some op) (whole rest : Bytes) :
    readOperator Opcode.function whole (number :: rest) = .ok (some op, rest) := by
  show (orUnknown whole (Opcode.function? number) >>= fun op => .ok (some op, rest)) = _
  rw [hop]
  rfl

theorem readOperator_cast (checked : Bool) (dst src : Ty) (whole rest : Bytes) :
    readOperator (if checked then Opcode.castChecked else Opcode.castPlain) whole
        (src.tagged dst.code :: rest) =
      if dst = src then .ok (none, rest)
      else orUnknown whole (Opcode.cast? checked dst src) >>= fun op => .ok (some op, rest) := by
  have hdst : dst.code < 16 := Nat.lt_trans dst.code_lt (by decide)
  cases checked <;>
    simp [readOperator, Opcode.connective?, Opcode.family?, Opcode.castChecked,
      Opcode.castPlain, readOperandByte, src.tagged_div hdst, src.tagged_mod hdst,
      Ty.ofCode?_code, orUnknown, bind, Except.bind]

/-- The bytes of an operator, read back. -/
theorem readOperator_choice (op : Operator) (whole rest : Bytes) :
    readOperator op.opcode whole (op.choice ++ rest) = .ok (some op, rest) := by
  have honNumber : ∀ (f : NumTy → Operator) (t : NumTy), Opcode.onNumber f t.ty = some (f t) :=
    fun f t => by rw [Opcode.onNumber, t.ofTy?_ty]; rfl
  have honValue : ∀ (f : ValueTy → Operator) (t : ValueTy),
      Opcode.onValue f t.ty = some (f t) :=
    fun f t => by rw [Opcode.onValue, t.ofTy?_ty]; rfl
  cases op with
  | sign f t => cases f <;> exact readOperator_typed rfl rfl (honNumber _ t) whole rest
  | arith op t =>
      have hnumber : ∀ (op : ArithOp) (j : Join),
          Opcode.onNumberOrString op j t.ty = some (.arith op t) :=
        fun op j => by cases t <;> rfl
      cases op with
      | add => exact readOperator_typed rfl rfl (hnumber _ _) whole rest
      | sub => exact readOperator_typed rfl rfl (hnumber _ _) whole rest
      | mul => exact readOperator_typed rfl rfl (honNumber _ t) whole rest
      | div => exact readOperator_typed rfl rfl (honNumber _ t) whole rest
  | rem t =>
      have hinteger : Opcode.onInteger .rem t.ty = some (.rem t) := by
        rw [Opcode.onInteger, t.ofTy?_ty]
        rfl
      exact readOperator_typed rfl rfl hinteger whole rest
  | join j =>
      cases j with
      | plus => exact readOperator_typed rfl rfl rfl whole rest
      | minus => exact readOperator_typed rfl rfl rfl whole rest
      | bars => exact readOperator_function rfl whole rest
  | relation r t => cases r <;> exact readOperator_typed rfl rfl (honValue _ t) whole rest
  | extreme e t => cases e <;> exact readOperator_typed rfl rfl (honValue _ t) whole rest
  | test q t => cases q <;> exact readOperator_typed rfl rfl rfl whole rest
  | not => rfl
  | connective c => cases c <;> rfl
  | cast checked src dst defined =>
      have hne : dst.ty ≠ src.ty := fun h => defined.1 (ValueTy.ty_injective h.symm)
      have hcast : Opcode.cast? checked dst.ty src.ty =
          some (.cast checked src dst defined) := by
        rw [Opcode.cast?, src.ofTy?_ty, dst.ofTy?_ty]
        exact dif_pos defined
      refine (readOperator_cast checked dst.ty src.ty whole rest).trans ?_
      rw [if_neg hne, hcast]
      rfl
  | math f => exact readOperator_function f.function?_number whole rest
  | text f => exact readOperator_function f.function?_number whole rest
  | cut f => exact readOperator_function f.function?_number whole rest
  | range f => exact readOperator_function f.function?_number whole rest

/-! ## Instructions -/

/-- An instruction as it is written. -/
inductive Word where
  | null (t : ValueTy)
  | const (l : Literal)
  | column (index : Varint) (t : Ty)
  | op (o : Operator)
  /-- A cast from a type to itself, which does nothing. -/
  | same (checked : Bool) (t : Ty)

namespace Word

def head : Word → UInt8
  | null t => t.ty.tagged 0
  | const l => l.value.ty.tagged (if l.negated then 2 else 1)
  | column _ t => t.tagged 3
  | op o => o.opcode
  | same checked _ => if checked then Opcode.castChecked else Opcode.castPlain

def tail : Word → Bytes
  | null _ => []
  | const l => l.payload
  | column index _ => index.bytes
  | op o => o.choice
  | same _ t => [t.tagged t.code]

def bytes (w : Word) : Bytes :=
  w.head :: w.tail

/-- The instruction that is meant, if the word does anything. -/
def instr? : Word → Option Instr
  | null t => some (.null t)
  | const l => some (.const l.value)
  | column index t => some (.column index.value.toNat t)
  | op o => some (.op o)
  | same _ _ => none

end Word

theorem readInstr_operator {opcode : UInt8} (h : 4 ≤ opcode.toNat / 16) (rest : Bytes) :
    readInstr opcode rest =
      readOperator opcode (opcode :: rest) rest >>= fun r => .ok (r.1.map .op, r.2) := by
  rw [readInstr]
  split
  · omega
  · omega
  · omega
  · omega
  · rfl

theorem four_le_opcode (op : Operator) : 4 ≤ op.opcode.toNat / 16 := by
  cases op with
  | sign f t => cases f <;> simp [Operator.opcode]
  | arith op t => cases op <;> simp [Operator.opcode]
  | join j => cases j <;> decide
  | relation r t => cases r <;> simp [Operator.opcode]
  | extreme e t => cases e <;> simp [Operator.opcode]
  | test q t => cases q <;> simp [Operator.opcode]
  | connective c => cases c <;> decide
  | cast checked src dst defined =>
      cases checked <;> simp [Operator.opcode, Opcode.castPlain, Opcode.castChecked]
  | _ => simp [Operator.opcode, Opcode.function]

theorem tagged_ne_stop (t : Ty) {group : Nat} (hpos : 0 < group) (hlt : group < 16) :
    t.tagged group ≠ Opcode.stop := by
  intro h
  have hbyte := t.toNat_tagged hlt
  rw [h] at hbyte
  have hstop : Opcode.stop.toNat = 0 := rfl
  omega

/-- A word is read back, and its first byte does not end a program. -/
theorem readInstr_word (w : Word) (rest : Bytes) :
    w.head ≠ Opcode.stop ∧ readInstr w.head (w.tail ++ rest) = .ok (w.instr?, rest) := by
  cases w with
  | null t => cases t <;> exact ⟨by decide, rfl⟩
  | const l =>
      have hread := fun whole => l.readConst_payload whole rest
      rw [Word.head, Word.tail]
      cases hneg : l.negated with
      | false =>
          rw [hneg] at hread
          refine ⟨tagged_ne_stop _ (by decide) (by decide), ?_⟩
          rw [if_neg Bool.false_ne_true, readInstr, Ty.tagged_div _ (by decide)]
          simp [Ty.tagged_mod, Ty.ofCode?_code, orUnknown, bind, Except.bind, hread, Word.instr?]
      | true =>
          rw [hneg] at hread
          refine ⟨tagged_ne_stop _ (by decide) (by decide), ?_⟩
          rw [if_pos rfl, readInstr, Ty.tagged_div _ (by decide)]
          simp [Ty.tagged_mod, Ty.ofCode?_code, orUnknown, bind, Except.bind, hread, Word.instr?]
  | column index t =>
      refine ⟨tagged_ne_stop t (by decide) (by decide), ?_⟩
      rw [readInstr, Word.head, Word.tail, t.tagged_div (by decide)]
      simp [Ty.tagged_mod, Ty.ofCode?_code, orUnknown, bind, Except.bind, Varint.readNat_bytes,
        Word.instr?]
  | op o =>
      have hclass := four_le_opcode o
      refine ⟨?_, ?_⟩
      · intro h
        rw [Word.head] at h
        rw [h] at hclass
        cases hclass
      · rw [Word.head, Word.tail, readInstr_operator hclass, readOperator_choice]
        rfl
  | same checked t =>
      rw [Word.head, Word.tail]
      refine ⟨by cases checked <;> decide, ?_⟩
      rw [ readInstr_operator (by cases checked <;> decide),
        List.singleton_append, readOperator_cast, if_pos rfl]
      rfl

/-- Words stand in front of whatever is read behind them. -/
theorem readProgram_append (code : Bytes) : ∀ words : List Word,
    readProgram (words.flatMap Word.bytes ++ code) =
      (readProgram code).map fun r => (words.filterMap Word.instr? ++ r.1, r.2)
  | [] => by
      rw [List.flatMap_nil, List.nil_append]
      cases readProgram code <;> rfl
  | w :: words => by
      obtain ⟨hstop, hread⟩ := readInstr_word w (words.flatMap Word.bytes ++ code)
      rw [List.flatMap_cons, Word.bytes, List.append_assoc, List.cons_append, readProgram,
        if_neg hstop]
      split
      · next e herror =>
        rw [hread] at herror
        cases herror
      · next i after hok =>
        rw [hread] at hok
        cases hok
        rw [readProgram_append code words, List.filterMap_cons]
        cases readProgram code with
        | error e => rfl
        | ok r => cases w.instr? <;> rfl

theorem readProgram_words (rest : Bytes) (words : List Word) :
    readProgram (words.flatMap Word.bytes ++ Opcode.stop :: rest) =
      .ok (words.filterMap Word.instr?, rest) := by
  rw [readProgram_append, readProgram, if_pos rfl]
  exact congrArg (fun p => Except.ok (p, rest)) (List.append_nil _)

end Code

end RowCode
