import RowCode.Proofs.Code.Append

/-!
# Where code stops making sense

Which bytes a decoder blames when it meets an instruction that does not exist. A
code is words up to its tail, and at the tail it is `Stuck`: no word stands
there, and no program may end there. Words and tail are determined by the code
(`Stuck.unique`).

An instruction can fail to exist in two ways. It is `Undefined` if no word
starts with its first byte, or with its first two where the second byte chooses
the operator; then the bytes from its first one on are blamed. It is `Overlong`
if the number behind its first byte goes on beyond the groups that a number may
have; then the blame falls on the bytes of the number, which start one later.
`Runner.unknownCode_iff` says that these are all the ways there are.
-/

namespace RowCode

namespace Code

/-! ## Numbers that do not end -/

/-- Bytes that start with more groups than a number may have. -/
def Endless (code : Bytes) : Prop :=
  maxGroups < code.length ∧ ∀ b ∈ code.take maxGroups, ¬b < 128

theorem readGroups_tooLong_iff : ∀ {room : Nat} {code : Bytes},
    readGroups room code = .error .tooLong ↔
      room < code.length ∧ ∀ b ∈ code.take room, ¬b < 128
  | _, [] => by simp [readGroups]
  | 0, b :: code => by simp [readGroups]
  | room + 1, b :: code => by
      have ih := @readGroups_tooLong_iff room code
      rw [List.take_succ_cons, List.forall_mem_cons, List.length_cons, Nat.succ_lt_succ_iff,
        and_left_comm, ← ih, readGroups]
      by_cases hb : b < 128
      · simp [hb]
      · rw [if_neg hb]
        cases readGroups room code with
        | ok r => simp [hb]
        | error e => simp [hb]

theorem readVarint_unknown_iff {code bytes : Bytes} :
    readVarint code = .error (.unknownCode bytes) ↔ Endless code ∧ bytes = code := by
  rw [Endless, ← readGroups_tooLong_iff, readVarint]
  cases readGroups maxGroups code with
  | ok r => simp
  | error e => cases e <;> simp [eq_comm]

theorem readNat_unknown_iff {code bytes : Bytes} :
    readNat code = .error (.unknownCode bytes) ↔ Endless code ∧ bytes = code := by
  rw [← readVarint_unknown_iff, readNat]
  cases readVarint code <;> simp

/-- The bytes of a string are never unknown, only its length may be. -/
theorem readString_unknown_iff {code bytes : Bytes} :
    readString code = .error (.unknownCode bytes) ↔ Endless code ∧ bytes = code := by
  rw [← readNat_unknown_iff, readString]
  cases readNat code with
  | error e => simp
  | ok r =>
      dsimp only
      rw [readBytes]
      split
      · next hbytes =>
        split at hbytes <;> cases hbytes
        simp
      · split <;> simp

theorem readBinary_ne_unknown {f : Format} {code bytes : Bytes} :
    readBinary f code ≠ .error (.unknownCode bytes) := by
  intro h
  rw [readBinary, readBytes] at h
  split at h
  · cases h
  · next hbytes => split at hbytes <;> cases hbytes; cases h

theorem readDecimal_ne_unknown {s : String} {bytes : Bytes} :
    readDecimal s ≠ .error (.unknownCode bytes) := by
  intro h
  rw [readDecimal] at h
  rcases hparse : Decimal.parse s with (_ | _) | d
  all_goals rw [hparse] at h; cases h

/-! ## Words by their first bytes -/

/-- No word starts with these bytes. -/
def NoWord (start : Bytes) : Prop :=
  ∀ w : Word, ¬start <+: w.bytes

/-- The number that a constant starts with: an integer, or the length of a
text. -/
def Literal.number? : Literal → Option Varint
  | int32 _ n => some n
  | int64 _ n => some n
  | decimal text _ _ => some text.length
  | string s => some s.length
  | _ => none

/-- The number that stands right behind the first byte of a word. -/
def Word.number? : Word → Option Varint
  | const l => l.number?
  | column index _ => some index
  | _ => none

/-- An instruction that is in none of the tables. -/
inductive Undefined : Bytes → Prop where
  /-- The first byte, or the type it names, does not exist. -/
  | opcode {opcode : UInt8} (rest : Bytes) (h : NoWord [opcode]) : Undefined (opcode :: rest)
  /-- The operator exists, but not with the choice of the second byte. -/
  | choice {opcode b : UInt8} (rest : Bytes) (hclass : 4 ≤ opcode.toNat / 16)
      (h : NoWord [opcode, b]) : Undefined (opcode :: b :: rest)

/-- An instruction whose number has more groups than are allowed. -/
inductive Overlong : Bytes → Prop where
  | number {w : Word} {rest : Bytes} (hnumber : w.number?.isSome) (hrest : Endless rest) :
      Overlong (w.head :: rest)

/-- A first byte that is never accepted is that of no word. -/
theorem noWord_of_forall {opcode : UInt8}
    (h : ∀ rest, ∃ e, readInstr opcode rest = .error e) : NoWord [opcode] := by
  intro w hstart
  obtain ⟨rfl, -⟩ := List.cons_prefix_cons.mp hstart
  obtain ⟨e, he⟩ := h (w.tail ++ [])
  cases he.symm.trans (readInstr_word w []).2

theorem noWord_of_forall_choice {opcode b : UInt8}
    (h : ∀ rest, ∃ e, readInstr opcode (b :: rest) = .error e) : NoWord [opcode, b] := by
  intro w hstart
  obtain ⟨rfl, t, htail⟩ := List.cons_prefix_cons.mp hstart
  obtain ⟨e, he⟩ := h t
  have hread := (readInstr_word w []).2
  rw [List.append_nil, ← htail] at hread
  cases he.symm.trans hread

/-- A constant of every type that has constants; negated, only integers and
booleans are there. -/
theorem readConst_defined_or (negate : Bool) (t : Ty) :
    (∃ l : Literal, l.value.ty = t ∧ l.negated = negate) ∨
      ∀ whole code, readConst negate t whole code = .error (.unknownCode whole) := by
  obtain ⟨zero, -⟩ := Varint.exists_value 0
  cases t with
  | null => exact Or.inr fun _ _ => rfl
  | int32 => exact Or.inl ⟨.int32 negate zero, rfl, rfl⟩
  | int64 => exact Or.inl ⟨.int64 negate zero, rfl, rfl⟩
  | bool => exact Or.inl ⟨.bool negate, rfl, rfl⟩
  | float32 =>
      cases negate with
      | false => exact Or.inl ⟨.float32 [0, 0, 0, 0] rfl, rfl, rfl⟩
      | true => exact Or.inr fun _ _ => rfl
  | float64 =>
      cases negate with
      | false => exact Or.inl ⟨.float64 [0, 0, 0, 0, 0, 0, 0, 0] rfl, rfl, rfl⟩
      | true => exact Or.inr fun _ _ => rfl
  | decimal =>
      cases negate with
      | false =>
          obtain ⟨text, htext⟩ := exists_counted (s := "0") (by decide)
          have haccepted : readDecimal text.string = .ok ⟨0, 0⟩ := by rw [htext]; rfl
          exact Or.inl ⟨.decimal text ⟨0, 0⟩ haccepted, rfl, rfl⟩
      | true => exact Or.inr fun _ _ => rfl
  | string =>
      cases negate with
      | false =>
          obtain ⟨text, -⟩ := exists_counted (s := "") (by decide)
          exact Or.inl ⟨.string text, rfl, rfl⟩
      | true => exact Or.inr fun _ _ => rfl

/-! ## Instructions that are not there -/

theorem bind_ok_eq_error {α β : Type} {x : Except Fault α} {f : α → β} {e : Fault} :
    (x >>= fun a => .ok (f a)) = .error e ↔ x = .error e := by
  cases x <;> simp [bind, Except.bind]

/-- A constant that the tables have is unknown only where its number does not
end. -/
theorem readConst_unknown_iff (l : Literal) {whole code bytes : Bytes} :
    readConst l.negated l.value.ty whole code = .error (.unknownCode bytes) ↔
      l.number?.isSome ∧ Endless code ∧ bytes = code := by
  cases l with
  | int32 negated n =>
      show readConst negated .int32 whole code = _ ↔ _
      rw [readConst]
      exact bind_ok_eq_error.trans (readVarint_unknown_iff.trans (iff_and_self.mpr fun _ => rfl))
  | int64 negated n =>
      show readConst negated .int64 whole code = _ ↔ _
      rw [readConst]
      exact bind_ok_eq_error.trans (readVarint_unknown_iff.trans (iff_and_self.mpr fun _ => rfl))
  | bool negated => exact iff_of_false (fun h => by cases h) fun h => by cases h.1
  | float32 bits wide =>
      show readConst false .float32 whole code = _ ↔ _
      rw [readConst]
      exact bind_ok_eq_error.trans (iff_of_false readBinary_ne_unknown fun h => by cases h.1)
  | float64 bits wide =>
      show readConst false .float64 whole code = _ ↔ _
      rw [readConst]
      exact bind_ok_eq_error.trans (iff_of_false readBinary_ne_unknown fun h => by cases h.1)
  | decimal text d accepted =>
      show readConst false .decimal whole code = _ ↔ _
      have hnumber : (Literal.number? (.decimal text d accepted)).isSome := rfl
      rw [readConst, and_iff_right hnumber, ← readString_unknown_iff]
      cases readString code with
      | error e => simp [bind, Except.bind]
      | ok r =>
          refine iff_of_false (fun h => ?_) fun h => by cases h
          exact readDecimal_ne_unknown (bind_ok_eq_error.mp h)
  | string s =>
      show readConst false .string whole code = _ ↔ _
      rw [readConst]
      exact bind_ok_eq_error.trans (readString_unknown_iff.trans (iff_and_self.mpr fun _ => rfl))

section

variable (t : Ty) (rest : Bytes)

theorem readInstr_null : readInstr (t.tagged 0) rest =
    orUnknown (t.tagged 0 :: rest) (ValueTy.ofTy? t) >>= fun t => .ok (some (.null t), rest) := by
  rw [readInstr, t.tagged_div (by decide), t.tagged_mod (by decide), Ty.ofCode?_code]
  rfl

theorem readInstr_const (negate : Bool) :
    readInstr (t.tagged (if negate then 2 else 1)) rest =
      readConst negate t (t.tagged (if negate then 2 else 1) :: rest) rest >>= fun r =>
        .ok (some (.const r.1), r.2) := by
  cases negate
  · rw [readInstr, if_neg Bool.false_ne_true, t.tagged_div (by decide),
      t.tagged_mod (by decide), Ty.ofCode?_code]
    rfl
  · rw [readInstr, if_pos rfl, t.tagged_div (by decide), t.tagged_mod (by decide),
      Ty.ofCode?_code]
    rfl

theorem readInstr_column : readInstr (t.tagged 3) rest =
    readNat rest >>= fun r => .ok (some (.column r.1 t), r.2) := by
  rw [readInstr, t.tagged_div (by decide), t.tagged_mod (by decide), Ty.ofCode?_code]
  rfl

end

/-- A byte of the tagged classes that names no type. -/
theorem readInstr_untagged {opcode : UInt8} (hclass : opcode.toNat / 16 < 4)
    (htag : Ty.ofCode? (opcode.toNat % 16) = none) (rest : Bytes) :
    readInstr opcode rest = .error (.unknownCode (opcode :: rest)) := by
  rw [readInstr, htag]
  have hgroup : opcode.toNat / 16 = 0 ∨ opcode.toNat / 16 = 1 ∨ opcode.toNat / 16 = 2 ∨
      opcode.toNat / 16 = 3 := by omega
  rcases hgroup with h | h | h | h <;> rw [h] <;> rfl

/-! ## What a first byte leads to -/

/-- Every family has an operator. -/
theorem exists_of_family? {opcode : UInt8} {family : Opcode.Family}
    (h : Opcode.family? opcode = some family) : ∃ t op, family t = some op := by
  unfold Opcode.family? at h
  split at h <;> cases h <;> exact ⟨.int32, _, rfl⟩

/-- What can be said of an instruction from its first byte. -/
inductive FirstByte (opcode : UInt8) : Prop where
  /-- No instruction starts with it. -/
  | undefined (hread : ∀ rest, readInstr opcode rest = .error (.unknownCode (opcode :: rest)))
  /-- A number stands behind it, and all that may be unknown is its end. -/
  | number (w : Word) (hhead : w.head = opcode) (hclass : opcode.toNat / 16 < 4)
      (hnumber : w.number?.isSome)
      (hread : ∀ rest bytes, readInstr opcode rest = .error (.unknownCode bytes) →
        Endless rest ∧ bytes = rest)
  /-- Nothing about it is unknown. -/
  | known (w : Word) (hhead : w.head = opcode) (hclass : opcode.toNat / 16 < 4 ∨ w.tail = [])
      (hread : ∀ rest bytes, readInstr opcode rest ≠ .error (.unknownCode bytes))
  /-- The byte behind it decides. -/
  | choice (w : Word) (hhead : w.head = opcode) (hclass : 4 ≤ opcode.toNat / 16)
      (hread : ∀ bytes, readInstr opcode [] ≠ .error (.unknownCode bytes))
      (hchoice : ∀ b, (∃ w : Word, w.bytes = [opcode, b]) ∨
        ∀ rest, readInstr opcode (b :: rest) = .error (.unknownCode (opcode :: b :: rest)))

theorem firstByte_tagged {opcode : UInt8} (hstop : opcode ≠ Opcode.stop)
    (hclass : opcode.toNat / 16 < 4) : FirstByte opcode := by
  obtain ⟨zero, -⟩ := Varint.exists_value 0
  cases htag : Ty.ofCode? (opcode.toNat % 16) with
  | none => exact .undefined (readInstr_untagged hclass htag)
  | some t =>
      have hconst : ∀ negate : Bool, opcode = t.tagged (if negate then 2 else 1) →
          FirstByte opcode := by
        rintro negate rfl
        rcases readConst_defined_or negate t with ⟨l, rfl, rfl⟩ | hundefined
        · cases hnumber : l.number?.isSome with
          | true =>
              refine .number (.const l) rfl hclass hnumber fun rest bytes h => ?_
              rw [readInstr_const, bind_ok_eq_error, readConst_unknown_iff] at h
              exact h.2
          | false =>
              refine .known (.const l) rfl (Or.inl hclass) fun rest bytes h => ?_
              rw [readInstr_const, bind_ok_eq_error, readConst_unknown_iff, hnumber] at h
              cases h.1
        · exact .undefined fun rest => by rw [readInstr_const, hundefined]; rfl
      match hgroup : opcode.toNat / 16, hclass with
      | 0, _ =>
          obtain rfl := Ty.eq_tagged hgroup htag
          cases hvalue : ValueTy.ofTy? t with
          | none =>
              cases t with
              | null => exact absurd rfl hstop
              | _ => cases hvalue
          | some v =>
              obtain rfl := ValueTy.ty_of_ofTy? hvalue
              refine .known (.null v) rfl (Or.inl hclass) fun rest bytes h => ?_
              rw [readInstr_null, hvalue] at h
              cases h
      | 1, _ => exact hconst false (Ty.eq_tagged hgroup htag)
      | 2, _ => exact hconst true (Ty.eq_tagged hgroup htag)
      | 3, _ =>
          obtain rfl := Ty.eq_tagged hgroup htag
          refine .number (.column zero t) rfl hclass rfl fun rest bytes h => ?_
          rw [readInstr_column, bind_ok_eq_error, readNat_unknown_iff] at h
          exact h

theorem readInstr_operator_eq_error {opcode : UInt8} (hclass : 4 ≤ opcode.toNat / 16)
    {rest : Bytes} {e : Fault} :
    readInstr opcode rest = .error e ↔ readOperator opcode (opcode :: rest) rest = .error e := by
  rw [readInstr_operator hclass, bind_ok_eq_error]

theorem firstByte_typed {opcode : UInt8} {family : Opcode.Family}
    (hclass : 4 ≤ opcode.toNat / 16) (hconnective : Opcode.connective? opcode = none)
    (hfamily : Opcode.family? opcode = some family) : FirstByte opcode := by
  obtain ⟨t, op, hop⟩ := exists_of_family? hfamily
  refine .choice (.op op) (Opcode.family?_written hfamily hop).1.symm hclass ?_ ?_
  · intro bytes h
    rw [readInstr_operator_eq_error hclass, readOperator, hconnective, hfamily] at h
    cases h
  · intro b
    simp only [readInstr_operator_eq_error hclass, readOperator, hconnective, hfamily,
      readOperandByte, bind, Except.bind]
    cases hb : Ty.ofCode? b.toNat with
    | none => exact Or.inr fun rest => rfl
    | some t =>
        cases hop : family t with
        | none => exact Or.inr fun rest => by simp only [orUnknown, hop]
        | some op =>
            obtain ⟨hopcode, hchoice⟩ := Opcode.family?_written hfamily hop
            refine Or.inl ⟨.op op, ?_⟩
            rw [Word.bytes, Word.head, Word.tail, ← hopcode, hchoice, Ty.eq_tagged_zero hb]

/-- The byte behind a cast names two types. -/
theorem readOperator_cast_eq (checked : Bool) (b : UInt8) (whole rest : Bytes) :
    readOperator (if checked then Opcode.castChecked else Opcode.castPlain) whole (b :: rest) =
      (orUnknown whole (Ty.ofCode? (b.toNat / 16)) >>= fun dst =>
        orUnknown whole (Ty.ofCode? (b.toNat % 16)) >>= fun src =>
          if dst = src then .ok (none, rest)
          else orUnknown whole (Opcode.cast? checked dst src) >>= fun op =>
            .ok (some op, rest)) := by
  cases checked <;> rfl

theorem firstByte_cast (checked : Bool) :
    FirstByte (if checked then Opcode.castChecked else Opcode.castPlain) := by
  have hclass : 4 ≤ (if checked then Opcode.castChecked else Opcode.castPlain).toNat / 16 := by
    cases checked <;> decide
  refine .choice (.same checked .bool) rfl hclass ?_ ?_
  · intro bytes h
    cases checked <;> cases h
  · intro b
    simp only [readInstr_operator_eq_error hclass]
    cases hdst : Ty.ofCode? (b.toNat / 16) with
    | none =>
        refine Or.inr fun rest => ?_
        rw [readOperator_cast_eq, hdst]
        rfl
    | some dst =>
        cases hsrc : Ty.ofCode? (b.toNat % 16) with
        | none =>
            refine Or.inr fun rest => ?_
            rw [readOperator_cast_eq, hdst, hsrc]
            rfl
        | some src =>
            obtain rfl : b = src.tagged dst.code :=
              Ty.eq_tagged (Ty.code_of_ofCode? hdst).symm hsrc
            simp only [readOperator_cast]
            by_cases hsame : dst = src
            · subst hsame
              exact Or.inl ⟨.same checked dst, rfl⟩
            · cases hcast : Opcode.cast? checked dst src with
              | none => exact Or.inr fun rest => by rw [if_neg hsame]; rfl
              | some op =>
                  obtain ⟨hopcode, hchoice⟩ := Opcode.cast?_written hcast
                  refine Or.inl ⟨.op op, ?_⟩
                  rw [Word.bytes, Word.head, Word.tail, hopcode, hchoice]

theorem firstByte_function : FirstByte Opcode.function := by
  refine .choice (.op (.math .ceil)) rfl (by decide) nofun ?_
  intro b
  cases hb : Opcode.function? b with
  | none =>
      refine Or.inr fun rest => ?_
      rw [readInstr_operator_eq_error (by decide)]
      show (orUnknown _ (Opcode.function? b) >>= _) = _
      rw [hb]
      rfl
  | some op =>
      obtain ⟨hopcode, hchoice⟩ := Opcode.function?_written hb
      refine Or.inl ⟨.op op, ?_⟩
      rw [Word.bytes, Word.head, Word.tail, hopcode, hchoice]

theorem firstByte_operator {opcode : UInt8} (hclass : 4 ≤ opcode.toNat / 16) :
    FirstByte opcode := by
  cases hconnective : Opcode.connective? opcode with
  | some op =>
      obtain ⟨rfl, hnone⟩ := Opcode.connective?_written hconnective
      refine .known (.op op) rfl (Or.inr hnone) fun rest bytes h => ?_
      rw [readInstr_operator_eq_error hclass, readOperator, hconnective] at h
      cases h
  | none =>
      cases hfamily : Opcode.family? opcode with
      | some family => exact firstByte_typed hclass hconnective hfamily
      | none =>
          by_cases hplain : opcode = Opcode.castPlain
          · subst hplain
            exact firstByte_cast false
          · by_cases hchecked : opcode = Opcode.castChecked
            · subst hchecked
              exact firstByte_cast true
            · by_cases hfunction : opcode = Opcode.function
              · subst hfunction
                exact firstByte_function
              · refine .undefined fun rest => ?_
                rw [readInstr_operator_eq_error hclass]
                simp only [readOperator, hconnective, hfamily]
                rw [if_neg (not_or_intro hplain hchecked), if_neg hfunction]

theorem firstByte {opcode : UInt8} (hstop : opcode ≠ Opcode.stop) : FirstByte opcode :=
  (Nat.lt_or_ge (opcode.toNat / 16) 4).elim (firstByte_tagged hstop) firstByte_operator

/-- A number without an end is blamed itself. -/
theorem readInstr_endless {w : Word} (hnumber : w.number?.isSome) {rest : Bytes}
    (hrest : Endless rest) : readInstr w.head rest = .error (.unknownCode rest) := by
  cases w with
  | const l =>
      rw [Word.head, readInstr_const, bind_ok_eq_error, readConst_unknown_iff]
      exact ⟨hnumber, hrest, rfl⟩
  | column index t =>
      rw [Word.head, readInstr_column, bind_ok_eq_error, readNat_unknown_iff]
      exact ⟨hrest, rfl⟩
  | _ => cases hnumber

/-- An undefined instruction whose first byte is that of a word is one whose
second byte is wrong. -/
theorem Undefined.exists_choice {opcode : UInt8} {rest : Bytes} (h : Undefined (opcode :: rest))
    {w : Word} (hhead : w.head = opcode) :
    ∃ b after, rest = b :: after ∧ 4 ≤ opcode.toNat / 16 ∧ NoWord [opcode, b] := by
  cases h with
  | opcode rest hnone =>
      subst hhead
      exact absurd ⟨w.tail, rfl⟩ (hnone w)
  | choice after hclass hnone => exact ⟨_, after, rfl, hclass, hnone⟩

section

variable {opcode : UInt8} {rest bytes : Bytes} (hstop : opcode ≠ Opcode.stop)
  (hword : ∀ (w : Word) (after : Bytes), opcode :: rest ≠ w.bytes ++ after)

include hstop hword

theorem undefined_or_overlong (h : readInstr opcode rest = .error (.unknownCode bytes)) :
    Undefined (opcode :: rest) ∧ bytes = opcode :: rest ∨
      Overlong (opcode :: rest) ∧ bytes = rest := by
  cases firstByte hstop with
  | undefined hread =>
      cases h.symm.trans (hread rest)
      exact Or.inl ⟨.opcode rest (noWord_of_forall fun rest => ⟨_, hread rest⟩), rfl⟩
  | number w hhead hclass hnumber hread =>
      obtain ⟨hendless, rfl⟩ := hread rest bytes h
      rw [← hhead]
      exact Or.inr ⟨.number hnumber hendless, rfl⟩
  | known w hhead hclass hread => exact absurd h (hread rest bytes)
  | choice w hhead hclass hread hchoice =>
      cases rest with
      | nil => exact absurd h (hread bytes)
      | cons b after =>
          rcases hchoice b with ⟨w', hw'⟩ | hb
          · exact absurd (congrArg (· ++ after) hw'.symm) (hword w' after)
          · cases h.symm.trans (hb after)
            refine Or.inl ⟨.choice after hclass ?_, rfl⟩
            exact noWord_of_forall_choice fun rest => ⟨_, hb rest⟩

theorem readInstr_of_undefined (h : Undefined (opcode :: rest)) :
    readInstr opcode rest = .error (.unknownCode (opcode :: rest)) := by
  cases firstByte hstop with
  | undefined hread => exact hread rest
  | number w hhead hclass hnumber hread =>
      obtain ⟨b, after, rfl, hclass', -⟩ := h.exists_choice hhead
      exact absurd hclass' (Nat.not_le.mpr hclass)
  | known w hhead hclass hread =>
      obtain ⟨b, after, rfl, hclass', -⟩ := h.exists_choice hhead
      rcases hclass with hclass | htail
      · exact absurd hclass' (Nat.not_le.mpr hclass)
      · -- a word of one byte stands here after all
        refine absurd ?_ (hword w (b :: after))
        rw [Word.bytes, hhead, htail]
        rfl
  | choice w hhead hclass hread hchoice =>
      obtain ⟨b, after, rfl, -, hnone⟩ := h.exists_choice hhead
      rcases hchoice b with ⟨w', hw'⟩ | hb
      · exact absurd ⟨[], by rw [hw']; rfl⟩ (hnone w')
      · exact hb after

/-- Where no word stands, an undefined instruction is blamed from its first
byte on, and an overlong one from its second. -/
theorem readInstr_unknown_iff :
    readInstr opcode rest = .error (.unknownCode bytes) ↔
      Undefined (opcode :: rest) ∧ bytes = opcode :: rest ∨
        Overlong (opcode :: rest) ∧ bytes = rest := by
  constructor
  · exact undefined_or_overlong hstop hword
  · rintro (⟨hundefined, rfl⟩ | ⟨hoverlong, rfl⟩)
    · exact readInstr_of_undefined hstop hword hundefined
    · cases hoverlong with
      | number hnumber hrest => exact readInstr_endless hnumber hrest

end

/-! ## Codes that are stuck -/

/-- The words of a code, and a tail at which it does not go on: no word stands
there, and it is no place to end. -/
structure Stuck (code : Bytes) (words : List Word) (tail : Bytes) : Prop where
  spelled : code = words.flatMap Word.bytes ++ tail
  unended : ¬Ends tail
  wordless : ∀ (w : Word) (after : Bytes), tail ≠ w.bytes ++ after

theorem not_ends_iff {tail : Bytes} :
    ¬Ends tail ↔ ∃ opcode rest, tail = opcode :: rest ∧ opcode ≠ Opcode.stop := by
  cases tail with
  | nil => simp [ends_nil]
  | cons b rest => simp [Ends]

/-- A code is stuck in one place at most. -/
theorem Stuck.unique {tail tail' : Bytes} : ∀ {words words' : List Word} {code : Bytes},
    Stuck code words tail → Stuck code words' tail' → words = words' ∧ tail = tail'
  | [], [], _, h, h' => ⟨rfl, h.spelled.symm.trans h'.spelled⟩
  | [], w' :: words', _, h, h' => by
      have hspelled := h.spelled.symm.trans h'.spelled
      rw [List.flatMap_cons, List.append_assoc] at hspelled
      exact absurd hspelled (h.wordless w' _)
  | w :: words, [], _, h, h' => by
      have hspelled := h'.spelled.symm.trans h.spelled
      rw [List.flatMap_cons, List.append_assoc] at hspelled
      exact absurd hspelled (h'.wordless w _)
  | w :: words, w' :: words', _, h, h' => by
      have hspelled := h.spelled.symm.trans h'.spelled
      rw [List.flatMap_cons, List.flatMap_cons, List.append_assoc, List.append_assoc] at hspelled
      obtain ⟨rfl, hrest⟩ := Word.bytes_append_inj hspelled
      have hrest' : Stuck (words.flatMap Word.bytes ++ tail) words' tail' :=
        ⟨hrest, h'.unended, h'.wordless⟩
      obtain ⟨rfl, rfl⟩ := Stuck.unique ⟨rfl, h.unended, h.wordless⟩ hrest'
      exact ⟨rfl, rfl⟩

/-- Reading fails where a code is stuck, and only there. -/
theorem readProgram_eq_error_iff_stuck {code : Bytes} {e : Fault} :
    readProgram code = .error e ↔
      ∃ (words : List Word) (opcode : UInt8) (rest : Bytes),
        Stuck code words (opcode :: rest) ∧ opcode ≠ Opcode.stop ∧
          readInstr opcode rest = .error e := by
  rw [readProgram_eq_error_iff]
  constructor
  · rintro ⟨words, opcode, rest, hspelled, hstop, hread⟩
    refine ⟨words, opcode, rest, ⟨hspelled, ?_, ?_⟩, hstop, hread⟩
    · exact not_ends_iff.mpr ⟨opcode, rest, rfl, hstop⟩
    · intro w after htail
      obtain ⟨rfl, rfl⟩ := List.cons.inj htail
      cases hread.symm.trans (readInstr_word w after).2
  · rintro ⟨words, opcode, rest, hstuck, hstop, hread⟩
    exact ⟨words, opcode, rest, hstuck.spelled, hstop, hread⟩

end Code

/-! ## Runners -/

namespace Runner

open Code

/-- Decoding fails with unknown code exactly where the code is stuck at an
instruction that is undefined or overlong. If it is undefined, the bytes are
those of the code from the first byte of the instruction to the end. If it is
overlong, that first byte is missing. A code is stuck in one place at most. -/
theorem unknownCode_iff (r : Runner) (code : Bytes) :
    (∀ bytes, (r.decode code).1 = .error (.unknownCode bytes) ↔
      ∃ words tail, Stuck code words tail ∧
        (Undefined tail ∧ bytes = tail ∨ Overlong tail ∧ bytes = tail.drop 1)) ∧
    ∀ words words' tail tail', Stuck code words tail → Stuck code words' tail' →
      words = words' ∧ tail = tail' := by
  refine ⟨fun bytes => ?_, fun _ _ _ _ => Stuck.unique⟩
  have hdecode : (r.decode code).1 = .error (.unknownCode bytes) ↔
      readProgram code = .error (.unknownCode bytes) := by
    cases hread : readProgram code with
    | ok result =>
        rw [decode_of_ok hread]
        exact iff_of_false nofun nofun
    | error e => rw [decode_of_error hread, Except.error.injEq, Except.error.injEq]
  rw [hdecode, readProgram_eq_error_iff_stuck]
  constructor
  · rintro ⟨words, opcode, rest, hstuck, hstop, hread⟩
    refine ⟨words, opcode :: rest, hstuck, ?_⟩
    exact (readInstr_unknown_iff hstop hstuck.wordless).mp hread
  · rintro ⟨words, tail, hstuck, hblamed⟩
    obtain ⟨opcode, rest, rfl, hstop⟩ := not_ends_iff.mp hstuck.unended
    refine ⟨words, opcode, rest, hstuck, hstop, ?_⟩
    exact (readInstr_unknown_iff hstop hstuck.wordless).mpr hblamed

/-- An integer with eleven groups. The instruction starts with the first byte
of the code, which is not among the bytes that are blamed. -/
theorem unknownCode_misplaced :
    let number : Bytes := List.replicate 10 0x80 ++ [0x01]
    let code : Bytes := 0x11 :: number
    Stuck code [] code ∧
      (Runner.new.decode code).1 = .error (.unknownCode number) ∧ number ≠ code := by
  intro number code
  have hread : readInstr 0x11 number = .error (.unknownCode number) := rfl
  have hstuck : Stuck code [] code := by
    refine ⟨rfl, not_ends_iff.mpr ⟨0x11, number, rfl, by decide⟩, ?_⟩
    intro w after hcode
    obtain ⟨hhead, htail⟩ := List.cons.inj hcode
    rw [hhead, htail] at hread
    cases hread.symm.trans (readInstr_word w after).2
  refine ⟨hstuck, ?_, by decide⟩
  rw [decode_of_error (readProgram_of_error (by decide) hread)]

end Runner

end RowCode
