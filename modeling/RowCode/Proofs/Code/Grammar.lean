import RowCode.Proofs.Code.Exact
import RowCode.Runner

/-!
# The grammar of programs

The words are the grammar of programs: what can be read is words and an ending
(`readProgram_eq_ok_iff`), and a code spells out at most one list of them
(`words_unique`), because no word is the beginning of another
(`Word.bytes_append_inj`).

From right to left this is the reading of words. From left to right every
table is walked backwards: the tags, the typed opcodes, the casts and the
functions, each with the bytes that `Operator.opcode` and `Operator.choice`
give (`…_written`).
-/

namespace RowCode

/-! ## Tags -/

theorem NumTy.ty_of_ofTy? {t : Ty} {n : NumTy} (h : ofTy? t = some n) : n.ty = t := by
  cases t <;> cases h <;> rfl

theorem IntTy.ty_of_ofTy? {t : Ty} {n : IntTy} (h : ofTy? t = some n) : n.ty = t := by
  cases t <;> cases h <;> rfl

theorem ValueTy.ty_of_ofTy? {t : Ty} {v : ValueTy} (h : ofTy? t = some v) : v.ty = t := by
  cases t <;> cases h <;> rfl

/-- A byte whose low half is the code of a type. -/
theorem Ty.eq_tagged {b : UInt8} {t : Ty} {group : Nat} (hgroup : b.toNat / 16 = group)
    (htag : ofCode? (b.toNat % 16) = some t) : b = t.tagged group := by
  rw [tagged, code_of_ofCode? htag, ← hgroup, Nat.div_add_mod, UInt8.ofNat_toNat]

/-- A byte that is the code of a type. -/
theorem Ty.eq_tagged_zero {b : UInt8} {t : Ty} (h : ofCode? b.toNat = some t) :
    b = t.tagged 0 := by
  rw [tagged, code_of_ofCode? h, Nat.mul_zero, Nat.zero_add, UInt8.ofNat_toNat]

theorem Ty.tagged_injective {t t' : Ty} {group group' : Nat} (hgroup : group < 16)
    (hgroup' : group' < 16) (h : t.tagged group = t'.tagged group') :
    t = t' ∧ group = group' := by
  have hbytes := congrArg UInt8.toNat h
  rw [t.toNat_tagged hgroup, t'.toNat_tagged hgroup'] at hbytes
  have := t.code_lt
  have := t'.code_lt
  exact ⟨Ty.code_injective (by omega), by omega⟩

/-! ## Operators

Each table of `Opcode` gives back the bytes that `Operator.opcode` and
`Operator.choice` write. -/

namespace Opcode

theorem connective?_written {opcode : UInt8} {op : Operator}
    (h : connective? opcode = some op) : opcode = op.opcode ∧ op.choice = [] := by
  unfold connective? at h
  split at h <;> cases h <;> exact ⟨rfl, rfl⟩

theorem function?_written {number : UInt8} {op : Operator} (h : function? number = some op) :
    op.opcode = function ∧ op.choice = [number] := by
  unfold function? at h
  split at h <;> cases h <;> exact ⟨rfl, rfl⟩

theorem cast?_written {checked : Bool} {dst src : Ty} {op : Operator}
    (h : cast? checked dst src = some op) :
    op.opcode = (if checked then castChecked else castPlain) ∧
      op.choice = [src.tagged dst.code] := by
  unfold cast? at h
  split at h
  · next src' dst' hsrc hdst =>
    split at h
    · next hdefined =>
      cases h
      obtain rfl := ValueTy.ty_of_ofTy? hsrc
      obtain rfl := ValueTy.ty_of_ofTy? hdst
      exact ⟨rfl, rfl⟩
    · cases h
  · cases h

/-- An operator of a typed opcode, with the type behind it. -/
def Typed (opcode : UInt8) (t : Ty) (op : Operator) : Prop :=
  opcode = op.opcode ∧ op.choice = [t.tagged 0]

section

variable {opcode : UInt8} {t : Ty} {op : Operator}

theorem typed_onNumber {f : NumTy → Operator} (hf : ∀ n : NumTy, Typed opcode n.ty (f n))
    (h : onNumber f t = some op) : Typed opcode t op := by
  obtain ⟨n, hn, rfl⟩ := Option.map_eq_some_iff.mp h
  obtain rfl := NumTy.ty_of_ofTy? hn
  exact hf n

theorem typed_onInteger {f : IntTy → Operator} (hf : ∀ n : IntTy, Typed opcode n.ty (f n))
    (h : onInteger f t = some op) : Typed opcode t op := by
  obtain ⟨n, hn, rfl⟩ := Option.map_eq_some_iff.mp h
  obtain rfl := IntTy.ty_of_ofTy? hn
  exact hf n

theorem typed_onValue {f : ValueTy → Operator} (hf : ∀ v : ValueTy, Typed opcode v.ty (f v))
    (h : onValue f t = some op) : Typed opcode t op := by
  obtain ⟨v, hv, rfl⟩ := Option.map_eq_some_iff.mp h
  obtain rfl := ValueTy.ty_of_ofTy? hv
  exact hf v

theorem typed_onAny {f : Ty → Operator} (hf : Typed opcode t (f t))
    (h : onAny f t = some op) : Typed opcode t op := by
  cases h
  exact hf

theorem typed_onNumberOrString {a : ArithOp} {j : Join}
    (harith : ∀ n : NumTy, Typed opcode n.ty (.arith a n))
    (hjoin : Typed opcode .string (.join j)) (h : onNumberOrString a j t = some op) :
    Typed opcode t op := by
  unfold onNumberOrString at h
  split at h
  · next hstring =>
    cases h
    rw [hstring]
    exact hjoin
  · exact typed_onNumber harith h

theorem family?_written {family : Family} (hfamily : family? opcode = some family)
    (h : family t = some op) : Typed opcode t op := by
  unfold family? at hfamily
  split at hfamily <;> cases hfamily
  -- the families in the order of their opcodes: signs, arithmetic, relations, tests, extremes
  · exact typed_onNumber (fun _ => ⟨rfl, rfl⟩) h
  · exact typed_onNumber (fun _ => ⟨rfl, rfl⟩) h
  · exact typed_onNumberOrString (fun _ => ⟨rfl, rfl⟩) ⟨rfl, rfl⟩ h
  · exact typed_onNumberOrString (fun _ => ⟨rfl, rfl⟩) ⟨rfl, rfl⟩ h
  · exact typed_onNumber (fun _ => ⟨rfl, rfl⟩) h
  · exact typed_onNumber (fun _ => ⟨rfl, rfl⟩) h
  · exact typed_onInteger (fun _ => ⟨rfl, rfl⟩) h
  · exact typed_onValue (fun _ => ⟨rfl, rfl⟩) h
  · exact typed_onValue (fun _ => ⟨rfl, rfl⟩) h
  · exact typed_onValue (fun _ => ⟨rfl, rfl⟩) h
  · exact typed_onValue (fun _ => ⟨rfl, rfl⟩) h
  · exact typed_onValue (fun _ => ⟨rfl, rfl⟩) h
  · exact typed_onValue (fun _ => ⟨rfl, rfl⟩) h
  · exact typed_onAny ⟨rfl, rfl⟩ h
  · exact typed_onAny ⟨rfl, rfl⟩ h
  · exact typed_onAny ⟨rfl, rfl⟩ h
  · exact typed_onValue (fun _ => ⟨rfl, rfl⟩) h
  · exact typed_onValue (fun _ => ⟨rfl, rfl⟩) h
  · exact typed_onNumber (fun _ => ⟨rfl, rfl⟩) h
  · exact typed_onNumber (fun _ => ⟨rfl, rfl⟩) h

end

end Opcode

namespace Code

theorem readOperandByte_written {whole code rest : Bytes} {b : UInt8}
    (h : readOperandByte whole code = .ok (b, rest)) : code = b :: rest := by
  cases code with
  | nil => cases h
  | cons c code =>
      cases h
      rfl

/-- What is read behind an opcode outside the tagged classes: an operator, or
a cast from a type to itself. -/
theorem readOperator_written {opcode : UInt8} {whole code rest : Bytes} {op : Option Operator}
    (h : readOperator opcode whole code = .ok (op, rest)) :
    (∃ o : Operator, op = some o ∧ opcode = o.opcode ∧ code = o.choice ++ rest) ∨
      ∃ (checked : Bool) (t : Ty), op = none ∧
        opcode = (if checked then Opcode.castChecked else Opcode.castPlain) ∧
        code = t.tagged t.code :: rest := by
  unfold readOperator at h
  split at h
  · next o hconnective =>
    cases h
    obtain ⟨hopcode, hchoice⟩ := Opcode.connective?_written hconnective
    exact Or.inl ⟨o, rfl, hopcode, by rw [hchoice, List.nil_append]⟩
  · next family _ hfamily =>
    obtain ⟨⟨b, after⟩, hb, h⟩ := bind_eq_ok.1 h
    obtain ⟨t, ht, h⟩ := bind_eq_ok.1 h
    obtain ⟨o, ho, h⟩ := bind_eq_ok.1 h
    cases h
    obtain rfl := readOperandByte_written hb
    obtain ⟨hopcode, hchoice⟩ := Opcode.family?_written hfamily (orUnknown_eq_ok ho)
    refine Or.inl ⟨o, rfl, hopcode, ?_⟩
    rw [hchoice, ← Ty.eq_tagged_zero (orUnknown_eq_ok ht), List.singleton_append]
  · split at h
    · next hcast =>
      obtain ⟨⟨b, after⟩, hb, h⟩ := bind_eq_ok.1 h
      obtain ⟨dst, hdst, h⟩ := bind_eq_ok.1 h
      obtain ⟨src, hsrc, h⟩ := bind_eq_ok.1 h
      have hcode := readOperandByte_written hb
      have hopcode : opcode =
          if decide (opcode = Opcode.castChecked) then Opcode.castChecked
          else Opcode.castPlain := by
        rcases hcast with rfl | rfl <;> rfl
      have htypes : b = src.tagged dst.code :=
        Ty.eq_tagged (Ty.code_of_ofCode? (orUnknown_eq_ok hdst)).symm (orUnknown_eq_ok hsrc)
      split at h
      · next hsame =>
        cases h
        subst hsame
        exact Or.inr ⟨_, dst, rfl, hopcode, by rw [hcode, htypes]⟩
      · obtain ⟨o, ho, h⟩ := bind_eq_ok.1 h
        cases h
        obtain ⟨hcast, hchoice⟩ := Opcode.cast?_written (orUnknown_eq_ok ho)
        refine Or.inl ⟨o, rfl, hopcode.trans hcast.symm, ?_⟩
        rw [hcode, hchoice, htypes, List.singleton_append]
    · split at h
      · next hfunction =>
        obtain ⟨⟨b, after⟩, hb, h⟩ := bind_eq_ok.1 h
        obtain ⟨o, ho, h⟩ := bind_eq_ok.1 h
        cases h
        obtain rfl := readOperandByte_written hb
        obtain ⟨hopcode, hchoice⟩ := Opcode.function?_written (orUnknown_eq_ok ho)
        refine Or.inl ⟨o, rfl, by rw [hopcode, hfunction], ?_⟩
        rw [hchoice, List.singleton_append]
      · cases h

/-! ## Words -/

theorem readInstr_written {opcode : UInt8} {code rest : Bytes} {i : Option Instr}
    (h : readInstr opcode code = .ok (i, rest)) :
    ∃ w : Word, w.instr? = i ∧ opcode :: code = w.bytes ++ rest := by
  unfold readInstr at h
  dsimp only at h
  split at h
  · next hclass =>
    obtain ⟨t, ht, h⟩ := bind_eq_ok.1 h
    cases h
    obtain ⟨t', ht', hvalue⟩ := Option.bind_eq_some_iff.mp (orUnknown_eq_ok ht)
    obtain rfl := ValueTy.ty_of_ofTy? hvalue
    refine ⟨.null t, rfl, ?_⟩
    rw [Ty.eq_tagged hclass ht']
    rfl
  · next hclass =>
    obtain ⟨t, ht, h⟩ := bind_eq_ok.1 h
    obtain ⟨⟨v, after⟩, hv, h⟩ := bind_eq_ok.1 h
    cases h
    obtain ⟨l, hnegated, rfl, rfl, rfl⟩ := readConst_written hv
    refine ⟨.const l, rfl, ?_⟩
    rw [Ty.eq_tagged hclass (orUnknown_eq_ok ht), Word.bytes, Word.head, hnegated]
    rfl
  · next hclass =>
    obtain ⟨t, ht, h⟩ := bind_eq_ok.1 h
    obtain ⟨⟨v, after⟩, hv, h⟩ := bind_eq_ok.1 h
    cases h
    obtain ⟨l, hnegated, rfl, rfl, rfl⟩ := readConst_written hv
    refine ⟨.const l, rfl, ?_⟩
    rw [Ty.eq_tagged hclass (orUnknown_eq_ok ht), Word.bytes, Word.head, hnegated]
    rfl
  · next hclass =>
    obtain ⟨t, ht, h⟩ := bind_eq_ok.1 h
    obtain ⟨⟨index, after⟩, hindex, h⟩ := bind_eq_ok.1 h
    cases h
    obtain ⟨n, rfl, rfl⟩ := exact_readNat.written hindex
    refine ⟨.column n t, rfl, ?_⟩
    rw [Ty.eq_tagged hclass (orUnknown_eq_ok ht)]
    rfl
  · obtain ⟨⟨op, after⟩, hop, h⟩ := bind_eq_ok.1 h
    cases h
    rcases readOperator_written hop with ⟨o, rfl, rfl, rfl⟩ | ⟨checked, t, rfl, rfl, rfl⟩
    · exact ⟨.op o, rfl, rfl⟩
    · exact ⟨.same checked t, rfl, rfl⟩

theorem Varint.bytes_injective {n n' : Varint} (h : n.bytes = n'.bytes) : n = n' := by
  obtain ⟨front, last, _, _, _⟩ := n
  obtain ⟨front', last', _, _, _⟩ := n'
  obtain ⟨rfl, hlast⟩ := List.append_inj' h rfl
  obtain rfl := List.singleton_inj.mp hlast
  rfl

theorem Counted.bytes_injective {s s' : Counted} (h : s.bytes = s'.bytes) : s = s' := by
  have hread := exact_readString.reads s []
  rw [h, exact_readString.reads s'] at hread
  obtain ⟨string, length, counts⟩ := s
  obtain ⟨string', length', counts'⟩ := s'
  cases hread
  obtain rfl := Varint.bytes_injective (List.append_cancel_right h)
  rfl

/-- A constant is known by its value, its class and its bytes. The value alone
is not enough: numbers have several forms, and decimals several texts. -/
theorem Literal.eq_of_payload {l l' : Literal} (hvalue : l.value.ty = l'.value.ty)
    (hnegated : l.negated = l'.negated) (hpayload : l.payload = l'.payload) : l = l' := by
  cases l with
  | int32 negated n =>
      cases l' <;> cases hvalue
      obtain rfl := Varint.bytes_injective hpayload
      exact congrArg (Literal.int32 · n) hnegated
  | int64 negated n =>
      cases l' <;> cases hvalue
      obtain rfl := Varint.bytes_injective hpayload
      exact congrArg (Literal.int64 · n) hnegated
  | bool negated =>
      cases l' <;> cases hvalue
      exact congrArg Literal.bool hnegated
  | float32 bits wide =>
      cases l' <;> cases hvalue
      obtain rfl : bits = _ := hpayload
      rfl
  | float64 bits wide =>
      cases l' <;> cases hvalue
      obtain rfl : bits = _ := hpayload
      rfl
  | decimal text d accepted =>
      cases l' with
      | decimal text' d' accepted' =>
          obtain rfl := Counted.bytes_injective hpayload
          obtain rfl : d = d' := Except.ok.inj (accepted.symm.trans accepted')
          rfl
      | _ => cases hvalue
  | string s =>
      cases l' <;> cases hvalue
      exact congrArg Literal.string (Counted.bytes_injective hpayload)

namespace Word

theorem bytes_injective {w w' : Word} (h : w.bytes = w'.bytes) : w = w' := by
  obtain ⟨hhead, htail⟩ := List.cons.inj h
  have hinstr : w.instr? = w'.instr? := by
    have hread := (readInstr_word w []).2
    rw [hhead, htail, (readInstr_word w' []).2] at hread
    exact (Prod.mk.inj (Except.ok.inj hread)).1.symm
  -- words of different kinds mean different instructions, or only one of them means any
  cases w with
  | null t => cases w' <;> cases hinstr; rfl
  | const l =>
      cases w' with
      | const l' =>
          have hvalue : l.value = l'.value := Instr.const.inj (Option.some.inj hinstr)
          have hclass := (Ty.tagged_injective (by split <;> decide) (by split <;> decide) hhead).2
          have hnegated : l.negated = l'.negated := by
            cases hl : l.negated <;> cases hl' : l'.negated <;> simp [hl, hl'] at hclass ⊢
          rw [Literal.eq_of_payload (congrArg Scalar.ty hvalue) hnegated htail]
      | _ => cases hinstr
  | column index t =>
      cases w' with
      | column index' t' =>
          obtain ⟨-, rfl⟩ := Instr.column.inj (Option.some.inj hinstr)
          rw [Varint.bytes_injective htail]
      | _ => cases hinstr
  | op o => cases w' <;> cases hinstr; rfl
  | same checked t =>
      cases w' with
      | same checked' t' =>
          obtain ⟨rfl, -⟩ := Ty.tagged_injective (Nat.lt_trans t.code_lt (by decide))
            (Nat.lt_trans t'.code_lt (by decide)) (List.singleton_inj.mp htail)
          cases checked <;> cases checked' <;> first | rfl | cases hhead
      | _ => cases hinstr

/-- No word is the beginning of another. -/
theorem bytes_append_inj {w w' : Word} {rest rest' : Bytes}
    (h : w.bytes ++ rest = w'.bytes ++ rest') : w = w' ∧ rest = rest' := by
  obtain ⟨hhead, htail⟩ := List.cons.inj h
  replace htail : w.tail ++ rest = w'.tail ++ rest' := htail
  have hread := (readInstr_word w rest).2
  rw [hhead, htail, (readInstr_word w' rest').2] at hread
  obtain ⟨-, rfl⟩ := Prod.mk.inj (Except.ok.inj hread)
  exact ⟨bytes_injective (List.append_cancel_right h), rfl⟩

end Word

/-! ## Programs -/

/-- Where a program may end: with the code, or at a stop byte. -/
def Ends (tail : Bytes) : Prop :=
  ∀ b ∈ tail.head?, b = Opcode.stop

theorem ends_nil : Ends [] := by
  intro b hb
  cases hb

theorem ends_drop_iff {tail rest : Bytes} :
    Ends tail ∧ tail.drop 1 = rest ↔ tail = Opcode.stop :: rest ∨ (tail = [] ∧ rest = []) := by
  constructor
  · rintro ⟨hends, rfl⟩
    cases tail with
    | nil => exact Or.inr ⟨rfl, rfl⟩
    | cons b rest =>
        obtain rfl := hends b rfl
        exact Or.inl rfl
  · rintro (rfl | ⟨rfl, rfl⟩)
    · refine ⟨?_, rfl⟩
      intro b hb
      exact (Option.some.inj hb).symm
    · exact ⟨ends_nil, rfl⟩

theorem readProgram_of_ends {tail : Bytes} (h : Ends tail) :
    readProgram tail = .ok ([], tail.drop 1) := by
  cases tail with
  | nil => rw [readProgram]; rfl
  | cons b rest => rw [readProgram, if_pos (h b rfl)]; rfl

/-- Words and an ending, read and written. -/
theorem readProgram_eq_ok_iff {code rest : Bytes} {p : Program} :
    readProgram code = .ok (p, rest) ↔
      ∃ (words : List Word) (tail : Bytes),
        code = words.flatMap Word.bytes ++ tail ∧ Ends tail ∧
        words.filterMap Word.instr? = p ∧ tail.drop 1 = rest := by
  constructor
  · intro h
    fun_induction readProgram code generalizing p with
    | case1 =>
        cases h
        exact ⟨[], [], rfl, ends_nil, rfl, rfl⟩
    | case2 after =>
        cases h
        refine ⟨[], Opcode.stop :: rest, rfl, ?_, rfl, rfl⟩
        intro b hb
        exact (Option.some.inj hb).symm
    | case3 => cases h
    | case4 => cases h
    | case5 opcode after _ i after' hi p' rest' hp ih =>
        cases h
        obtain ⟨w, rfl, hw⟩ := readInstr_written hi
        obtain ⟨words, tail, rfl, hends, rfl, rfl⟩ := ih hp
        refine ⟨w :: words, tail, ?_, hends, ?_, rfl⟩
        · rw [hw, List.flatMap_cons, List.append_assoc]
        · rw [List.filterMap_cons]
          cases w.instr? <;> rfl
  · rintro ⟨words, tail, rfl, hends, rfl, rfl⟩
    rw [readProgram_append, readProgram_of_ends hends]
    simp [Except.map]

/-- A code spells out at most one list of words. -/
theorem words_unique {tail tail' : Bytes} (hends : Ends tail) (hends' : Ends tail') :
    ∀ {words words' : List Word},
      words.flatMap Word.bytes ++ tail = words'.flatMap Word.bytes ++ tail' →
        words = words' ∧ tail = tail'
  | [], [], h => ⟨rfl, h⟩
  | [], w' :: words', h => by
      subst h
      exact absurd (hends w'.head rfl) (readInstr_word w' []).1
  | w :: words, [], h => by
      subst h
      exact absurd (hends' w.head rfl) (readInstr_word w []).1
  | w :: words, w' :: words', h => by
      rw [List.flatMap_cons, List.flatMap_cons, List.append_assoc, List.append_assoc] at h
      obtain ⟨rfl, hrest⟩ := Word.bytes_append_inj h
      obtain ⟨rfl, rfl⟩ := words_unique hends hends' hrest
      exact ⟨rfl, rfl⟩

/-- The first `n` bytes of a code spell out words: a stop byte stands behind
them and is counted, or the code ends with them. -/
def Spells (words : List Word) (code : Bytes) (n : Nat) : Prop :=
  (∃ rest, code = words.flatMap Word.bytes ++ Opcode.stop :: rest ∧
      n = (words.flatMap Word.bytes).length + 1) ∨
    (code = words.flatMap Word.bytes ∧ n = code.length)

theorem spells_iff {words : List Word} {code : Bytes} {n : Nat} :
    Spells words code n ↔
      ∃ tail, code = words.flatMap Word.bytes ++ tail ∧ Ends tail ∧
        n = code.length - (tail.drop 1).length := by
  have hcount : ∀ rest : Bytes, (words.flatMap Word.bytes ++ Opcode.stop :: rest).length -
      rest.length = (words.flatMap Word.bytes).length + 1 := by
    intro rest
    simp only [List.length_append, List.length_cons]
    omega
  constructor
  · rintro (⟨rest, rfl, rfl⟩ | ⟨rfl, rfl⟩)
    · obtain ⟨hends, hrest⟩ := ends_drop_iff.mpr (Or.inl rfl)
      exact ⟨Opcode.stop :: rest, rfl, hends, by rw [hrest, hcount]⟩
    · exact ⟨[], (List.append_nil _).symm, ends_nil, rfl⟩
  · rintro ⟨tail, rfl, hends, rfl⟩
    rcases ends_drop_iff.mp ⟨hends, rfl⟩ with htail | ⟨rfl, -⟩
    · refine Or.inl ⟨tail.drop 1, by rw [← htail], ?_⟩
      rw [htail]
      exact hcount _
    · exact Or.inr ⟨List.append_nil _, rfl⟩

theorem spells_unique {words words' : List Word} {code : Bytes} {n n' : Nat}
    (h : Spells words code n) (h' : Spells words' code n') : words = words' ∧ n = n' := by
  obtain ⟨tail, hcode, hends, rfl⟩ := spells_iff.mp h
  obtain ⟨tail', hcode', hends', rfl⟩ := spells_iff.mp h'
  obtain ⟨rfl, rfl⟩ := words_unique hends hends' (hcode.symm.trans hcode')
  exact ⟨rfl, rfl⟩

end Code

/-- The instructions that have a form in code. -/
def Instr.Writable : Instr → Prop
  | const v => Code.Writable v
  | column index _ => index < 2 ^ 64
  | _ => True

theorem Instr.writable_iff {i : Instr} : i.Writable ↔ ∃ w : Code.Word, w.instr? = some i := by
  constructor
  · intro h
    cases i with
    | null t => exact ⟨.null t, rfl⟩
    | const v =>
        obtain ⟨l, rfl⟩ := Code.Literal.exists_value h
        exact ⟨.const l, rfl⟩
    | column index t =>
        obtain ⟨n, hn⟩ := Code.Varint.exists_value (UInt64.ofNat index)
        refine ⟨.column n t, ?_⟩
        rw [Code.Word.instr?, hn, UInt64.toNat_ofNat_of_lt' h]
    | op o => exact ⟨.op o, rfl⟩
  · rintro ⟨w, hw⟩
    cases w with
    | null t => cases hw; exact trivial
    | const l => cases hw; exact l.writable_value
    | column n t => cases hw; exact n.value.toNat_lt
    | op o => cases hw; exact trivial
    | same checked t => cases hw

/-- The programs that have a code are those of instructions that have one. -/
theorem Program.writable_iff (p : Program) :
    (∀ i ∈ p, i.Writable) ↔
      ∃ words : List Code.Word, words.filterMap Code.Word.instr? = p := by
  constructor
  · intro h
    induction p with
    | nil => exact ⟨[], rfl⟩
    | cons i p ih =>
        obtain ⟨w, hw⟩ := Instr.writable_iff.mp (h i (List.mem_cons_self ..))
        obtain ⟨words, rfl⟩ := ih fun j hj => h j (List.mem_cons_of_mem _ hj)
        exact ⟨w :: words, List.filterMap_cons_some hw⟩
  · rintro ⟨words, rfl⟩ i hi
    obtain ⟨w, -, hw⟩ := List.mem_filterMap.mp hi
    exact Instr.writable_iff.mpr ⟨w, hw⟩

/-- A runner accepts a code exactly if it starts with words that a stop byte or
the end of the code follows, and then holds their instructions and has taken
the bytes up to there. The words are determined by the code. Every program
whose constants and column indices can be written has words, and whichever
words it is written in, and whatever stands behind its stop byte, the runner
comes to hold that program, constants and all. -/
theorem Runner.decode_iff_spells (r : Runner) :
    (∀ (code : Bytes) (n : Nat) (p : Program),
      r.decode code = (.ok n, { r with program := p }) ↔
        ∃ words, Code.Spells words code n ∧ words.filterMap Code.Word.instr? = p) ∧
    (∀ (code : Bytes) (words words' : List Code.Word) (n n' : Nat),
      Code.Spells words code n → Code.Spells words' code n' → words = words' ∧ n = n') ∧
    ∀ p : Program,
      ((∀ i ∈ p, i.Writable) ↔
        ∃ words : List Code.Word, words.filterMap Code.Word.instr? = p) ∧
      ∀ (words : List Code.Word) (suffix : Bytes), words.filterMap Code.Word.instr? = p →
        let bytes := words.flatMap Code.Word.bytes
        r.decode (bytes ++ Opcode.stop :: suffix) =
          (.ok (bytes.length + 1), { r with program := p }) := by
  have hdecode : ∀ (code : Bytes) (n : Nat) (p : Program),
      r.decode code = (.ok n, { r with program := p }) ↔
        ∃ words, Code.Spells words code n ∧ words.filterMap Code.Word.instr? = p := by
    intro code n p
    constructor
    · intro h
      rw [decode] at h
      split at h
      · next p' rest hread =>
        obtain ⟨hn, hp⟩ := Prod.mk.inj h
        obtain rfl := Except.ok.inj hn
        obtain rfl : p' = p := congrArg Runner.program hp
        obtain ⟨words, tail, hcode, hends, hp', rfl⟩ := Code.readProgram_eq_ok_iff.mp hread
        exact ⟨words, Code.spells_iff.mpr ⟨tail, hcode, hends, rfl⟩, hp'⟩
      · cases (Prod.mk.inj h).1
    · rintro ⟨words, hspells, rfl⟩
      obtain ⟨tail, hcode, hends, rfl⟩ := Code.spells_iff.mp hspells
      rw [decode, Code.readProgram_eq_ok_iff.mpr ⟨words, tail, hcode, hends, rfl, rfl⟩]
  refine ⟨hdecode, fun _ _ _ _ _ => Code.spells_unique, fun p => ⟨Program.writable_iff p, ?_⟩⟩
  rintro words suffix rfl bytes
  exact (hdecode _ _ _).mpr ⟨words, Or.inl ⟨suffix, rfl, rfl⟩, rfl⟩

/-- A cast of strings to truth values is not in the table, though both types
have a code. -/
theorem Runner.decode_cast_undefined :
    Ty.ofCode? 3 = some .bool ∧ Ty.ofCode? 7 = some .string ∧
      (Runner.new.decode [Opcode.castPlain, 0x37]).1 =
        .error (.unknownCode [Opcode.castPlain, 0x37]) := by
  have hinstr : Code.readInstr Opcode.castPlain [0x37] =
      .error (.unknownCode [Opcode.castPlain, 0x37]) := rfl
  have hread : Code.readProgram [Opcode.castPlain, 0x37] =
      .error (.unknownCode [Opcode.castPlain, 0x37]) := by
    rw [Code.readProgram, if_neg (by decide)]
    split
    · next e he =>
      cases hinstr.symm.trans he
      rfl
    · next i rest hi => cases hinstr.symm.trans hi
  refine ⟨rfl, rfl, ?_⟩
  rw [decode, hread]

end RowCode
