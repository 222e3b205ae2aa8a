import RowCode.Proofs.Code.Grammar

/-!
# Codes with more bytes behind them

What a reader makes of a code when more bytes are put behind it (`Grows`). A
value that was read is read again, with the new bytes behind it. A fault stays
the fault it was, except that the bytes of an instruction that does not exist
reach to the end of the code and so take in the new ones. Only a code that is
cut off may turn out to be anything.

Programs are different in one respect: a program may end with the code, and
then the new bytes are instructions of it. `Runner.decode_concat` has all
cases.
-/

namespace RowCode

namespace Fault

/-- The fault with more bytes behind the code. -/
def grow (more : Bytes) : Fault → Fault
  | unknownCode bytes => unknownCode (bytes ++ more)
  | e => e

/-- A fault that more bytes behind the code do not mend. -/
def Lasts : Fault → Prop
  | truncated _ => False
  | _ => True

end Fault

namespace Code

/-- Two results of a reader, the second one with more bytes behind the code. -/
inductive Grows {α : Type} (more : Bytes) :
    Except Fault (α × Bytes) → Except Fault (α × Bytes) → Prop where
  | ok (v : α) (rest : Bytes) : Grows more (.ok (v, rest)) (.ok (v, rest ++ more))
  | error {e : Fault} (h : e.Lasts) : Grows more (.error e) (.error (e.grow more))
  | truncated (bytes : Bytes) (result : Except Fault (α × Bytes)) :
      Grows more (.error (.truncated bytes)) result

section

variable {α β : Type} {more : Bytes}

theorem Grows.bind {x x' : Except Fault (α × Bytes)} {f f' : α × Bytes → Except Fault (β × Bytes)}
    (h : Grows more x x') (hf : ∀ v rest, Grows more (f (v, rest)) (f' (v, rest ++ more))) :
    Grows more (x >>= f) (x' >>= f') := by
  cases h with
  | ok v rest => exact hf v rest
  | error h => exact .error h
  | truncated bytes => exact .truncated bytes _

/-- What a byte does not find, it does not find in a longer code either. -/
theorem grows_orUnknown_bind {whole : Bytes} {o : Option α} {f f' : α → Except Fault (β × Bytes)}
    (hf : ∀ v, Grows more (f v) (f' v)) :
    Grows more (orUnknown whole o >>= f) (orUnknown (whole ++ more) o >>= f') := by
  cases o with
  | none => exact .error trivial
  | some v => exact hf v

theorem Exact.append {ω : Type} {read : Bytes → Except Fault (α × Bytes)} {bytes : ω → Bytes}
    {value : ω → α} (h : Exact read bytes value) {code rest : Bytes} {v : α}
    (hread : read code = .ok (v, rest)) (more : Bytes) :
    read (code ++ more) = .ok (v, rest ++ more) := by
  obtain ⟨w, rfl, rfl⟩ := h.written hread
  rw [List.append_assoc]
  exact h.reads w _

end

/-! ## Values -/

section

variable (more : Bytes)

theorem readGroups_tooLong : ∀ {room : Nat} {code : Bytes},
    readGroups room code = .error .tooLong → readGroups room (code ++ more) = .error .tooLong
  | _, [], h => by simp [readGroups] at h
  | 0, _ :: _, _ => rfl
  | room + 1, b :: code, h => by
      rw [List.cons_append]
      simp only [readGroups] at h ⊢
      split at h
      · cases h
      · next hmore =>
        rw [if_neg hmore]
        split at h
        · next e he =>
          cases h
          rw [readGroups_tooLong he]
        · cases h

theorem grows_readVarint (code : Bytes) :
    Grows more (readVarint code) (readVarint (code ++ more)) := by
  cases hgroups : readGroups maxGroups code with
  | ok r =>
      have hread : readVarint code = .ok (UInt64.ofNat r.1, r.2) := by rw [readVarint, hgroups]
      rw [hread, exact_readVarint.append hread more]
      exact .ok _ _
  | error e =>
      rw [readVarint, readVarint, hgroups]
      cases e with
      | tooLong =>
          rw [readGroups_tooLong more hgroups]
          exact .error trivial
      | cutOff => exact .truncated _ _

theorem grows_readNat (code : Bytes) : Grows more (readNat code) (readNat (code ++ more)) := by
  have h := grows_readVarint more code
  rw [readNat, readNat]
  generalize readVarint code = x, readVarint (code ++ more) = x' at h
  cases h with
  | ok n rest => exact .ok _ _
  | error h => exact .error h
  | truncated bytes => exact .truncated bytes _

theorem grows_readBytes (count : Nat) (code : Bytes) :
    Grows more (readBytes count code) (readBytes count (code ++ more)) := by
  rw [readBytes, readBytes]
  by_cases hcount : count ≤ code.length
  · have hcount' : count ≤ (code ++ more).length :=
      Nat.le_trans hcount (List.length_append ▸ Nat.le_add_right ..)
    rw [if_pos hcount, if_pos hcount', List.take_append_of_le_length hcount,
      List.drop_append_of_le_length hcount]
    exact .ok _ _
  · rw [if_neg hcount]
    exact .truncated _ _

theorem grows_readBinary (f : Format) (code : Bytes) :
    Grows more (readBinary f code) (readBinary f (code ++ more)) := by
  have h := grows_readBytes more (f.width / 8) code
  rw [readBinary, readBinary]
  generalize readBytes (f.width / 8) code = x, readBytes (f.width / 8) (code ++ more) = x' at h
  cases h with
  | ok bits rest => exact .ok _ _
  | error h => exact .error h
  | truncated bytes => exact .truncated bytes _

theorem grows_readString (code : Bytes) :
    Grows more (readString code) (readString (code ++ more)) := by
  have h := grows_readNat more code
  rw [readString, readString]
  generalize readNat code = x, readNat (code ++ more) = x' at h
  cases h with
  | error h => exact .error h
  | truncated bytes => exact .truncated bytes _
  | ok length rest =>
      have hbytes := grows_readBytes more length rest
      dsimp only
      generalize readBytes length rest = y, readBytes length (rest ++ more) = y' at hbytes
      cases hbytes with
      | error h => exact .error h
      | truncated bytes => exact .truncated bytes _
      | ok bytes rest =>
          dsimp only
          cases String.fromUTF8? ⟨bytes.toArray⟩ with
          | some s => exact .ok _ _
          | none => exact .error trivial

/-! ## Instructions -/

theorem lasts_of_readDecimal {s : String} {e : Fault} (h : readDecimal s = .error e) :
    e.Lasts ∧ e.grow more = e := by
  rw [readDecimal] at h
  rcases hparse : Decimal.parse s with (_ | _) | d
  all_goals rw [hparse] at h; cases h
  · exact ⟨trivial, rfl⟩
  · exact ⟨trivial, rfl⟩

theorem grows_readConst (negate : Bool) (t : Ty) (whole code : Bytes) :
    Grows more (readConst negate t whole code)
      (readConst negate t (whole ++ more) (code ++ more)) := by
  unfold readConst
  split
  · exact (grows_readVarint more code).bind fun _ _ => .ok _ _
  · exact (grows_readVarint more code).bind fun _ _ => .ok _ _
  · exact .ok _ _
  · exact (grows_readBinary more _ code).bind fun _ _ => .ok _ _
  · exact (grows_readBinary more _ code).bind fun _ _ => .ok _ _
  · refine (grows_readString more code).bind fun s rest => ?_
    dsimp only
    cases hs : readDecimal s with
    | ok d => exact .ok _ _
    | error e =>
        obtain ⟨hlasts, hgrow⟩ := lasts_of_readDecimal more hs
        have h : @Grows Scalar more (.error _) (.error _) := .error hlasts
        rwa [hgrow] at h
  · exact (grows_readString more code).bind fun _ _ => .ok _ _
  · exact .error trivial

theorem grows_readOperandByte (whole code : Bytes) :
    Grows more (readOperandByte whole code) (readOperandByte (whole ++ more) (code ++ more)) := by
  cases code with
  | nil => exact .truncated _ _
  | cons b code => exact .ok _ _

theorem grows_readOperator (opcode : UInt8) (whole code : Bytes) :
    Grows more (readOperator opcode whole code)
      (readOperator opcode (whole ++ more) (code ++ more)) := by
  have hbyte := grows_readOperandByte more whole code
  unfold readOperator
  split
  · exact .ok _ _
  · refine hbyte.bind fun b rest => ?_
    refine grows_orUnknown_bind fun t => ?_
    exact grows_orUnknown_bind fun op => .ok _ _
  · split
    · refine hbyte.bind fun b rest => ?_
      refine grows_orUnknown_bind fun dst => ?_
      refine grows_orUnknown_bind fun src => ?_
      split
      · exact .ok _ _
      · exact grows_orUnknown_bind fun op => .ok _ _
    · split
      · refine hbyte.bind fun b rest => ?_
        exact grows_orUnknown_bind fun op => .ok _ _
      · exact .error trivial

theorem grows_readInstr (opcode : UInt8) (code : Bytes) :
    Grows more (readInstr opcode code) (readInstr opcode (code ++ more)) := by
  unfold readInstr
  simp only [← List.cons_append]
  split
  · exact grows_orUnknown_bind fun t => .ok _ _
  · refine grows_orUnknown_bind fun t => ?_
    exact (grows_readConst more _ t _ code).bind fun _ _ => .ok _ _
  · refine grows_orUnknown_bind fun t => ?_
    exact (grows_readConst more _ t _ code).bind fun _ _ => .ok _ _
  · refine grows_orUnknown_bind fun t => ?_
    exact (grows_readNat more code).bind fun _ _ => .ok _ _
  · exact (grows_readOperator more opcode _ code).bind fun _ _ => .ok _ _

end

/-! ## Programs -/

theorem readProgram_of_error {opcode : UInt8} {rest : Bytes} {e : Fault}
    (hstop : opcode ≠ Opcode.stop) (h : readInstr opcode rest = .error e) :
    readProgram (opcode :: rest) = .error e := by
  rw [readProgram, if_neg hstop]
  split
  · next e' he =>
    cases h.symm.trans he
    rfl
  · next hi => cases h.symm.trans hi

/-- A program fails to be read where its words end and no instruction follows. -/
theorem readProgram_eq_error_iff {code : Bytes} {e : Fault} :
    readProgram code = .error e ↔
      ∃ (words : List Word) (opcode : UInt8) (rest : Bytes),
        code = words.flatMap Word.bytes ++ opcode :: rest ∧ opcode ≠ Opcode.stop ∧
        readInstr opcode rest = .error e := by
  constructor
  · intro h
    fun_induction readProgram code with
    | case1 => cases h
    | case2 => cases h
    | case3 opcode rest hstop e' hi =>
        cases h
        exact ⟨[], opcode, rest, rfl, hstop, hi⟩
    | case4 opcode rest hstop i rest' hi e' he ih =>
        cases h
        obtain ⟨w, -, hw⟩ := readInstr_written hi
        obtain ⟨words, opcode', rest'', rfl, hstop', hfault⟩ := ih he
        refine ⟨w :: words, opcode', rest'', ?_, hstop', hfault⟩
        rw [hw, List.flatMap_cons, List.append_assoc]
    | case5 => cases h
  · rintro ⟨words, opcode, rest, rfl, hstop, hfault⟩
    rw [readProgram_append, readProgram_of_error hstop hfault]
    rfl

theorem readProgram_append_of_error {code : Bytes} {e : Fault} (h : readProgram code = .error e)
    (hlasts : e.Lasts) (more : Bytes) : readProgram (code ++ more) = .error (e.grow more) := by
  obtain ⟨words, opcode, rest, rfl, hstop, hfault⟩ := readProgram_eq_error_iff.mp h
  have hgrows := grows_readInstr more opcode rest
  rw [hfault] at hgrows
  generalize hresult : readInstr opcode (rest ++ more) = result at hgrows
  refine readProgram_eq_error_iff.mpr ⟨words, opcode, rest ++ more, ?_, hstop, ?_⟩
  · rw [List.append_assoc, List.cons_append]
  · cases hgrows with
    | error _ => exact hresult
    | truncated _ _ => exact hlasts.elim

end Code

/-! ## Runners -/

namespace Runner

open Code

theorem decode_of_ok {code rest : Bytes} {p : Program} (h : readProgram code = .ok (p, rest))
    (r : Runner) :
    r.decode code = (.ok (code.length - rest.length), { r with program := p }) := by
  rw [decode, h]

theorem decode_of_error {code : Bytes} {e : Fault} (h : readProgram code = .error e)
    (r : Runner) : r.decode code = (.error e, { r with program := [] }) := by
  rw [decode, h]

/-- Words without a stop byte behind them leave the end to what follows. -/
theorem decode_words_append (r : Runner) (words : List Word) (code : Bytes) :
    r.decode (words.flatMap Word.bytes ++ code) =
      match r.decode code with
      | (.ok n, r') =>
        (.ok ((words.flatMap Word.bytes).length + n),
          { r with program := words.filterMap Word.instr? ++ r'.program })
      | (.error e, r') => (.error e, r') := by
  have hread := readProgram_append code words
  cases hcode : readProgram code with
  | error e =>
      rw [hcode] at hread
      rw [decode_of_error hread, decode_of_error hcode]
  | ok result =>
      obtain ⟨p, rest⟩ := result
      have hlength := readProgram_length hcode
      rw [hcode] at hread
      rw [decode_of_ok hread, decode_of_ok hcode, List.length_append]
      simp only [Nat.add_sub_assoc hlength]

theorem decode_stopped (r : Runner) (words : List Word) (rest : Bytes) :
    r.decode (words.flatMap Word.bytes ++ Opcode.stop :: rest) =
      (.ok ((words.flatMap Word.bytes).length + 1),
        { r with program := words.filterMap Word.instr? }) := by
  have hcount : (words.flatMap Word.bytes ++ Opcode.stop :: rest).length - rest.length =
      (words.flatMap Word.bytes).length + 1 := by
    rw [List.length_append, List.length_cons]
    omega
  rw [decode_of_ok (readProgram_words rest words), hcount]

/-- Decoding succeeds only at the end of the words or at a stop byte. -/
theorem words_of_decode {r : Runner} {code : Bytes} {n : Nat} (h : (r.decode code).1 = .ok n) :
    ∃ words : List Word, code = words.flatMap Word.bytes ∨
      ∃ rest, code = words.flatMap Word.bytes ++ Opcode.stop :: rest := by
  cases hread : readProgram code with
  | error e =>
      rw [decode_of_error hread] at h
      cases h
  | ok result =>
      obtain ⟨words, tail, rfl, hends, -, -⟩ := readProgram_eq_ok_iff.mp hread
      rcases ends_drop_iff.mp ⟨hends, rfl⟩ with htail | ⟨rfl, -⟩
      · exact ⟨words, Or.inr ⟨tail.drop 1, congrArg _ htail⟩⟩
      · exact ⟨words, Or.inl (List.append_nil _)⟩

theorem decode_append_of_error {r : Runner} {code : Bytes} {e : Fault}
    (h : (r.decode code).1 = .error e) (hlasts : e.Lasts) (more : Bytes) :
    r.decode (code ++ more) = (.error (e.grow more), (r.decode code).2) := by
  cases hread : readProgram code with
  | ok result =>
      rw [decode_of_ok hread] at h
      cases h
  | error e' =>
      rw [decode_of_error hread] at h ⊢
      obtain rfl := Except.error.inj h
      exact decode_of_error (readProgram_append_of_error hread hlasts more) r

/-- Decoding a code with another one behind it. A code that is words to its end
is continued by the other: the other decides whether decoding succeeds, its
program comes behind and its bytes are counted on. A stop byte keeps all that
follows out. These are the two ways in which decoding succeeds. A code that
fails for any other reason than being cut off fails in the same way, and an
instruction that does not exist is reported with the new bytes too. -/
theorem decode_concat (r : Runner) (a b : Bytes) :
    (∀ words : List Word, a = words.flatMap Word.bytes →
      let p := words.filterMap Word.instr?
      r.decode a = (.ok a.length, { r with program := p }) ∧
      r.decode (a ++ b) =
        match r.decode b with
        | (.ok n, r') => (.ok (a.length + n), { r with program := p ++ r'.program })
        | (.error e, r') => (.error e, r')) ∧
    (∀ (words : List Word) (rest : Bytes),
      a = words.flatMap Word.bytes ++ Opcode.stop :: rest →
      r.decode a =
          (.ok ((words.flatMap Word.bytes).length + 1),
            { r with program := words.filterMap Word.instr? }) ∧
        r.decode (a ++ b) = r.decode a) ∧
    (∀ n, (r.decode a).1 = .ok n →
      ∃ words : List Word, a = words.flatMap Word.bytes ∨
        ∃ rest, a = words.flatMap Word.bytes ++ Opcode.stop :: rest) ∧
    ∀ e, (r.decode a).1 = .error e → e.Lasts →
      r.decode (a ++ b) = (.error (e.grow b), (r.decode a).2) := by
  refine ⟨?_, ?_, fun n => words_of_decode, fun e h hlasts => decode_append_of_error h hlasts b⟩
  · rintro words rfl p
    refine ⟨?_, r.decode_words_append words b⟩
    have halone := r.decode_words_append words []
    have hempty : r.decode [] = (.ok 0, { r with program := [] }) :=
      decode_of_ok (readProgram_of_ends ends_nil) r
    rw [hempty, List.append_nil] at halone
    rw [halone]
    simp only [Nat.add_zero, List.append_nil, p]
  · rintro words rest rfl
    refine ⟨r.decode_stopped words rest, ?_⟩
    rw [List.append_assoc, List.cons_append, decode_stopped, decode_stopped]

end Runner

end RowCode
