import RowCode.Json.Row
import RowCode.Proofs.Json.Decimal
import RowCode.Proofs.Json.Reread
import RowCode.Proofs.Json.Token
import RowCode.Proofs.Operator.Integer

/-!
# Rows read back

Every operand is written as tokens that do not depend on what stands around
them, and the reader takes exactly those (`exists_tokens_writeOperand`). So a row
comes back column by column (`readRow?_eq`), and what becomes of a row is what
becomes of its operands (`Operand.reread`).

Nulls, integers, truth values and strings come back as they are. A decimal comes
back as the pair that its text shows, and a float as what the reader makes of its
figures, or not at all if it has none. The first loses equality where a carry is
lost, the second where two roundings are one too many (`Operand.Survives`).
-/

namespace RowCode

open Json

/-! ## What comes back -/

/-- What a scalar comes back as, if it does. -/
def Scalar.reread : Scalar → Option Scalar
  | .float32 x => x.reread.map .float32
  | .float64 x => x.reread.map .float64
  | .decimal d => some (.decimal d.rewritten)
  | v => some v

/-- What an operand comes back as, if it does. -/
def Operand.reread : Operand → Option Operand
  | none => some none
  | some v => v.reread.map some

namespace Json

/-! ## Values -/

/-- The scale of every decimal is a 64-bit integer. -/
def HasScales (row : Row) : Prop :=
  ∀ d : Decimal, some (.decimal d) ∈ row → Decimal.isScale d.scale = true

theorem ends_closeBrace (rest : List Char) : Ends ('\x7d' :: rest) := by
  rintro c ⟨rfl⟩
  decide

theorem ofInt_ne_nil (n : Int) : Text.ofInt n ≠ [] := by
  unfold Text.ofInt Text.signed
  split
  · exact List.cons_ne_nil _ _
  · exact Text.digits_ne_nil _

section

variable {t : IntTy}

theorem readToken?_toInt (c : t.Carrier) (rest : List Char) :
    readToken? (Text.ofInt (t.toInt c) ++ '\x7d' :: rest) =
      some (.number (.integer (t.toInt c)), '\x7d' :: rest) := by
  have hrange := Window.contains_iff.mp (IntTy.contains_toInt c)
  have hwide : -2 ^ 63 ≤ t.window.least ∧ t.window.greatest < 2 ^ 63 := by
    cases t <;> decide
  rw [readToken?_of_readParts? (readParts?_ofInt _ (ends_closeBrace rest)),
    toNumber?_integer (hwide.1.trans hrange.1) (hrange.2.trans_lt hwide.2)]
  rfl

theorem readInteger?_toInt (c : t.Carrier) :
    readInteger? t.window (.number (.integer (t.toInt c))) = some c := by
  rw [readInteger?, Window.member?, if_pos (IntTy.contains_toInt c), IntTy.ofInt_toInt]

end

/-- A float is a number, or `null` if it is not finite. -/
theorem exists_token_writeFloat {f : Format} (x : Binary f) :
    ∃ t, writeFloat x ≠ [] ∧ readFloat? t = x.reread ∧
      ∀ rest, readToken? (writeFloat x ++ '\x7d' :: rest) = some (t, '\x7d' :: rest) := by
  by_cases hx : x.isFinite = true
  · rw [writeFloat, if_pos hx]
    obtain ⟨y, hy⟩ := Option.isSome_iff_exists.mp (Binary.isSome_scaleByTen_written hx)
    refine ⟨.number (.real (if x.negative then y.neg else y)), ?_, ?_, fun rest => ?_⟩
    · obtain ⟨p, hparts, -⟩ := Binary.readParts?_text hx .nil
      obtain ⟨c, t, hcons, -⟩ := head_of_readParts? hparts
      rw [List.append_nil] at hcons
      rw [hcons]
      exact List.cons_ne_nil c t
    · rw [Binary.reread, if_pos hx, hy]
      rfl
    · obtain ⟨p, hparts, hnumber⟩ := Binary.readParts?_text hx (ends_closeBrace rest)
      rw [readToken?_of_readParts? hparts, hnumber, hy]
      rfl
  · rw [writeFloat, if_neg hx, Binary.reread, if_neg hx]
    exact ⟨.null, by decide, rfl, fun _ => rfl⟩

/-- A value is one token, and the token tells what comes back. -/
theorem exists_token_writeValue {v : Scalar}
    (hscale : ∀ d, v = .decimal d → Decimal.isScale d.scale = true) :
    ∃ t, writeValue v ≠ [] ∧
      (∀ rest, readToken? (writeValue v ++ '\x7d' :: rest) = some (t, '\x7d' :: rest)) ∧
      ∀ ts, readValue? v.ty (t :: ts) = v.reread.map fun w => (some w, ts) := by
  cases v with
  | int32 n =>
      refine ⟨_, ofInt_ne_nil _, readToken?_toInt (t := .int32) n, fun ts => ?_⟩
      change ((readInteger? (IntTy.window .int32) _).map _).map _ = _
      rw [readInteger?_toInt (t := .int32) n]
      rfl
  | int64 n =>
      refine ⟨_, ofInt_ne_nil _, readToken?_toInt (t := .int64) n, fun ts => ?_⟩
      change ((readInteger? (IntTy.window .int64) _).map _).map _ = _
      rw [readInteger?_toInt (t := .int64) n]
      rfl
  | bool b => cases b <;> exact ⟨.bool _, nofun, fun _ => rfl, fun _ => rfl⟩
  | float32 x =>
      obtain ⟨t, hne, hfloat, htoken⟩ := exists_token_writeFloat x
      refine ⟨t, hne, htoken, fun ts => ?_⟩
      change ((readFloat? t).map _).map _ = _
      rw [hfloat, Scalar.reread, Option.map_map, Option.map_map]
      rfl
  | float64 x =>
      obtain ⟨t, hne, hfloat, htoken⟩ := exists_token_writeFloat x
      refine ⟨t, hne, htoken, fun ts => ?_⟩
      change ((readFloat? t).map _).map _ = _
      rw [hfloat, Scalar.reread, Option.map_map, Option.map_map]
      rfl
  | decimal d =>
      refine ⟨_, List.cons_ne_nil _ _, fun _ => readToken?_exchangeQuoted _ _, fun ts => ?_⟩
      change ((Decimal.readPair? d.exchangeText).map _).map _ = _
      rw [Decimal.readPair?_exchangeText (hscale d rfl)]
      rfl
  | string s =>
      refine ⟨_, List.cons_ne_nil _ _, fun _ => readToken?_exchangeQuoted _ _, fun ts => ?_⟩
      change some (some (Scalar.string (String.ofList s.toList)), ts) = _
      rw [String.ofList_toList]
      rfl

/-! ## Operands -/

/-- The name of a type, as a token. -/
def nameToken (t : Ty) : Token :=
  .string (typeName t).toList ((typeName t).toList.all isBare)

theorem lexes_writeType (t : Ty) {rest : List Char} {ts : List Token} (h : Lexes rest ts) :
    Lexes (writeType t ++ rest) (nameToken t :: ts) :=
  .cons (List.cons_ne_nil _ _) (readToken?_exchangeQuoted _ rest) h

theorem typeOfName?_typeName (t : Ty) : typeOfName? (typeName t).toList = some t := by
  cases t <;> decide

theorem lexes_punctuation {c : Char} {t : Token} {rest : List Char} {ts : List Token}
    (h : readToken? (c :: rest) = some (t, rest)) (hrest : Lexes rest ts) :
    Lexes (c :: rest) (t :: ts) :=
  .cons (List.cons_ne_nil c []) h hrest

/-- The tokens of an operand do not depend on what stands behind it, and they
tell what comes back. -/
theorem exists_tokens_writeOperand {v : Operand}
    (hscale : ∀ d, v = some (.decimal d) → Decimal.isScale d.scale = true) :
    ∃ ts, 0 < ts.length ∧
      (∀ rest us, Lexes rest us → Lexes (writeOperand v ++ rest) (ts ++ us)) ∧
      ∀ us, readOperand? (ts ++ us) = v.reread.map fun w => (w, us) := by
  cases v with
  | none =>
      refine ⟨[nameToken .null], Nat.one_pos, fun rest us hus => lexes_writeType .null hus,
        fun us => ?_⟩
      have hname := typeOfName?_typeName .null
      simp only [List.cons_append, List.nil_append, nameToken, readOperand?, hname, if_true]
      rfl
  | some v =>
      obtain ⟨t, hne, htoken, hvalue⟩ :=
        exists_token_writeValue fun d hd => hscale d (congrArg some hd)
      refine ⟨[.openBrace, nameToken v.ty, .colon, t, .closeBrace], Nat.succ_pos _,
        fun rest us hus => ?_, fun us => ?_⟩
      · have hsplit : writeOperand (some v) ++ rest =
            '\x7b' :: (writeType v.ty ++ ':' :: (writeValue v ++ '\x7d' :: rest)) := by
          simp [writeOperand]
        rw [hsplit]
        have hvalueLexes := Lexes.cons hne (htoken rest) (lexes_punctuation rfl hus)
        exact lexes_punctuation rfl (lexes_writeType v.ty (lexes_punctuation rfl hvalueLexes))
      · have hname := typeOfName?_typeName v.ty
        simp only [List.cons_append, List.nil_append, nameToken, readOperand?, hname, hvalue,
          Option.bind_eq_bind, Option.bind_some, Operand.reread]
        cases v.reread <;> rfl

/-! ## Rows -/

/-- The operands of a row, up to the bracket that closes it. -/
theorem exists_tokens_writeOperands : ∀ {v : Operand} {row : Row}, HasScales (v :: row) →
    ∃ ts, row.length + 1 < ts.length ∧
      Lexes (List.intercalate [','] ((v :: row).map writeOperand) ++ [']']) ts ∧
      ∀ fuel, row.length < fuel → readOperands? fuel ts = (v :: row).mapM Operand.reread
  | v, [], h => by
      obtain ⟨ts, hpos, hlexes, hread⟩ :=
        exists_tokens_writeOperand (v := v) fun d hd => h d (hd ▸ List.mem_cons_self)
      refine ⟨ts ++ [.closeBracket], by simp; omega, ?_, fun fuel hfuel => ?_⟩
      · have hbracket : Lexes [']'] [.closeBracket] := lexes_punctuation rfl .nil
        simpa [List.intercalate] using hlexes _ _ hbracket
      · cases fuel with
        | zero => exact absurd hfuel (Nat.not_lt_zero _)
        | succ fuel =>
            rw [readOperands?, hread]
            cases hv : v.reread <;> simp [hv]
  | v, w :: row, h => by
      obtain ⟨ts, hpos, hlexes, hread⟩ :=
        exists_tokens_writeOperand (v := v) fun d hd => h d (hd ▸ List.mem_cons_self)
      have hscales : HasScales (w :: row) := fun d hd => h d (List.mem_cons_of_mem v hd)
      obtain ⟨us, hlength, hrest, hrow⟩ := exists_tokens_writeOperands hscales
      refine ⟨ts ++ .comma :: us, by simp; omega, ?_, fun fuel hfuel => ?_⟩
      · have hcomma := hlexes _ _ (lexes_punctuation (c := ',') rfl hrest)
        simpa [List.intercalate] using hcomma
      · cases fuel with
        | zero => exact absurd hfuel (Nat.not_lt_zero _)
        | succ fuel =>
            have hfuel' : row.length < fuel := Nat.lt_of_succ_lt_succ hfuel
            rw [readOperands?, hread, List.mapM_cons]
            cases v.reread with
            | none => rfl
            | some v =>
                dsimp only [Option.map_some, Option.bind_eq_bind, Option.bind_some]
                rw [hrow fuel hfuel']
                rfl

/-- A row comes back column by column, or not at all. -/
theorem readRow?_eq {row : Row} (h : HasScales row) :
    readRow? (writeRow row) = row.mapM Operand.reread := by
  unfold readRow? writeRow writeList
  cases row with
  | nil =>
      have hlexes : Lexes ['[', ']'] [.openBracket, .closeBracket] :=
        lexes_punctuation rfl (lexes_punctuation rfl .nil)
      rw [show '[' :: List.intercalate [','] (List.map writeOperand []) ++ [']'] = ['[', ']']
        from rfl, tokens?_of_lexes hlexes]
      rfl
  | cons v row =>
      obtain ⟨ts, hlength, hlexes, hread⟩ := exists_tokens_writeOperands h
      rw [List.cons_append, tokens?_of_lexes (lexes_punctuation rfl hlexes)]
      dsimp only [Option.bind_eq_bind, Option.bind_some]
      split
      · next heq =>
        obtain rfl : ts = [.closeBracket] := (List.cons.inj heq).2
        simp at hlength
      · next heq =>
        obtain rfl := (List.cons.inj heq).2
        exact hread _ (by omega)
      · next hne => exact absurd rfl (hne ts)

end Json

/-! ## What comes back the same -/

namespace Operand

/-- Whether an operand has a number in JSON, if it is a float. -/
def IsFinite : Operand → Prop
  | some (.float32 x) => x.isFinite = true
  | some (.float64 x) => x.isFinite = true
  | _ => True

/-- What comes back of an operand whatever becomes of it: its type, and its value unless it is a
float. -/
structure Keeps (v w : Operand) : Prop where
  ty : w.ty = v.ty
  value : v.ty ≠ .float32 → v.ty ≠ .float64 → v.compare w = .eq

/-- The operands that come back equal: of the floats those that the number their figures are taken
for rounds to, of the decimals all but those whose ten zeros equality cannot make up for. -/
def Survives : Operand → Prop
  | some (.float32 x) => x.Survives
  | some (.float64 x) => x.Survives
  | some (.decimal d) => ¬(d.scale = -10 ∧ Decimal.Slips d.unscaled.natAbs)
  | _ => True

/-- Operands without too many digits. -/
def IsShort : Operand → Prop
  | some (.float32 x) => x.IsShort
  | some (.float64 x) => x.IsShort
  | some (.decimal d) => d.scale ≠ -10
  | _ => True

theorem isSome_reread (v : Operand) : v.reread.isSome ↔ v.IsFinite := by
  cases v with
  | none => exact iff_of_true rfl trivial
  | some v =>
      cases v with
      | float32 x =>
          rw [reread, Scalar.reread, Option.isSome_map, Option.isSome_map]
          exact Binary.isSome_reread
      | float64 x =>
          rw [reread, Scalar.reread, Option.isSome_map, Option.isSome_map]
          exact Binary.isSome_reread
      | _ => exact iff_of_true rfl trivial

theorem keeps_of_reread {v w : Operand} (h : v.reread = some w) : v.Keeps w := by
  cases v with
  | none =>
      obtain rfl := Option.some.inj h
      exact ⟨rfl, fun _ _ => rfl⟩
  | some v =>
      cases v with
      | float32 x =>
          obtain ⟨u, hu, rfl⟩ := Option.map_eq_some_iff.mp h
          obtain ⟨y, -, rfl⟩ := Option.map_eq_some_iff.mp hu
          exact ⟨rfl, fun hne => absurd rfl hne⟩
      | float64 x =>
          obtain ⟨u, hu, rfl⟩ := Option.map_eq_some_iff.mp h
          obtain ⟨y, -, rfl⟩ := Option.map_eq_some_iff.mp hu
          exact ⟨rfl, fun _ hne => absurd rfl hne⟩
      | decimal d =>
          obtain rfl := Option.some.inj h
          exact ⟨rfl, fun _ _ => Decimal.compare_eq_iff_value.mpr (Decimal.value_rewritten d).symm⟩
      | _ =>
          obtain rfl := Option.some.inj h
          exact ⟨rfl, fun _ _ => compare_self _⟩

theorem survives_iff {v : Operand} :
    v.Survives ↔ ∃ w, v.reread = some w ∧ v.same w = true := by
  cases v with
  | none => exact iff_of_true trivial ⟨none, rfl, rfl⟩
  | some v =>
      cases v with
      | float32 x => simp [Survives, Binary.survives_iff, reread, Scalar.reread, same, Scalar.same]
      | float64 x => simp [Survives, Binary.survives_iff, reread, Scalar.reread, same, Scalar.same]
      | decimal d =>
          simp [Survives, reread, Scalar.reread, same, Scalar.same, Decimal.same_rewritten]
      | _ => exact iff_of_true trivial ⟨_, rfl, same_self _⟩

theorem survives_of_isShort {v : Operand} (h : v.IsShort) : v.Survives := by
  cases v with
  | none => trivial
  | some v =>
      cases v with
      | float32 x => exact Binary.survives_of_isShort h
      | float64 x => exact Binary.survives_of_isShort h
      | decimal d => exact fun hten => h hten.1
      | _ => trivial

end Operand

namespace Row

theorem isSome_mapM_reread : ∀ row : Row,
    (row.mapM Operand.reread).isSome ↔ ∀ v ∈ row, v.IsFinite
  | [] => by simp
  | v :: row => by
      rw [List.forall_mem_cons, ← isSome_mapM_reread row, ← Operand.isSome_reread, List.mapM_cons]
      cases v.reread <;> cases row.mapM Operand.reread <;> simp

theorem mapM_reread_eq_some_iff : ∀ {row row' : Row},
    row.mapM Operand.reread = some row' ↔ List.Forall₂ (fun v w => v.reread = some w) row row'
  | [], row' => by simp [eq_comm]
  | v :: row, [] => by
      rw [List.mapM_cons]
      cases v.reread <;> cases row.mapM Operand.reread <;> simp
  | v :: row, w :: row' => by
      rw [List.forall₂_cons, ← mapM_reread_eq_some_iff, List.mapM_cons]
      cases v.reread <;> cases row.mapM Operand.reread <;> simp

theorem exists_same_reread : ∀ row : Row,
    (∃ row', row.mapM Operand.reread = some row' ∧ row.same row' = true) ↔
      ∀ v ∈ row, v.Survives
  | [] => by simp [same]
  | v :: row => by
      rw [List.forall_mem_cons, ← exists_same_reread row, Operand.survives_iff, List.mapM_cons]
      cases v.reread <;> cases row.mapM Operand.reread <;> simp [same]

end Row

/-- Rows that are written and read again. The row can be read if all its floats are finite, and
then every column comes back with its type and, floats aside, with its value. It is equal to the
row that was written if every column survives, and only then. Columns survive unless they are
floats with many digits or decimals with ten zeros written out. -/
theorem row_reread {row : Row} (h : HasScales row) :
    readRow? (writeRow row) = row.mapM Operand.reread ∧
    ((readRow? (writeRow row)).isSome ↔ ∀ v ∈ row, v.IsFinite) ∧
    (∀ row', readRow? (writeRow row) = some row' → List.Forall₂ Operand.Keeps row row') ∧
    ((∃ row', readRow? (writeRow row) = some row' ∧ row.same row' = true) ↔
      ∀ v ∈ row, v.Survives) ∧
    ((∀ v ∈ row, v.IsShort) →
      ∃ row', readRow? (writeRow row) = some row' ∧ row.same row' = true) := by
  rw [readRow?_eq h]
  refine ⟨rfl, row.isSome_mapM_reread, fun row' hrow => ?_, row.exists_same_reread,
    fun hshort => row.exists_same_reread.mpr fun v hv => ?_⟩
  · exact (Row.mapM_reread_eq_some_iff.mp hrow).imp fun _ _ => Operand.keeps_of_reread
  · exact Operand.survives_of_isShort (hshort v hv)

/-- A null, a text with an escape, a decimal with zeros before its point and the single next to a
tenth. -/
def shortRow : Row :=
  [none, some (.string "a\n"), some (.decimal ⟨15, -3⟩),
    some (.float32 (.ofMagnitude false 0x3DCCCCCD))]

theorem row_reread_short :
    HasScales shortRow ∧ (∀ v ∈ shortRow, v.IsShort) ∧
      ∃ row', readRow? (writeRow shortRow) = some row' ∧ shortRow.same row' = true := by
  have hscales : HasScales shortRow := by
    intro d hd
    obtain rfl : d = ⟨15, -3⟩ := by simpa [shortRow] using hd
    decide
  have hwritten : (.ofMagnitude false 0x3DCCCCCD : Single).written = ⟨1, -1⟩ := by decide +kernel
  have hshort : ∀ v ∈ shortRow, v.IsShort := by
    simp only [shortRow, List.forall_mem_cons]
    refine ⟨trivial, trivial, (by decide : (-3 : Int) ≠ -10),
      ⟨by decide, ?_, ?_, fun _ => ?_⟩, nofun⟩
    · rw [hwritten]
      decide
    · rw [hwritten]
      decide
    · rw [hwritten]
      decide
  exact ⟨hscales, hshort, (row_reread hscales).2.2.2.2 hshort⟩

/-- Rows that do not come back equal: a NaN is written as no number at all, a large whole number has
one digit too many with the zero behind its point, and ten zeros written out are lost on
equality. -/
theorem row_reread_unequal :
    readRow? (writeRow [some (.float64 .nan)]) = none ∧
    (∃ row', readRow? (writeRow [some (.float64 (.ofMagnitude false 0x433FFFFFFFFFFFFF))]) =
      some row' ∧
        Row.same [some (.float64 (.ofMagnitude false 0x433FFFFFFFFFFFFF))] row' = false) ∧
    ∃ row', readRow? (writeRow [some (.decimal ⟨7922816251533193472, -10⟩)]) = some row' ∧
      Row.same [some (.decimal ⟨7922816251533193472, -10⟩)] row' = false := by
  have hscale : ∀ d : Decimal, Decimal.isScale d.scale = true → HasScales [some (.decimal d)] := by
    intro d hd d' hd'
    obtain rfl : d' = d := by simpa using hd'
    exact hd
  have hfloat : ∀ x : Double, HasScales [some (.float64 x)] := by
    intro x d hd
    simp at hd
  have hnear : (.ofMagnitude false 0x433FFFFFFFFFFFFF : Double).reread =
      some (.ofMagnitude false 0x433FFFFFFFFFFFFE) := by
    decide +kernel
  refine ⟨?_, ⟨[some (.float64 (.ofMagnitude false 0x433FFFFFFFFFFFFE))], ?_, by decide⟩,
    ⟨[some (.decimal (Decimal.rewritten ⟨7922816251533193472, -10⟩))], ?_, ?_⟩⟩
  · rw [readRow?_eq (hfloat _)]
    rfl
  · rw [readRow?_eq (hfloat _)]
    simp [Operand.reread, Scalar.reread, hnear]
  · rw [readRow?_eq (hscale _ (by decide))]
    rfl
  · have hlost : Decimal.same ⟨7922816251533193472, -10⟩
        (Decimal.rewritten ⟨7922816251533193472, -10⟩) = false := by
      rw [← Bool.not_eq_true, Decimal.same_rewritten]
      exact not_not_intro ⟨rfl, Decimal.slips_carry⟩
    rw [Row.same, Operand.same, Scalar.same, hlost]
    rfl

end RowCode
