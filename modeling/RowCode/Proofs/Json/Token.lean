import Mathlib.Data.List.TakeDrop
import Mathlib.Tactic.IntervalCases
import RowCode.Json.Token
import RowCode.Text.Quoted

/-!
# Tokens of what was written

Every character of a string is written as itself or as an escape, and the reader
takes either off the text as one character (`readChar?_exchangeEscape`). No
escape begins with a quote, so the string ends where it was closed, and what
stands behind it is left alone (`readString?_append`).

`Lexes` says which tokens a text has, whatever fuel there is beyond its length,
so that the tokens of a text can be told piece by piece (`Lexes.cons`).
-/

namespace RowCode.Json

open Text

/-! ## Strings -/

/-- Whether a character stands for itself in a string. -/
def isBare (c : Char) : Bool :=
  exchangeEscape c = [c]

theorem hexNumber_of_lt {d : Nat} (h : d < 16) : hexNumber d = [Nat.digitChar d] :=
  Nat.toDigits_of_lt_base h

theorem hexDigit?_digitChar {d : Nat} (h : d < 16) : hexDigit? (Nat.digitChar d) = some d := by
  interval_cases d <;> decide

/-- The number of a control character has two digits behind its two zeros. -/
theorem readUnicode?_control {c : Char} (h : c.toNat < 0x20) (s : List Char) :
    readUnicode? ('0' :: '0' :: hexNumber (c.toNat / 16) ++ hexNumber (c.toNat % 16) ++ s) =
      some (c, s) := by
  have hzero : hexDigit? '0' = some 0 := by decide
  have hhigh : c.toNat / 16 < 16 := by omega
  have hlow : c.toNat % 16 < 16 := Nat.mod_lt _ (by decide)
  have hvalue : ((16 * 0 + 0) * 16 + c.toNat / 16) * 16 + c.toNat % 16 = c.toNat := by omega
  have hread : readHex4? ('0' :: '0' :: Nat.digitChar (c.toNat / 16) ::
      Nat.digitChar (c.toNat % 16) :: s) = some (c.toNat, s) := by
    simp only [readHex4?, hzero, hexDigit?_digitChar hhigh, hexDigit?_digitChar hlow,
      Option.bind_eq_bind, Option.bind_some, hvalue]
  have hnot : isHighSurrogate c.toNat = false ∧ isLowSurrogate c.toNat = false := by
    simp only [isHighSurrogate, isLowSurrogate, Bool.and_eq_false_iff, decide_eq_false_iff_not]
    omega
  rw [hexNumber_of_lt hhigh, hexNumber_of_lt hlow]
  simp only [List.cons_append, List.nil_append, readUnicode?, hread, hnot.1, hnot.2,
    Option.bind_eq_bind, Option.bind_some, Bool.false_eq_true, if_false, Char.ofNat_toNat]

/-- A character is taken off the front, whichever way it is written. -/
theorem readChar?_exchangeEscape (c : Char) (s : List Char) :
    readChar? (exchangeEscape c ++ s) = some (some (c, isBare c), s) := by
  unfold isBare
  fun_cases exchangeEscape c with
  | case8 c _ _ _ _ _ _ _ hcontrol =>
      -- The two characters in front are those that announce a number.
      change (readUnicode? ('0' :: '0' :: hexNumber (c.toNat / 16) ++ hexNumber (c.toNat % 16) ++
        s)).map (fun p => (some (p.1, false), p.2)) = _
      rw [readUnicode?_control hcontrol]
      simp
  | case9 c hquote hbackslash _ _ _ _ _ hprintable =>
      rw [List.singleton_append, readChar?.eq_3 _ _ hquote hbackslash, if_neg hprintable,
        decide_eq_true rfl]
  | _ => rfl

theorem length_exchangeEscape_pos (c : Char) : 0 < (exchangeEscape c).length := by
  fun_cases exchangeEscape c <;> exact Nat.succ_pos _

/-- A string ends where it was closed. -/
theorem readString?_append (rest : List Char) : ∀ {cs : List Char} {fuel : Nat},
    (cs.flatMap exchangeEscape).length < fuel →
      readString? fuel (cs.flatMap exchangeEscape ++ '"' :: rest) =
        some ((cs, cs.all isBare), rest)
  | _, 0, h => absurd h (Nat.not_lt_zero _)
  | [], _ + 1, _ => rfl
  | c :: cs, fuel + 1, h => by
      have hpos := length_exchangeEscape_pos c
      have hfuel : (cs.flatMap exchangeEscape).length < fuel := by
        rw [List.flatMap_cons, List.length_append] at h
        omega
      rw [List.flatMap_cons, List.append_assoc, readString?, readChar?_exchangeEscape]
      dsimp only [Option.bind_eq_bind, Option.bind_some]
      rw [readString?_append rest hfuel]
      rfl

/-- A quoted text is one token. -/
theorem readToken?_exchangeQuoted (cs rest : List Char) :
    readToken? (exchangeQuoted cs ++ rest) = some (.string cs (cs.all isBare), rest) := by
  have hfuel : (cs.flatMap exchangeEscape).length <
      (cs.flatMap exchangeEscape ++ '"' :: rest).length + 1 := by
    rw [List.length_append]
    omega
  have hquoted : exchangeQuoted cs ++ rest = '"' :: (cs.flatMap exchangeEscape ++ '"' :: rest) := by
    simp [exchangeQuoted]
  rw [hquoted, readToken?, readString?_append rest hfuel]
  rfl

/-! ## Numbers -/

/-- A number starts with a digit or a minus sign. -/
theorem head_of_readParts? {s : List Char} {r : Parts × List Char} (h : readParts? s = some r) :
    ∃ c t, s = c :: t ∧ (c = '-' ∨ isDigit c = true) := by
  cases s with
  | nil => cases h
  | cons c t =>
      refine ⟨c, t, rfl, ?_⟩
      by_contra hc
      rw [not_or] at hc
      have hspan : (c :: t).span isDigit = ([], c :: t) := by
        simp [List.span_eq_takeWhile_dropWhile, hc.2]
      have hwhole : readWhole? (c :: t) = none := by
        unfold readWhole?
        split
        · next hs =>
          obtain rfl := (List.cons.inj hs).1
          exact absurd (by decide) hc.2
        · rw [hspan]
          rfl
      rw [readParts?, hwhole] at h
      · cases h
      · rintro _ hs
        exact hc.1 (List.cons.inj hs).1

/-- Where there is a number, it is the token. -/
theorem readToken?_of_readParts? {s rest : List Char} {p : Parts}
    (h : readParts? s = some (p, rest)) :
    readToken? s = p.toNumber?.map fun n => (.number n, rest) := by
  obtain ⟨c, t, rfl, hc⟩ := head_of_readParts? h
  have hne : ∀ d, d ≠ '-' → isDigit d = false → c ≠ d := by
    rintro d hminus hdigit rfl
    rcases hc with hc | hc
    · exact hminus hc
    · rw [hdigit] at hc
      cases hc
  unfold readToken?
  split
  case h_11 =>
    simp only [h, Option.bind_eq_bind, Option.bind_some, Option.map_eq_bind]
    rfl
  all_goals
    next hs =>
    exact absurd (List.cons.inj hs).1 (hne _ (by decide) (by decide))

/-! ## Texts -/

/-- No token starts with a blank. -/
theorem isBlank_of_readToken? {c : Char} {s : List Char} {r : Token × List Char}
    (h : readToken? (c :: s) = some r) : isBlank c = false := by
  by_contra hblank
  simp only [isBlank, Bool.not_eq_false, Bool.or_eq_true, beq_iff_eq] at hblank
  rcases hblank with ((rfl | rfl) | rfl) | rfl <;> cases h

/-- The tokens of a text. -/
def Lexes (s : List Char) (ts : List Token) : Prop :=
  ∀ fuel, s.length ≤ fuel → readTokens? fuel s = some ts

theorem Lexes.nil : Lexes [] [] := fun _ _ => by rw [readTokens?]

/-- A token in front. -/
theorem Lexes.cons {text rest : List Char} {t : Token} {ts : List Token} (hne : text ≠ [])
    (h : readToken? (text ++ rest) = some (t, rest)) (hrest : Lexes rest ts) :
    Lexes (text ++ rest) (t :: ts) := by
  intro fuel hfuel
  obtain ⟨c, s, rfl⟩ := List.exists_cons_of_ne_nil hne
  cases fuel with
  | zero => exact absurd hfuel (Nat.not_succ_le_zero _)
  | succ fuel =>
      have hlength : rest.length ≤ fuel := by
        simp only [List.cons_append, List.length_cons, List.length_append] at hfuel
        omega
      rw [List.cons_append] at h ⊢
      rw [readTokens?, isBlank_of_readToken? h, if_neg Bool.false_ne_true, h]
      dsimp only [Option.bind_eq_bind, Option.bind_some]
      rw [hrest fuel hlength]
      rfl

theorem tokens?_of_lexes {s : List Char} {ts : List Token} (h : Lexes s ts) :
    tokens? (String.ofList s) = some ts := by
  rw [tokens?, String.toList_ofList, String.length_ofList]
  exact h _ le_rfl

end RowCode.Json
