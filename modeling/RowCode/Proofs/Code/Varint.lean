import Mathlib.Data.Nat.Digits.Lemmas
import RowCode.Proofs.Code.Exact

/-!
# Numbers at a position in code

Which bytes of a code make a number (`NumberAt`), what number they make, and
what becomes of a position at which there is none. A number ends with its first
byte below 128, and that byte must be one of the first ten. If there is no such
byte, the code either ends too early or has an eleventh byte.

Of the many ways to write a number, `Varint.encode` has those that there is a
rule for: the shortest one, and the same with groups of zeros behind it. All of
them are read as the number wherever they stand.
-/

namespace RowCode

namespace Code

/-- Sets a reader on a position in a code. Gives the value that stands there
and the position behind it. -/
def readAt {α : Type} (read : Bytes → Except Fault (α × Bytes)) (code : Bytes) (cursor : Nat) :
    Except Fault (α × Nat) :=
  let rest := code.drop cursor
  match read rest with
  | .ok (v, after) => .ok (v, cursor + (rest.length - after.length))
  | .error e => .error e

/-- The `count` bytes at a position are groups of a number, no more than there
may be: all but the last say that another follows. -/
structure NumberAt (code : Bytes) (cursor count : Nat) : Prop where
  pos : 0 < count
  fits : count ≤ maxGroups
  more : ∀ i, i + 1 < count → ∃ b, code[cursor + i]? = some b ∧ 128 ≤ b
  ends : ∃ b, code[cursor + (count - 1)]? = some b ∧ b < 128

/-- The low seven bits of bytes as digits, the lowest first. -/
def groupSum (bytes : Bytes) : Nat :=
  Nat.ofDigits 128 (bytes.map fun b => b.toNat % 128)

/-- A byte less its high bit is its low seven bits. -/
theorem low_bits {b : UInt8} (h : ¬b < 128) : b.toNat - 128 = b.toNat % 128 := by
  have hlt := b.toNat_lt
  have hlimit : (128 : UInt8).toNat = 128 := rfl
  rw [UInt8.lt_iff_toNat_lt] at h
  omega

theorem readAt_of_append {α : Type} {read : Bytes → Except Fault (α × Bytes)} {code : Bytes}
    {cursor : Nat} {bytes after : Bytes} {v : α} (hcode : code.drop cursor = bytes ++ after)
    (hread : read (bytes ++ after) = .ok (v, after)) :
    readAt read code cursor = .ok (v, cursor + bytes.length) := by
  rw [readAt, hcode]
  simp only [hread, List.length_append, Nat.add_sub_cancel]

/-! ## Numbers and the bytes they are made of -/

namespace Varint

theorem length_bytes (n : Varint) : n.bytes.length = n.front.length + 1 := by
  rw [bytes, List.length_append, List.length_singleton]

theorem foldr_eq_groupSum {last : UInt8} (hlast : last < 128) : ∀ {front : Bytes},
    (∀ b ∈ front, ¬b < 128) →
      front.foldr (fun b m => b.toNat - 128 + 128 * m) last.toNat = groupSum (front ++ [last])
  | [], _ => by
      rw [UInt8.lt_iff_toNat_lt] at hlast
      have hlow : last.toNat % 128 = last.toNat := Nat.mod_eq_of_lt hlast
      simp [groupSum, hlow]
  | b :: front, hmore => by
      rw [List.foldr_cons, foldr_eq_groupSum hlast fun c hc => hmore c (List.mem_cons_of_mem _ hc),
        low_bits (hmore b (List.mem_cons_self ..))]
      rfl

theorem value_eq (n : Varint) : n.value = UInt64.ofNat (groupSum n.bytes) := by
  rw [value, foldr_eq_groupSum n.ends n.more, bytes]

end Varint

/-- The bytes of a number, found at a position. -/
theorem NumberAt.exists_varint {code : Bytes} {cursor count : Nat}
    (h : NumberAt code cursor count) :
    ∃ n : Varint, n.bytes = (code.drop cursor).take count ∧ n.bytes.length = count := by
  obtain ⟨hpos, hfits, hmore, last, hlast, hends⟩ := h
  obtain ⟨k, rfl⟩ : ∃ k, count = k + 1 := ⟨count - 1, by omega⟩
  rw [Nat.add_sub_cancel, ← List.getElem?_drop] at hlast
  obtain ⟨hin, hget⟩ := List.getElem?_eq_some_iff.mp hlast
  have htake : (code.drop cursor).take (k + 1) = (code.drop cursor).take k ++ [last] := by
    rw [← hget, List.take_concat_get']
  have hlength : ((code.drop cursor).take k).length = k := List.length_take_of_le hin.le
  have hall : ∀ b ∈ (code.drop cursor).take k, ¬b < 128 := by
    intro b hb
    obtain ⟨i, hi, rfl⟩ := List.mem_iff_getElem.mp hb
    obtain ⟨c, hc, hle⟩ := hmore i (by omega)
    rw [← List.getElem?_drop] at hc
    obtain ⟨hin', rfl⟩ := List.getElem?_eq_some_iff.mp hc
    rw [List.getElem_take]
    exact UInt8.not_lt.mpr hle
  refine ⟨⟨_, last, hall, hends, by omega⟩, htake.symm, ?_⟩
  rw [Varint.length_bytes, hlength]

/-- Where the bytes of a number stand, a number is found. -/
theorem numberAt_of_drop {code rest : Bytes} {cursor : Nat} {n : Varint}
    (h : code.drop cursor = n.bytes ++ rest) : NumberAt code cursor n.bytes.length := by
  have hget : ∀ i, code[cursor + i]? = (n.front ++ n.last :: rest)[i]? := by
    intro i
    rw [← List.getElem?_drop, h, Varint.bytes, List.append_assoc, List.singleton_append]
  rw [Varint.length_bytes]
  refine ⟨Nat.succ_pos _, n.fits, ?_, n.last, ?_, n.ends⟩
  · intro i hi
    have hi : i < n.front.length := Nat.lt_of_succ_lt_succ hi
    refine ⟨n.front[i], ?_, UInt8.not_lt.mp (n.more _ (List.getElem_mem hi))⟩
    rw [hget, List.getElem?_append_left hi, List.getElem?_eq_getElem hi]
  · rw [hget, Nat.add_sub_cancel]
    simp

/-- Groups that do not end have all been read, or the code ends before. -/
theorem readGroups_error : ∀ {room : Nat} {code : Bytes} {e : OpenEnd},
    readGroups room code = .error e → e = if room < code.length then .tooLong else .cutOff
  | _, [], e, h => by
      simp only [readGroups, Except.error.injEq] at h
      simp [← h]
  | 0, _ :: _, e, h => by
      simp only [readGroups, Except.error.injEq] at h
      simp [← h]
  | room + 1, b :: code, e, h => by
      simp only [readGroups] at h
      split at h
      · cases h
      · split at h
        · next e' he =>
          cases h
          rw [readGroups_error he, List.length_cons]
          simp only [Nat.add_lt_add_iff_right]
        · cases h

theorem readVarint_error {code : Bytes} {e : Fault} (h : readVarint code = .error e) :
    e = if maxGroups < code.length then .unknownCode code else .truncated code := by
  rw [readVarint] at h
  split at h
  · cases h
  · next he =>
    cases h
    have hend := readGroups_error he
    split at hend
    · next hlong => rw [if_pos hlong]
    · cases hend
  · next he =>
    cases h
    have hend := readGroups_error he
    split at hend
    · cases hend
    · next hshort => rw [if_neg hshort]

/-- What is read at a position. -/
theorem readAt_readVarint {code : Bytes} {cursor count : Nat} (h : NumberAt code cursor count) :
    readAt readVarint code cursor =
      .ok (UInt64.ofNat (groupSum ((code.drop cursor).take count)), cursor + count) := by
  obtain ⟨n, hbytes, rfl⟩ := h.exists_varint
  have hcode : code.drop cursor = n.bytes ++ (code.drop cursor).drop n.bytes.length := by
    conv_lhs => rw [← List.take_append_drop n.bytes.length (code.drop cursor), ← hbytes]
  rw [← hbytes, ← n.value_eq]
  exact readAt_of_append hcode (n.readVarint_bytes _)

theorem readAt_readVarint_of_none {code : Bytes} {cursor : Nat}
    (h : ∀ count, ¬NumberAt code cursor count) :
    readAt readVarint code cursor =
      .error (if cursor + maxGroups < code.length then .unknownCode (code.drop cursor)
        else .truncated (code.drop cursor)) := by
  rw [readAt]
  cases hread : readVarint (code.drop cursor) with
  | ok r =>
      obtain ⟨n, -, hcode⟩ := exact_readVarint.written hread
      exact absurd (numberAt_of_drop hcode) (h _)
  | error e =>
      dsimp only
      rw [readVarint_error hread, List.length_drop]
      have hlimit : maxGroups < code.length - cursor ↔ cursor + maxGroups < code.length := by omega
      simp only [hlimit]

/-! ## Writing numbers -/

namespace Varint

/-- Digits as groups of seven bits. -/
def spell : List Nat → Bytes
  | [] => []
  | [d] => [UInt8.ofNat d]
  | d :: d' :: ds => UInt8.ofNat (d + 128) :: spell (d' :: ds)

/-- A number in no more groups than it needs, but in at least `count`. -/
def encode (count n : Nat) : Bytes :=
  spell ((Nat.digits 128 n).rightpad count 0)

theorem length_spell : ∀ ds : List Nat, (spell ds).length = ds.length
  | [] => rfl
  | [_] => rfl
  | _ :: d :: ds => congrArg Nat.succ (length_spell (d :: ds))

theorem readGroups_spell (rest : Bytes) : ∀ {room : Nat} {ds : List Nat}, ds ≠ [] →
    (∀ d ∈ ds, d < 128) → ds.length ≤ room →
      readGroups room (spell ds ++ rest) = .ok (Nat.ofDigits 128 ds, rest)
  | _, [], hne, _, _ => absurd rfl hne
  | 0, _ :: _, _, _, hroom => absurd hroom (Nat.not_succ_le_zero _)
  | room + 1, [d], _, hlow, _ => by
      have hd : (UInt8.ofNat d).toNat = d := by
        have := hlow d (List.mem_singleton_self d)
        rw [UInt8.toNat_ofNat']
        omega
      have hlast : UInt8.ofNat d < 128 := by
        rw [UInt8.lt_iff_toNat_lt, hd]
        exact hlow d (List.mem_singleton_self d)
      rw [spell, List.singleton_append, readGroups, if_pos hlast, hd, Nat.ofDigits_singleton]
  | room + 1, d :: d' :: ds, _, hlow, hroom => by
      have hd : (UInt8.ofNat (d + 128)).toNat = d + 128 := by
        have := hlow d (List.mem_cons_self ..)
        rw [UInt8.toNat_ofNat']
        omega
      have hmore : ¬UInt8.ofNat (d + 128) < 128 := by
        rw [UInt8.lt_iff_toNat_lt, hd]
        exact Nat.not_lt.mpr (Nat.le_add_left _ _)
      have ih := readGroups_spell rest (List.cons_ne_nil d' ds)
        (fun e he => hlow e (List.mem_cons_of_mem _ he)) (Nat.le_of_succ_le_succ hroom)
      rw [spell, List.cons_append, readGroups, if_neg hmore, ih, hd, Nat.add_sub_cancel]
      rfl

theorem length_encode (count n : Nat) :
    (encode count n).length = max count (Nat.digits 128 n).length := by
  rw [encode, length_spell, List.length_rightpad]

theorem foldr_lt : ∀ (front : Bytes) {last : UInt8}, last < 128 →
    front.foldr (fun b m => b.toNat - 128 + 128 * m) last.toNat < 128 ^ (front.length + 1)
  | [], last, hlast => by
      rw [UInt8.lt_iff_toNat_lt] at hlast
      exact hlast
  | b :: front, last, hlast => by
      have ih := foldr_lt front hlast
      have hb := b.toNat_lt
      rw [List.foldr_cons, List.length_cons, Nat.pow_succ]
      omega

/-- There is no shorter way to write a number. -/
theorem length_encode_le (n : Varint) : (encode 1 n.value.toNat).length ≤ n.bytes.length := by
  have hle : n.value.toNat ≤ n.front.foldr (fun b m => b.toNat - 128 + 128 * m) n.last.toNat := by
    rw [value, UInt64.toNat_ofNat']
    exact Nat.mod_le _ _
  have hdigits : (Nat.digits 128 n.value.toNat).length ≤ n.front.length + 1 := by
    rw [Nat.digits_length_le_iff (by decide)]
    exact hle.trans_lt (foldr_lt n.front n.ends)
  rw [length_encode, length_bytes]
  exact max_le (Nat.succ_pos _) hdigits

/-- A number of 64 bits is read back, also if it has more groups than it needs. -/
theorem readVarint_encode (n : UInt64) {count : Nat} (hpos : 0 < count)
    (hcount : count ≤ maxGroups) (rest : Bytes) :
    readVarint (encode count n.toNat ++ rest) = .ok (n, rest) := by
  have hdigits : (Nat.digits 128 n.toNat).length ≤ maxGroups := by
    rw [Nat.digits_length_le_iff (by decide)]
    exact n.toNat_lt.trans (by decide)
  have hlength : ((Nat.digits 128 n.toNat).rightpad count 0).length ≤ maxGroups := by
    rw [List.length_rightpad]
    exact max_le hcount hdigits
  have hne : (Nat.digits 128 n.toNat).rightpad count 0 ≠ [] := by
    rw [← List.length_pos_iff, List.length_rightpad]
    exact hpos.trans_le (le_max_left _ _)
  have hlow : ∀ d ∈ (Nat.digits 128 n.toNat).rightpad count 0, d < 128 := by
    intro d hd
    rcases List.mem_append.mp hd with hdigit | hzero
    · exact Nat.digits_lt_base (by decide) hdigit
    · rw [List.eq_of_mem_replicate hzero]
      decide
  have hvalue : Nat.ofDigits 128 ((Nat.digits 128 n.toNat).rightpad count 0) = n.toNat := by
    rw [List.rightpad, Nat.ofDigits_append_replicate_zero, Nat.ofDigits_digits]
  rw [readVarint, encode, readGroups_spell rest hne hlow hlength, hvalue]
  exact congrArg (fun m => Except.ok (m, rest)) (UInt64.ofNat_toNat)

/-- The shortest form of a number is among the forms that there are. -/
theorem exists_encode {n : Nat} (h : n < 2 ^ 64) :
    ∃ v : Varint, v.bytes = encode 1 n ∧ v.value.toNat = n := by
  have hn : (UInt64.ofNat n).toNat = n := UInt64.toNat_ofNat_of_lt' h
  have hread := readVarint_encode (UInt64.ofNat n) Nat.one_pos (by decide) []
  rw [hn] at hread
  obtain ⟨v, hvalue, hbytes⟩ := exact_readVarint.written hread
  rw [List.append_nil, List.append_nil] at hbytes
  exact ⟨v, hbytes.symm, by rw [hvalue, hn]⟩

end Varint

/-- What is read at any position of a code. If the bytes there make a number,
it is their low seven bits as digits, of which 64 bits count, and the position
behind it is the one behind its last byte. If they make none, the fault has the
bytes from the position on, of which there are none beyond the end of the code:
they are unknown if there are eleven of them and cut off if there are fewer. A
number that is written by the rule, with as many groups of zeros behind it as
ten bytes have room for, is read back from wherever it stands; and no number is
written shorter than by the rule. -/
theorem readVarint_at (code : Bytes) (cursor : Nat) :
    (∀ count, NumberAt code cursor count →
      readAt readVarint code cursor =
        .ok (UInt64.ofNat (groupSum ((code.drop cursor).take count)), cursor + count)) ∧
    ((∀ count, ¬NumberAt code cursor count) →
      readAt readVarint code cursor =
        .error (if cursor + maxGroups < code.length then .unknownCode (code.drop cursor)
          else .truncated (code.drop cursor))) ∧
    (∀ (n : UInt64) (count : Nat), 0 < count → count ≤ maxGroups →
      ∀ before after : Bytes,
        let bytes := Varint.encode count n.toNat
        readAt readVarint (before ++ bytes ++ after) before.length =
          .ok (n, before.length + bytes.length)) ∧
    ∀ n : Varint, (Varint.encode 1 n.value.toNat).length ≤ n.bytes.length := by
  refine ⟨fun _ => readAt_readVarint, readAt_readVarint_of_none, ?_, Varint.length_encode_le⟩
  intro n count hpos hcount before after bytes
  refine readAt_of_append ?_ (Varint.readVarint_encode n hpos hcount after)
  rw [List.append_assoc, List.drop_left]

/-- One, in the fewest groups and in three. -/
example : Varint.encode 1 1 = [1] ∧ Varint.encode 3 1 = [129, 128, 0] := by
  simp [Varint.encode, Varint.spell, List.rightpad]

end Code

end RowCode
