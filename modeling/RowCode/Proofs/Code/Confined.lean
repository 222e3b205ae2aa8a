import RowCode.Proofs.Code.Cursor
import RowCode.Proofs.Code.StageWord

/-!
# Readers keep to the code

What a reader does depends on the bytes it takes and on nothing else, and a fault
has bytes of the code. `Confined` says so of a reader that takes the code from its
front on, and `StaysInside` of the same reader at a position: a value ends within
the code, and any other code with the same bytes in these places has the same
value there.

A list is read by a loop that may be told to go round 2^64 times. It takes a byte
in every round, so it stops with the code. With the readers in machine words next
to them, this is `readers_confined`.
-/

namespace RowCode

/-- The bytes that a fault of the code is about. -/
def Fault.bytes? : Fault → Option Bytes
  | unknownCode bytes => some bytes
  | truncated bytes => some bytes
  | invalidString bytes => some bytes
  | _ => none

namespace Code

/-- A fault about bytes of a code that stand side by side. -/
def Blamed (code : Bytes) (e : Fault) : Prop :=
  ∃ bytes, e.bytes? = some bytes ∧ bytes <:+: code

/-- A reader takes bytes off the front of a code and looks at no others, or it
blames bytes of the code. -/
structure Confined {α : Type} (read : Bytes → Except Fault (α × Bytes)) : Prop where
  ok : ∀ {code v rest}, read code = .ok (v, rest) →
    ∃ bytes : Bytes, bytes ≠ [] ∧ code = bytes ++ rest ∧
      ∀ rest' : Bytes, read (bytes ++ rest') = .ok (v, rest')
  error : ∀ {code e}, read code = .error e → Blamed code e

/-- A reader at a position of a code. A value takes bytes from the position on,
within the code, and is there in every code that has the same bytes in the same
places; a fault has bytes of the code. -/
structure StaysInside {α : Type} (read : Bytes → Except Fault (α × Bytes)) (code : Bytes)
    (cursor : Nat) : Prop where
  ok : ∀ {v next}, readAt read code cursor = .ok (v, next) →
    cursor < next ∧ next ≤ code.length ∧
      ∀ other : Bytes, (∀ i, cursor ≤ i → i < next → other[i]? = code[i]?) →
        readAt read other cursor = .ok (v, next)
  error : ∀ {e}, readAt read code cursor = .error e → Blamed code e

section

variable {α : Type} {read : Bytes → Except Fault (α × Bytes)}

/-! ## From the front to a position -/

theorem readAt_eq_ok {code : Bytes} {cursor next : Nat} {v : α}
    (h : readAt read code cursor = .ok (v, next)) :
    ∃ rest, read (code.drop cursor) = .ok (v, rest) ∧
      next = cursor + ((code.drop cursor).length - rest.length) := by
  rw [readAt] at h
  cases hread : read (code.drop cursor) with
  | error e =>
      rw [hread] at h
      cases h
  | ok r =>
      rw [hread] at h
      cases h
      exact ⟨r.2, rfl, rfl⟩

theorem readAt_eq_error {code : Bytes} {cursor : Nat} {e : Fault}
    (h : readAt read code cursor = .error e) : read (code.drop cursor) = .error e := by
  rw [readAt] at h
  cases hread : read (code.drop cursor) with
  | error e' =>
      rw [hread] at h
      cases h
      rfl
  | ok r =>
      rw [hread] at h
      cases h

/-- Bytes that are found again in another code. -/
theorem drop_eq_append {code other bytes rest : Bytes} {cursor : Nat}
    (hcode : code.drop cursor = bytes ++ rest)
    (hsame : ∀ i, cursor ≤ i → i < cursor + bytes.length → other[i]? = code[i]?) :
    other.drop cursor = bytes ++ (other.drop cursor).drop bytes.length := by
  have htake : (other.drop cursor).take bytes.length = bytes := by
    apply List.ext_getElem?
    intro i
    rcases Nat.lt_or_ge i bytes.length with hin | hout
    · rw [List.getElem?_take_of_lt hin, List.getElem?_drop,
        hsame _ (Nat.le_add_right ..) (Nat.add_lt_add_left hin _), ← List.getElem?_drop, hcode,
        List.getElem?_append_left hin]
    · rw [List.getElem?_take_eq_none hout, List.getElem?_eq_none hout]
  conv_lhs => rw [← List.take_append_drop bytes.length (other.drop cursor), htake]

theorem Blamed.mono {code rest : Bytes} {e : Fault} (h : Blamed rest e) (hrest : rest <:+ code) :
    Blamed code e := by
  obtain ⟨bytes, hbytes, hin⟩ := h
  exact ⟨bytes, hbytes, hin.trans hrest.isInfix⟩

theorem Confined.staysInside (h : Confined read) (code : Bytes) (cursor : Nat) :
    StaysInside read code cursor where
  ok := by
    intro v next hread
    obtain ⟨rest, hfront, hnext⟩ := readAt_eq_ok hread
    obtain ⟨bytes, hne, hcode, hreads⟩ := h.ok hfront
    have htaken : (code.drop cursor).length = bytes.length + rest.length := by
      rw [hcode, List.length_append]
    have hpos := List.length_pos_iff.mpr hne
    obtain rfl : next = cursor + bytes.length := by omega
    rw [List.length_drop] at htaken
    refine ⟨by omega, by omega, fun other hsame => ?_⟩
    exact readAt_of_append (drop_eq_append hcode hsame) (hreads _)
  error := fun hread => (h.error (readAt_eq_error hread)).mono (List.drop_suffix cursor code)

/-! ## From what a reader accepts -/

theorem Exact.confined {ω : Type} {bytes : ω → Bytes} {value : ω → α}
    (h : Exact read bytes value)
    (shorter : ∀ {code v rest}, read code = .ok (v, rest) → rest.length < code.length)
    (blamed : ∀ {code e}, read code = .error e → Blamed code e) : Confined read where
  ok := by
    intro code v rest hread
    obtain ⟨w, rfl, rfl⟩ := h.written hread
    refine ⟨bytes w, ?_, rfl, h.reads w⟩
    intro hnil
    have hlength := shorter hread
    rw [hnil, List.nil_append] at hlength
    exact Nat.lt_irrefl _ hlength
  error := blamed

end

/-! ## Faults -/

section

variable {code : Bytes} {e : Fault}

theorem bind_eq_error {α β : Type} {x : Except Fault α} {f : α → Except Fault β}
    (h : (x >>= f) = .error e) : x = .error e ∨ ∃ a, x = .ok a ∧ f a = .error e := by
  cases x with
  | error e' =>
      cases h
      exact Or.inl rfl
  | ok a => exact Or.inr ⟨a, rfl, h⟩

theorem blamed_orUnknown {α : Type} {o : Option α} (h : orUnknown code o = .error e) :
    Blamed code e := by
  cases o with
  | none =>
      cases h
      exact ⟨code, rfl, List.infix_rfl⟩
  | some v => cases h

theorem blamed_readVarint (h : readVarint code = .error e) : Blamed code e := by
  rw [readVarint_error h]
  split
  · exact ⟨code, rfl, List.infix_rfl⟩
  · exact ⟨code, rfl, List.infix_rfl⟩

theorem blamed_readNat (h : readNat code = .error e) : Blamed code e := by
  rw [readNat] at h
  split at h
  · cases h
  · next hn =>
    cases h
    exact blamed_readVarint hn

theorem blamed_readBytes {count : Nat} (h : readBytes count code = .error e) : Blamed code e := by
  rw [readBytes] at h
  split at h
  · cases h
  · cases h
    exact ⟨code, rfl, List.infix_rfl⟩

theorem blamed_readBinary {f : Format} (h : readBinary f code = .error e) : Blamed code e := by
  rw [readBinary] at h
  split at h
  · cases h
  · next hbytes =>
    cases h
    exact blamed_readBytes hbytes

/-- A fault of a string may be about its length, the bytes of which are at the
front, or about the bytes behind the length. -/
theorem blamed_readString (h : readString code = .error e) : Blamed code e := by
  rw [readString] at h
  split at h
  · next hlength =>
    cases h
    exact blamed_readNat hlength
  · next length rest hlength =>
    obtain ⟨n, -, rfl⟩ := exact_readNat.written hlength
    split at h
    · next hbytes =>
      cases h
      exact (blamed_readBytes hbytes).mono (List.suffix_append ..)
    · next bytes after hbytes =>
      obtain ⟨-, rfl⟩ := readBytes_written hbytes
      split at h
      · cases h
      · cases h
        exact ⟨bytes, rfl, _, _, (List.append_assoc ..)⟩

theorem blamed_readAggregate (h : readAggregate code = .error e) : Blamed code e := by
  cases code with
  | nil =>
      cases h
      exact ⟨[], rfl, List.infix_rfl⟩
  | cons b code =>
      rw [readAggregate] at h
      split at h
      · cases h
      rcases bind_eq_error h with ht | ⟨t, -, h⟩
      · exact blamed_orUnknown ht
      rcases bind_eq_error h with hn | ⟨⟨index, rest⟩, -, h⟩
      · exact (blamed_readNat hn).mono (List.suffix_cons ..)
      rcases bind_eq_error h with ha | ⟨a, -, h⟩
      · exact blamed_orUnknown ha
      cases h

/-! ## Lists -/

variable {α : Type} {read : Bytes → Except Fault (α × Bytes)}

theorem Confined.suffix (h : Confined read) {rest : Bytes} {v : α}
    (hread : read code = .ok (v, rest)) : rest <:+ code := by
  obtain ⟨bytes, -, rfl, -⟩ := h.ok hread
  exact List.suffix_append ..

theorem Confined.blamed_readMany (h : Confined read) : ∀ {count : Nat} {code : Bytes},
    readMany read count code = .error e → Blamed code e := by
  intro count
  induction count with
  | zero =>
      intro code hread
      cases hread
  | succ count ih =>
      intro code hread
      rw [readMany] at hread
      split at hread
      · next hv =>
        cases hread
        exact h.error hv
      · next v rest hv =>
        split at hread
        · next hvs =>
          cases hread
          exact (ih hvs).mono (h.suffix hv)
        · cases hread

theorem Confined.blamed_readList (h : Confined read) (hread : readList read code = .error e) :
    Blamed code e := by
  rw [readList] at hread
  split at hread
  · next hcount =>
    cases hread
    exact blamed_readNat hcount
  · next count rest hcount =>
    obtain ⟨n, -, rfl⟩ := exact_readNat.written hcount
    exact (h.blamed_readMany hread).mono (List.suffix_append ..)

theorem length_lt_of_readAt
    (shorter : ∀ {code v rest}, read code = .ok (v, rest) → rest.length < code.length)
    {cursor next : Nat} {vs : List α} (h : readAt (readList read) code cursor = .ok (vs, next)) :
    vs.length < next - cursor := by
  obtain ⟨rest, hread, rfl⟩ := readAt_eq_ok h
  have hlength := readList_length shorter hread
  omega

theorem Exact.confined_list {ω : Type} {bytes : ω → Bytes} {value : ω → α}
    (h : Exact read bytes value)
    (shorter : ∀ {code v rest}, read code = .ok (v, rest) → rest.length < code.length)
    (hread : Confined read) : Confined (readList read) :=
  h.list.confined (readList_shorter shorter) hread.blamed_readList

end

/-! ## The readers -/

theorem exact_readBinary (f : Format) :
    Exact (readBinary f) (fun bits : { bits : Bytes // bits.length = f.width / 8 } => bits.1)
      (fun bits => ⟨BitVec.ofNat _ (bigEndian bits.1)⟩) where
  reads := fun bits rest => readBinary_append bits.2 rest
  written := by
    intro code x rest h
    obtain ⟨bits, hwide, rfl, hcode⟩ := readBinary_written h
    exact ⟨⟨bits, hwide⟩, rfl, hcode⟩

theorem confined_readNat : Confined readNat :=
  exact_readNat.confined readNat_shorter blamed_readNat

theorem confined_readAggregate : Confined readAggregate :=
  exact_readAggregate.confined readAggregate_shorter blamed_readAggregate

/-- Every reader of values stays within the code at every position, and looks at
no other bytes than those that it takes. The lists of columns and of aggregates
have fewer values than bytes. If the length of the code is a word, all readers
can be computed in words, without a position, a slice or a shift that is out of
range, and the loops of the lists stop with the code. -/
theorem readers_confined (code : Bytes) (cursor : Nat) :
    (StaysInside readVarint code cursor ∧ StaysInside readNat code cursor ∧
      (∀ f : Format, StaysInside (readBinary f) code cursor) ∧
      StaysInside readString code cursor ∧ StaysInside (readList readNat) code cursor ∧
      StaysInside (readList readAggregate) code cursor) ∧
    ((∀ columns next, readAt (readList readNat) code cursor = .ok (columns, next) →
        columns.length < next - cursor) ∧
      ∀ aggs next, readAt (readList readAggregate) code cursor = .ok (aggs, next) →
        aggs.length < next - cursor) ∧
    (code.length < 2 ^ 64 →
      (varintAt code cursor).run = some (readAt readVarint code cursor) ∧
      (natAt code cursor).run = some (readAt readNat code cursor) ∧
      (∀ f : Format, (binaryAt f code cursor).run = some (readAt (readBinary f) code cursor)) ∧
      (stringAt code cursor).run = some (readAt readString code cursor) ∧
      LoopStops readNat (natAt code) code cursor ∧
      LoopStops readAggregate (aggregateAt code) code cursor) := by
  refine ⟨⟨?_, ?_, fun f => ?_, ?_, ?_, ?_⟩,
    ⟨fun _ _ => length_lt_of_readAt readNat_shorter,
      fun _ _ => length_lt_of_readAt readAggregate_shorter⟩,
    fun hcode => ⟨?_, ?_, fun f => ?_, ?_, ?_, ?_⟩⟩
  · exact (exact_readVarint.confined readVarint_shorter blamed_readVarint).staysInside ..
  · exact confined_readNat.staysInside ..
  · exact ((exact_readBinary f).confined readBinary_shorter blamed_readBinary).staysInside ..
  · exact (exact_readString.confined readString_shorter blamed_readString).staysInside ..
  · exact (exact_readNat.confined_list readNat_shorter confined_readNat).staysInside ..
  · exact (exact_readAggregate.confined_list readAggregate_shorter
      confined_readAggregate).staysInside ..
  · exact (computes_varintAt hcode cursor).eq_readAt readVarint_shorter
  · exact (computes_natAt hcode cursor).eq_readAt readNat_shorter
  · exact (computes_binaryAt hcode f cursor).eq_readAt readBinary_shorter
  · exact (computes_stringAt hcode cursor).eq_readAt readString_shorter
  · exact loopStops_listAt readNat_shorter (fun _ => computes_natAt hcode _) hcode cursor
  · exact loopStops_listAt readAggregate_shorter (computes_aggregateAt hcode) hcode cursor

/-- A pipeline whose one stage groups by no columns. It announces 2^64 - 1
aggregates and has two of them. -/
theorem readers_confined_count :
    let code : Bytes := [0x73, 0x00] ++ List.replicate 9 0xFF ++ [0x01, 0x10, 0x10]
    (∀ other : Bytes, (∀ i, 2 ≤ i → i < 12 → other[i]? = code[i]?) →
      readAt readNat other 2 = .ok (2 ^ 64 - 1, 12)) ∧
    ∃ rounds, listAt (aggregateAt code) code 2 = some (.error (.truncated []), rounds) ∧
      rounds ≤ 12 := by
  intro code
  obtain ⟨⟨-, hnat, -⟩, -, hwords⟩ := readers_confined code 2
  obtain ⟨-, -, -, -, -, rounds, hlist, hrounds, -⟩ := hwords (by decide)
  have hcount : readAt readNat code 2 = .ok (2 ^ 64 - 1, 12) := rfl
  have hfault : readAt (readList readAggregate) code 2 = .error (.truncated []) := rfl
  rw [hfault] at hlist
  exact ⟨(hnat.ok hcount).2.2, rounds, hlist, hrounds⟩

end Code

end RowCode
