import RowCode.Proofs.Code.Word

/-!
# Exact readers

What `Proofs/Code/Word` says of values is one half: what is written is read
back. Here the other half, that nothing else is read. Both together are a
property of the reader, `Exact`, which goes over from single values to lists of
them (`Exact.list`). Constants depend on the byte in front of them, so for them
the second half is a lemma of its own (`readConst_written`).
-/

namespace RowCode

namespace Code

/-- A reader that reads the written forms of its values, whatever stands behind
them, and nothing else. -/
structure Exact {α ω : Type} (read : Bytes → Except Fault (α × Bytes)) (bytes : ω → Bytes)
    (value : ω → α) : Prop where
  reads : ∀ w rest, read (bytes w ++ rest) = .ok (value w, rest)
  written : ∀ {code v rest}, read code = .ok (v, rest) →
    ∃ w, value w = v ∧ code = bytes w ++ rest

theorem orUnknown_eq_ok {α : Type} {whole : Bytes} {o : Option α} {v : α}
    (h : orUnknown whole o = .ok v) : o = some v := by
  cases o with
  | none => cases h
  | some w =>
      cases h
      rfl

/-! ## Numbers and strings -/

theorem readGroups_written {room n : Nat} {code rest : Bytes}
    (h : readGroups room code = .ok (n, rest)) :
    ∃ (front : Bytes) (last : UInt8), (∀ b ∈ front, ¬b < 128) ∧ last < 128 ∧
      front.length < room ∧ code = front ++ last :: rest ∧
      front.foldr (fun b m => b.toNat - 128 + 128 * m) last.toNat = n := by
  induction room generalizing code n with
  | zero => cases code <;> simp [readGroups] at h
  | succ room ih =>
      cases code with
      | nil => simp [readGroups] at h
      | cons b code =>
          simp only [readGroups] at h
          split at h
          · next hlast =>
            cases h
            exact ⟨[], b, List.forall_mem_nil _, hlast, Nat.succ_pos _, rfl, rfl⟩
          · next hmore =>
            split at h
            · cases h
            next m after hm =>
              cases h
              obtain ⟨front, last, hfront, hlast, hlength, rfl, rfl⟩ := ih hm
              refine ⟨b :: front, last, ?_, hlast, Nat.succ_lt_succ hlength, rfl, rfl⟩
              intro c hc
              rcases List.mem_cons.mp hc with rfl | hc
              · exact hmore
              · exact hfront c hc

theorem exact_readVarint : Exact readVarint Varint.bytes Varint.value where
  reads := Varint.readVarint_bytes
  written := by
    intro code v rest h
    simp only [readVarint] at h
    split at h
    · next n after hn =>
      cases h
      obtain ⟨front, last, hmore, hends, hfits, rfl, rfl⟩ := readGroups_written hn
      refine ⟨⟨front, last, hmore, hends, hfits⟩, rfl, ?_⟩
      rw [Varint.bytes, List.append_assoc, List.singleton_append]
    · cases h
    · cases h

theorem exact_readNat : Exact readNat Varint.bytes (fun n => n.value.toNat) where
  reads := Varint.readNat_bytes
  written := by
    intro code v rest h
    simp only [readNat] at h
    split at h
    · next n after hn =>
      cases h
      obtain ⟨w, rfl, hcode⟩ := exact_readVarint.written hn
      exact ⟨w, rfl, hcode⟩
    · cases h

theorem readBytes_written {count : Nat} {code bytes rest : Bytes}
    (h : readBytes count code = .ok (bytes, rest)) :
    bytes.length = count ∧ code = bytes ++ rest := by
  simp only [readBytes] at h
  split at h
  · next hcount =>
    cases h
    exact ⟨List.length_take_of_le hcount, (List.take_append_drop count code).symm⟩
  · cases h

theorem readBinary_written {f : Format} {code rest : Bytes} {x : Binary f}
    (h : readBinary f code = .ok (x, rest)) :
    ∃ bits : Bytes, bits.length = f.width / 8 ∧ x = ⟨BitVec.ofNat _ (bigEndian bits)⟩ ∧
      code = bits ++ rest := by
  simp only [readBinary] at h
  split at h
  · next bits after hbits =>
    cases h
    obtain ⟨hwide, hcode⟩ := readBytes_written hbits
    exact ⟨bits, hwide, rfl, hcode⟩
  · cases h

theorem toUTF8_of_fromUTF8? {bytes : Bytes} {s : String}
    (h : String.fromUTF8? ⟨bytes.toArray⟩ = some s) : s.toUTF8.data.toList = bytes := by
  unfold String.fromUTF8? at h
  split at h
  · cases h
    rfl
  · cases h

theorem exact_readString : Exact readString Counted.bytes Counted.string where
  reads := Counted.readString_bytes
  written := by
    intro code v rest h
    simp only [readString] at h
    split at h
    · cases h
    next length after hlength =>
      split at h
      · cases h
      next bytes after' hbytes =>
        split at h
        · next s hs =>
          cases h
          obtain ⟨n, rfl, rfl⟩ := exact_readNat.written hlength
          obtain ⟨hcount, rfl⟩ := readBytes_written hbytes
          obtain rfl := toUTF8_of_fromUTF8? hs
          exact ⟨⟨_, n, hcount.symm⟩, rfl, (List.append_assoc ..).symm⟩
        · cases h

/-! ## Lists -/

/-- Values behind their count. -/
structure Listed (ω : Type) where
  count : Varint
  items : List ω
  counts : count.value.toNat = items.length

def Listed.bytes {ω : Type} (bytes : ω → Bytes) (l : Listed ω) : Bytes :=
  l.count.bytes ++ l.items.flatMap bytes

section

variable {α ω : Type} {read : Bytes → Except Fault (α × Bytes)} {bytes : ω → Bytes}
  {value : ω → α}

theorem Exact.readMany_items (h : Exact read bytes value) (rest : Bytes) (items : List ω) :
    readMany read items.length (items.flatMap bytes ++ rest) = .ok (items.map value, rest) := by
  induction items with
  | nil => rfl
  | cons w items ih =>
      rw [List.length_cons, readMany, List.flatMap_cons, List.append_assoc, h.reads]
      simp only [ih, List.map_cons]

theorem Exact.readMany_written (h : Exact read bytes value) {count : Nat} {code rest : Bytes}
    {vs : List α} (hread : readMany read count code = .ok (vs, rest)) :
    ∃ items : List ω, items.length = count ∧ items.map value = vs ∧
      code = items.flatMap bytes ++ rest := by
  induction count generalizing code vs with
  | zero =>
      cases hread
      exact ⟨[], rfl, rfl, rfl⟩
  | succ count ih =>
      simp only [readMany] at hread
      split at hread
      · cases hread
      next v after hv =>
        split at hread
        · cases hread
        next vs' after' hvs =>
          cases hread
          obtain ⟨w, rfl, rfl⟩ := h.written hv
          obtain ⟨items, rfl, rfl, rfl⟩ := ih hvs
          refine ⟨w :: items, rfl, rfl, ?_⟩
          rw [List.flatMap_cons, List.append_assoc]

theorem Exact.list (h : Exact read bytes value) :
    Exact (readList read) (Listed.bytes bytes) (fun l => l.items.map value) where
  reads := by
    intro l rest
    rw [readList, Listed.bytes, List.append_assoc, exact_readNat.reads]
    simp only [l.counts, h.readMany_items]
  written := by
    intro code vs rest hread
    simp only [readList] at hread
    split at hread
    · cases hread
    next count after hcount =>
      obtain ⟨n, rfl, rfl⟩ := exact_readNat.written hcount
      obtain ⟨items, hlength, rfl, rfl⟩ := h.readMany_written hread
      exact ⟨⟨n, items, hlength.symm⟩, rfl, (List.append_assoc ..).symm⟩

end

/-! ## Constants -/

theorem readConst_written {negate : Bool} {t : Ty} {whole code rest : Bytes} {v : Scalar}
    (h : readConst negate t whole code = .ok (v, rest)) :
    ∃ l : Literal, l.negated = negate ∧ l.value = v ∧ v.ty = t ∧ code = l.payload ++ rest := by
  unfold readConst at h
  split at h
  · obtain ⟨⟨n, after⟩, hn, h⟩ := bind_eq_ok.1 h
    cases h
    obtain ⟨n, rfl, rfl⟩ := exact_readVarint.written hn
    exact ⟨.int32 negate n, rfl, rfl, rfl, rfl⟩
  · obtain ⟨⟨n, after⟩, hn, h⟩ := bind_eq_ok.1 h
    cases h
    obtain ⟨n, rfl, rfl⟩ := exact_readVarint.written hn
    exact ⟨.int64 negate n, rfl, rfl, rfl, rfl⟩
  · cases h
    exact ⟨.bool negate, rfl, rfl, rfl, rfl⟩
  · obtain ⟨⟨x, after⟩, hx, h⟩ := bind_eq_ok.1 h
    cases h
    obtain ⟨bits, hwide, rfl, rfl⟩ := readBinary_written hx
    exact ⟨.float32 bits hwide, rfl, rfl, rfl, rfl⟩
  · obtain ⟨⟨x, after⟩, hx, h⟩ := bind_eq_ok.1 h
    cases h
    obtain ⟨bits, hwide, rfl, rfl⟩ := readBinary_written hx
    exact ⟨.float64 bits hwide, rfl, rfl, rfl, rfl⟩
  · obtain ⟨⟨s, after⟩, hs, h⟩ := bind_eq_ok.1 h
    obtain ⟨d, hd, h⟩ := bind_eq_ok.1 h
    cases h
    obtain ⟨text, rfl, rfl⟩ := exact_readString.written hs
    exact ⟨.decimal text d hd, rfl, rfl, rfl, rfl⟩
  · obtain ⟨⟨s, after⟩, hs, h⟩ := bind_eq_ok.1 h
    cases h
    obtain ⟨text, rfl, rfl⟩ := exact_readString.written hs
    exact ⟨.string text, rfl, rfl, rfl, rfl⟩
  · cases h

end Code

end RowCode
