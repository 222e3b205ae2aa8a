import RowCode.Proofs.Hash.Digest
import RowCode.Proofs.Hash.Rehash

/-!
# Hash tables are lawful

Every table that the operations make is `Sound`: its size is a power of two,
searches get to the keys that are stored, and the buckets in use leave the room
that the table says it has. There is always an empty bucket then, where a search
for a key that is not stored ends and where a new key finds its place.

`erase` empties a bucket only if in all windows around it there is another one
that is empty (`any_isEmpty_of_span`).

A key is found if it has the digest of a stored key that it is equal to. Rows of
one value have one digest, which is all that `LawfulKeyMap.complete` asks for.
-/

namespace RowCode.HashTable

/-! ## Sizes -/

theorem capacity_lt {n : Nat} (h : IsSize n) : capacity n < n := by
  obtain ⟨k, -, rfl⟩ := h
  have := Nat.two_pow_pos k
  rw [capacity]
  split <;> omega

theorem isSize_of_capacity {n : Nat} (h : n = 0 ∨ IsSize n) (hpos : 0 < capacity n) :
    IsSize n := by
  rcases h with rfl | h
  · cases hpos
  · exact h

theorem isSize_sizeFor (items : Nat) : IsSize (sizeFor items) := by
  rw [sizeFor]
  split
  · exact ⟨2, by omega, rfl⟩
  split
  · exact ⟨3, by omega, rfl⟩
  · refine ⟨_, ?_, rfl⟩
    have hlog : 2 ≤ (items * 8 / 7 - 1).log2 := (Nat.le_log2 (by omega)).mpr (by omega)
    omega

theorem le_capacity_sizeFor (items : Nat) : items ≤ capacity (sizeFor items) := by
  rw [sizeFor]
  split
  · exact Nat.le_of_lt_succ ‹_›
  split
  · exact Nat.le_of_lt_succ ‹_›
  · have hlog : 3 ≤ (items * 8 / 7 - 1).log2 := (Nat.le_log2 (by omega)).mpr (by omega)
    obtain ⟨m, hm⟩ := Nat.exists_eq_add_of_le hlog
    have hlt : items * 8 / 7 - 1 < 2 ^ ((items * 8 / 7 - 1).log2 + 1) := Nat.lt_log2_self
    rw [hm, show 3 + m + 1 = 3 + (m + 1) by omega, Nat.pow_add] at hlt ⊢
    have hpos := Nat.two_pow_pos (m + 1)
    rw [capacity, if_neg (by omega)]
    omega

/-! ## Keys that find a place -/

/-- The buckets after the keys `es` have found places. -/
structure Takes (buckets : List Bucket) (es : List (Row × Nat)) (buckets' : List Bucket) :
    Prop where
  length : buckets'.length = buckets.length
  led : Led buckets'
  used_le : used buckets' ≤ used buckets + es.length
  contents : (contents buckets').Perm (es ++ contents buckets)

theorem takes_set {buckets : List Bucket} {i : Nat} {e : Row × Nat} (hled : Led buckets)
    (hfull : (bucket buckets i).isFull = false) (hreached : Reached buckets e.1.digest i) :
    Takes buckets [e] (buckets.set i (.full e.1 e.2)) where
  length := List.length_set
  led := hled.set_full hreached
  used_le := by
    have := used_set (.full e.1 e.2) hreached.lt
    simp only [Bucket.isEmpty, Bool.false_eq_true, if_false, List.length_singleton] at this ⊢
    omega
  contents := by
    have hnone : (bucket buckets i).content? = none := by
      cases hb : bucket buckets i <;> first | rfl | (rw [hb] at hfull; cases hfull)
    have := contents_set (.full e.1 e.2) hreached.lt
    rwa [hnone] at this

theorem place_takes {buckets : List Bucket} (hsize : IsSize buckets.length) (hled : Led buckets)
    (hused : used buckets < buckets.length) (e : Row × Nat) :
    Takes buckets [e] (place buckets e) := by
  obtain ⟨i, hi⟩ := exists_vacancy hsize hused e.1.digest
  obtain ⟨hfull, hreached⟩ := vacancy_eq_some hi
  rw [place, hi]
  exact takes_set hled hfull hreached

theorem foldl_place_takes : ∀ (es : List (Row × Nat)) {buckets : List Bucket},
    IsSize buckets.length → Led buckets → used buckets + es.length < buckets.length →
    Takes buckets es (es.foldl place buckets)
  | [], _, _, hled, _ => ⟨rfl, hled, Nat.le_refl _, .refl _⟩
  | e :: es, buckets, hsize, hled, hroom => by
      rw [List.length_cons] at hroom
      have hfirst := place_takes hsize hled (by omega) e
      have hused : used (place buckets e) ≤ used buckets + 1 := hfirst.used_le
      have hrest : Takes (place buckets e) es (es.foldl place (place buckets e)) :=
        foldl_place_takes es (hfirst.length ▸ hsize) hfirst.led (by rw [hfirst.length]; omega)
      have hcontents := hrest.contents.trans (hfirst.contents.append_left es)
      refine ⟨hrest.length.trans hfirst.length, hrest.led, ?_, hcontents.trans ?_⟩
      · have := hrest.used_le
        rw [List.length_cons]
        exact this.trans (by omega)
      · exact List.perm_middle

/-! ## Sound tables -/

structure Sound (table : HashTable) : Prop where
  size : table.buckets.length = 0 ∨ IsSize table.buckets.length
  led : Led table.buckets
  room : table.room + used table.buckets ≤ capacity table.buckets.length

variable {table : HashTable}

theorem Sound.empty : Sound empty where
  size := .inl rfl
  led := fun _ _ _ h => absurd (lt_of_bucket_eq_full h) (Nat.not_lt_zero _)
  room := Nat.le_refl 0

theorem contents_replicate (size : Nat) : contents (List.replicate size .empty) = [] := by
  simp [contents, Bucket.content?]

theorem Sound.resize (table : HashTable) {size : Nat} (hsize : IsSize size)
    (hitems : table.entries.length ≤ capacity size) :
    Sound (table.resize size) ∧ (table.resize size).entries.Perm table.entries := by
  have hlength : (List.replicate size Bucket.empty).length = size := List.length_replicate
  have hused : used (List.replicate size Bucket.empty) = 0 := by
    simp [used, Bucket.isEmpty, List.countP_replicate]
  have hled : Led (List.replicate size Bucket.empty) := by
    intro i key slot hi
    rw [bucket_eq_getElem (lt_of_bucket_eq_full hi), List.getElem_replicate] at hi
    cases hi
  have htakes := foldl_place_takes table.entries (hlength.symm ▸ hsize) hled (by
    rw [hused, hlength]
    exact Nat.lt_of_le_of_lt (by omega) (capacity_lt hsize))
  have hresized : (table.resize size).buckets.length = size := htakes.length.trans hlength
  refine ⟨⟨.inr (hresized.symm ▸ hsize), htakes.led, ?_⟩, ?_⟩
  · have := htakes.used_le
    rw [hresized]
    rw [hused] at this
    change capacity size - table.entries.length + used (table.resize size).buckets ≤ capacity size
    change used (table.resize size).buckets ≤ _ at this
    omega
  · have := htakes.contents
    rwa [contents_replicate, List.append_nil] at this

theorem Sound.length_entries_le (h : Sound table) :
    table.entries.length ≤ capacity table.buckets.length := by
  have := h.room
  have : table.entries.length ≤ used table.buckets := length_contents_le
  omega

theorem Sound.rehash (h : Sound table) (hsize : IsSize table.buckets.length) :
    Sound table.rehash ∧ table.rehash.entries.Perm table.entries := by
  obtain ⟨hlength, hled, hentries, hused⟩ := rehash_spec hsize
  have hitems := h.length_entries_le
  refine ⟨⟨.inr (hlength.symm ▸ hsize), hled, ?_⟩, hentries⟩
  rw [hused, hlength]
  change capacity table.buckets.length - table.entries.length + table.entries.length ≤ _
  omega

/-- The keys stay, and there is the room that was asked for. -/
theorem Sound.reserve (h : Sound table) (count : Nat) :
    Sound (table.reserve count) ∧ (table.reserve count).entries.Perm table.entries ∧
      count ≤ (table.reserve count).room := by
  have hitems := h.length_entries_le
  rw [HashTable.reserve]
  split
  · next hroom => exact ⟨h, .refl _, hroom⟩
  split
  · next hhalf =>
      have hsize := isSize_of_capacity h.size (by omega)
      obtain ⟨hsound, hentries⟩ := h.rehash hsize
      refine ⟨hsound, hentries, ?_⟩
      change count ≤ capacity table.buckets.length - table.entries.length
      omega
  · have hcapacity := le_capacity_sizeFor
      (max (table.entries.length + count) (capacity table.buckets.length + 1))
    obtain ⟨hsound, hentries⟩ := Sound.resize table (isSize_sizeFor _)
      (Nat.le_trans (by omega) hcapacity)
    refine ⟨hsound, hentries, ?_⟩
    change count ≤ capacity _ - table.entries.length
    omega

/-! ## Looking up -/

theorem find?_eq_some {key : Row} {i : Nat} (h : table.find? key = some i) :
    ∃ stored slot, bucket table.buckets i = .full stored slot ∧ stored.same key = true := by
  obtain ⟨hholds, -⟩ := search_eq_some h
  cases hb : bucket table.buckets i with
  | full stored slot =>
      rw [hb, Bucket.holds, Bool.and_eq_true] at hholds
      exact ⟨stored, slot, rfl, hholds.2⟩
  | _ => rw [hb] at hholds; cases hholds

theorem get?_eq_some {key : Row} {slot : Nat} (h : table.get? key = some slot) :
    ∃ stored, (stored, slot) ∈ table.entries ∧ stored.same key = true := by
  obtain ⟨i, hi, h⟩ := Option.bind_eq_some_iff.mp h
  obtain ⟨stored, slot', hb, hsame⟩ := find?_eq_some hi
  rw [hb] at h
  cases h
  exact ⟨stored, mem_contents.mpr ⟨i, hb⟩, hsame⟩

theorem Sound.find?_isSome (h : Sound table) {stored key : Row} {slot : Nat}
    (hstored : (stored, slot) ∈ table.entries) (hsame : stored.same key = true)
    (hdigest : stored.digest = key.digest) : (table.find? key).isSome := by
  obtain ⟨i, hi⟩ := mem_contents.mp hstored
  have hreached := h.led i stored slot hi
  rw [Reached, hdigest] at hreached
  refine search_isSome hreached ?_
  rw [hi, Bucket.holds, hdigest, hsame, beq_self_eq_true]
  rfl

theorem get?_isSome_of_find? {key : Row} (h : (table.find? key).isSome) :
    (table.get? key).isSome := by
  obtain ⟨i, hi⟩ := Option.isSome_iff_exists.mp h
  obtain ⟨stored, slot, hb, -⟩ := find?_eq_some hi
  rw [get?, hi, Option.bind_eq_bind, Option.bind_some, hb]
  rfl

theorem find?_eq_none {key : Row} (h : ∀ e ∈ table.entries, e.1.same key = false) :
    table.find? key = none := by
  cases hfind : table.find? key with
  | none => rfl
  | some i =>
      obtain ⟨stored, slot, hb, hsame⟩ := find?_eq_some hfind
      have := h (stored, slot) (mem_contents.mpr ⟨i, hb⟩)
      rw [hsame] at this
      cases this

/-! ## Storing -/

/-- A new key in a vacant bucket of a table with room. -/
theorem Sound.fill (h : Sound table) (hroom : 0 < table.room) {key : Row} {slot i : Nat}
    (hi : vacancy table.buckets key.digest = some i) :
    Sound ⟨table.buckets.set i (.full key slot),
      if (bucket table.buckets i).isEmpty then table.room - 1 else table.room⟩ ∧
    (contents (table.buckets.set i (.full key slot))).Perm ((key, slot) :: table.entries) := by
  obtain ⟨hfull, hreached⟩ := vacancy_eq_some hi
  have htakes := takes_set (e := (key, slot)) h.led hfull hreached
  refine ⟨⟨htakes.length.symm ▸ h.size, htakes.led, ?_⟩, htakes.contents⟩
  have hused := used_set (.full key slot) hreached.lt
  have := h.room
  rw [htakes.length]
  change used _ + _ = used table.buckets + 1 at hused
  change (if _ then _ else _) + used (table.buckets.set i (.full key slot)) ≤ _
  cases hempty : (bucket table.buckets i).isEmpty with
  | true =>
      rw [hempty, if_pos rfl] at hused
      rw [if_pos rfl]
      omega
  | false =>
      rw [hempty, if_neg Bool.false_ne_true] at hused
      rw [if_neg Bool.false_ne_true]
      omega

/-- Another slot for a key that is stored. -/
theorem Sound.replace (h : Sound table) {stored : Row} {slot' i : Nat} (slot : Nat)
    (hi : bucket table.buckets i = .full stored slot') :
    Sound { table with buckets := table.buckets.set i (.full stored slot) } := by
  have hlt := lt_of_bucket_eq_full hi
  have hused := used_set (.full stored slot) hlt
  rw [hi] at hused
  simp only [Bucket.isEmpty, Bool.false_eq_true, if_false] at hused
  refine ⟨?_, h.led.set_full (h.led i stored slot' hi), ?_⟩
  · change (table.buckets.set i _).length = 0 ∨ IsSize (table.buckets.set i _).length
    rw [List.length_set]
    exact h.size
  · change table.room + used (table.buckets.set i _) ≤ capacity (table.buckets.set i _).length
    rw [List.length_set, Nat.succ.inj hused]
    exact h.room

theorem Sound.insert (h : Sound table) (key : Row) (slot : Nat) :
    Sound (table.insert key slot) := by
  obtain ⟨hsound, -, hroom⟩ := h.reserve 1
  rw [HashTable.insert]
  split
  · next i hi =>
      split
      · next stored slot' hb => exact hsound.replace slot hb
      · exact hsound
  · split
    · exact hsound
    · next i hi => exact (hsound.fill hroom hi).1

/-- A key that is equal to none of those that are stored is stored beside them. -/
theorem Sound.entries_insert (h : Sound table) {key : Row} (slot : Nat)
    (hnew : ∀ e ∈ table.entries, e.1.same key = false) :
    (table.insert key slot).entries.Perm ((key, slot) :: table.entries) := by
  obtain ⟨hsound, hentries, hroom⟩ := h.reserve 1
  have hnone := find?_eq_none fun e he => hnew e (hentries.mem_iff.mp he)
  have hsize := isSize_of_capacity hsound.size (by have := hsound.room; omega)
  have hused : used (table.reserve 1).buckets < (table.reserve 1).buckets.length := by
    have := hsound.room
    have := capacity_lt hsize
    omega
  obtain ⟨i, hi⟩ := exists_vacancy hsize hused key.digest
  rw [HashTable.insert, hnone, hi]
  exact (hsound.fill hroom hi).2.trans (hentries.cons _)

/-! ## Taking out -/

theorem le_span {buckets : List Bucket} {positions : List Nat} {m : Nat}
    (hm : m ≤ positions.length)
    (h : ∀ j ∈ positions.take m, (bucket buckets j).isEmpty = false) :
    m ≤ span buckets positions := by
  induction positions generalizing m with
  | nil => exact Nat.le_trans hm (Nat.zero_le _)
  | cons j positions ih =>
      cases m with
      | zero => exact Nat.zero_le _
      | succ m =>
          rw [List.take_succ_cons] at h
          have hj : (bucket buckets j).isEmpty = false := h j List.mem_cons_self
          rw [span, List.takeWhile_cons, hj]
          exact Nat.succ_le_succ (ih (Nat.le_of_succ_le_succ hm) fun k hk =>
            h k (List.mem_cons_of_mem _ hk))

theorem le_span_map {buckets : List Bucket} {f : Nat → Nat} {m n : Nat} (hm : m ≤ n)
    (h : ∀ d < m, (bucket buckets (f d)).isEmpty = false) :
    m ≤ span buckets ((List.range n).map f) := by
  refine le_span (by rwa [List.length_map, List.length_range]) fun j hj => ?_
  rw [← List.map_take, List.take_range, Nat.min_eq_left hm] at hj
  obtain ⟨d, hd, rfl⟩ := List.mem_map.mp hj
  exact h d (List.mem_range.mp hd)

/-- If a window without an empty bucket has the position `i`, what `erase` looks at on both sides
of `i` makes up a whole window. -/
theorem any_isEmpty_of_span {buckets : List Bucket} {i digest : Nat} {w : List Nat}
    (hused : used buckets < buckets.length) (hw : w ∈ windows buckets.length digest) (hi : i ∈ w)
    (hspan : span buckets ((List.range (min width buckets.length)).map
        fun d => (i + buckets.length - 1 - d) % buckets.length) +
      span buckets (window buckets.length i) < width) :
    w.any (fun j => (bucket buckets j).isEmpty) = true := by
  rcases Nat.le_total buckets.length width with hsize | hsize
  · obtain ⟨w', hwindows, hall⟩ := windows_of_le digest hsize
    obtain ⟨j, hj, hempty⟩ := exists_empty hused
    rw [hwindows, List.mem_singleton] at hw
    exact List.any_eq_true.mpr ⟨j, hw ▸ hall j hj, hempty⟩
  · obtain ⟨step, -, rfl⟩ := List.mem_map.mp hw
    generalize digest + width * (step * (step + 1) / 2) = start at hi ⊢
    obtain ⟨d, hd, rfl⟩ := mem_window.mp hi
    rw [Nat.min_eq_left hsize] at hd hspan
    by_contra hfull
    have hall : ∀ e < width, (bucket buckets ((start + e) % buckets.length)).isEmpty = false := by
      rw [Bool.not_eq_true, List.any_eq_false] at hfull
      exact fun e he => Bool.eq_false_of_not_eq_true
        (hfull _ (mem_window.mpr ⟨e, by rwa [Nat.min_eq_left hsize], rfl⟩))
    have hbefore : d ≤ span buckets ((List.range width).map
        fun e => ((start + d) % buckets.length + buckets.length - 1 - e) % buckets.length) := by
      refine le_span_map hd.le fun e he => ?_
      have hback : start + d + (buckets.length - 1 - e) =
          start + (d - 1 - e) + buckets.length := by omega
      rw [Nat.add_sub_assoc (by omega), Nat.add_sub_assoc (by omega), Nat.mod_add_mod, hback,
        Nat.add_mod_right]
      exact hall _ (by omega)
    have hafter :
        width - d ≤ span buckets (window buckets.length ((start + d) % buckets.length)) := by
      rw [window, Nat.min_eq_left hsize]
      refine le_span_map (Nat.sub_le _ _) fun e he => ?_
      rw [Nat.mod_add_mod, Nat.add_assoc]
      exact hall _ (by omega)
    omega

theorem Sound.erase (h : Sound table) {key : Row} {slot i : Nat}
    (hi : bucket table.buckets i = .full key slot) :
    Sound (table.erase i) ∧ ((key, slot) :: (table.erase i).entries).Perm table.entries := by
  have hlt := lt_of_bucket_eq_full hi
  have hroom := h.room
  have hsize : IsSize table.buckets.length := h.size.resolve_left (by omega)
  have hcontents := fun b => contents_set b hlt
  have hused := fun b => used_set b hlt
  simp only [hi] at hcontents hused
  rw [HashTable.erase]
  split
  · refine ⟨⟨.inr ?_, h.led.set_deleted hlt, ?_⟩, hcontents .deleted⟩
    · rwa [List.length_set]
    · have : used (table.buckets.set i .deleted) + 1 = used table.buckets + 1 := hused .deleted
      rw [List.length_set]
      change table.room + used (table.buckets.set i .deleted) ≤ _
      omega
  · next hspan =>
      have hcapacity := capacity_lt hsize
      refine ⟨⟨.inr ?_, h.led.set_empty hlt fun digest w hw hmem => ?_, ?_⟩, hcontents .empty⟩
      · rwa [List.length_set]
      · exact any_isEmpty_of_span (by omega) hw hmem (Nat.lt_of_not_le hspan)
      · have : used (table.buckets.set i .empty) + 1 = used table.buckets := hused .empty
        rw [List.length_set]
        change table.room + 1 + used (table.buckets.set i .empty) ≤ _
        omega

theorem Sound.remove (h : Sound table) (key : Row) : Sound (table.remove key) := by
  rw [HashTable.remove]
  split
  · next i hi =>
      obtain ⟨stored, slot, hb, -⟩ := find?_eq_some hi
      exact (h.erase hb).1
  · exact h

/-- A key that is equal to none of the others is taken out alone. -/
theorem Sound.entries_remove (h : Sound table) {key : Row} {slot : Nat} {rest : List (Row × Nat)}
    (hstored : table.entries.Perm ((key, slot) :: rest))
    (hrest : ∀ e ∈ rest, e.1.same key = false) : (table.remove key).entries.Perm rest := by
  have hmem : (key, slot) ∈ table.entries := hstored.mem_iff.mpr List.mem_cons_self
  obtain ⟨i, hi⟩ := Option.isSome_iff_exists.mp (h.find?_isSome hmem key.same_self rfl)
  obtain ⟨stored, slot', hb, hsame⟩ := find?_eq_some hi
  have heq : (stored, slot') = (key, slot) := by
    have : (stored, slot') ∈ table.entries := mem_contents.mpr ⟨i, hb⟩
    rcases List.mem_cons.mp (hstored.mem_iff.mp this) with heq | hother
    · exact heq
    · have := hrest _ hother
      rw [hsame] at this
      cases this
  have hperm := (h.erase hb).2.trans hstored
  rw [heq] at hperm
  rw [HashTable.remove, hi]
  exact hperm.cons_inv

/-! ## The laws -/

theorem sound_of_made {room : Nat} {table : HashTable} (h : @KeyMap.Made (keyMap room) table) :
    Sound table := by
  let := keyMap room
  induction h with
  | empty => exact (Sound.empty.reserve room).1
  | insert key slot _ ih => exact ih.insert key slot
  | remove key _ ih => exact ih.remove key

theorem lawful_keyMap (room : Nat) : @LawfulKeyMap (keyMap room) :=
  let := keyMap room
  { entries_empty := (Sound.empty.reserve room).2.1.eq_nil
    sound := fun _ hget => get?_eq_some hget
    complete := fun h hstored hsame hvalue =>
      get?_isSome_of_find?
        ((sound_of_made h).find?_isSome hstored hsame (Row.digest_of_compare hvalue))
    insert := fun slot h hnew => (sound_of_made h).entries_insert slot hnew
    remove := fun h hstored hrest => (sound_of_made h).entries_remove hstored hrest }

instance : LawfulKeyMap :=
  lawful_keyMap 0

end RowCode.HashTable
