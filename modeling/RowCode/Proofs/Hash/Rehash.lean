import RowCode.Proofs.Hash.Buckets

/-!
# Keys that find new places in their own table

`rehash` calls `settle` for every position. A call moves one key after the other,
each to the first place on its way that is not taken by a moved one, until the
position is free or has a key that belongs there. Searches for the moved keys get
to them all the time (`Settling`), whatever becomes of the others, because only
moved keys count as taken; and after the last call all keys have moved.
-/

namespace RowCode.HashTable

section Cells

variable {cells : List Cell} {i j : Nat}

theorem cell_set (c : Cell) (hi : i < cells.length) :
    cell (cells.set i c) j = if i = j then c else cell cells j := by
  rw [cell, cell, List.getD_eq_getElem?_getD, List.getD_eq_getElem?_getD, List.getElem?_set]
  split
  · rw [Option.getD_some]
  · rfl

theorem bucket_map (cells : List Cell) (i : Nat) :
    bucket (cells.map Cell.toBucket) i = (cell cells i).toBucket := by
  rw [bucket, cell, List.getD_eq_getElem?_getD, List.getD_eq_getElem?_getD, List.getElem?_map]
  cases cells[i]? <;> rfl

theorem content?_ofBucket (b : Bucket) :
    (Cell.ofBucket b).toBucket.content? = b.content? := by
  cases b <;> rfl

/-- Searches for the keys that have a place get there, past the places of others only. -/
def Settling (cells : List Cell) : Prop :=
  ∀ i key slot, cell cells i = .placed key slot →
    Leads (fun j => !(cell cells j).isPlaced) i (windows cells.length key.digest)

/-- To put a key in a place that its search gets to. -/
theorem Settling.set_placed {key : Row} {slot : Nat} (h : Settling cells) (hi : i < cells.length)
    (hleads : Leads (fun j => !(cell cells j).isPlaced) i (windows cells.length key.digest)) :
    Settling (cells.set i (.placed key slot)) := by
  have hstop : ∀ j, (!(cell (cells.set i (.placed key slot)) j).isPlaced) = true →
      (!(cell cells j).isPlaced) = true := by
    intro j hj
    rw [cell_set _ hi] at hj
    split at hj
    · cases hj
    · exact hj
  intro j key' slot' hj
  rw [List.length_set]
  rw [cell_set _ hi] at hj
  split at hj
  · next hij =>
      cases hj
      exact hij ▸ hleads.of_imp hstop
  · exact (h j key' slot' hj).of_imp hstop

/-- What stands in a place that no key has taken makes no difference. -/
theorem Settling.set_other {c : Cell} (h : Settling cells) (hi : i < cells.length)
    (hold : (cell cells i).isPlaced = false) (hc : c.isPlaced = false) :
    Settling (cells.set i c) := by
  intro j key slot hj
  rw [List.length_set]
  rw [cell_set _ hi] at hj
  split at hj
  · rw [hj] at hc
    cases hc
  · refine (h j key slot hj).of_imp fun k hk => ?_
    rw [cell_set _ hi] at hk
    split at hk
    · next hik => rw [← hik, hold]; rfl
    · exact hk

end Cells

/-- What becomes of the cells with a call for the position `i`. -/
structure Settled (i : Nat) (cells cells' : List Cell) : Prop where
  length : cells'.length = cells.length
  settling : Settling cells'
  contents : (contents (cells'.map Cell.toBucket)).Perm (contents (cells.map Cell.toBucket))
  waiting : ∀ j, (cell cells' j).isWaiting = true → (cell cells j).isWaiting = true ∧ j ≠ i

variable {cells : List Cell} {i j : Nat} {key : Row} {slot : Nat}

/-- A key that is in the right window stays. -/
theorem settled_stay (h : Settling cells) (hi : i < cells.length)
    (hwaits : cell cells i = .waiting key slot)
    (hleads : Leads (fun j => !(cell cells j).isPlaced) i (windows cells.length key.digest)) :
    Settled i cells (cells.set i (.placed key slot)) where
  length := List.length_set
  settling := h.set_placed hi hleads
  contents := by
    have hsame : (cells.map Cell.toBucket).set i (.full key slot) = cells.map Cell.toBucket := by
      have hbucket : bucket (cells.map Cell.toBucket) i = .full key slot := by
        rw [bucket_map, hwaits]
        rfl
      have hi' : i < (cells.map Cell.toBucket).length := by rwa [List.length_map]
      rw [← hbucket, bucket_eq_getElem hi', List.set_getElem_self]
    rw [List.map_set, Cell.toBucket, hsame]
  waiting := by
    intro j hj
    rw [cell_set _ hi] at hj
    split at hj
    · cases hj
    · next hne => exact ⟨hj, fun heq => hne heq.symm⟩

/-- A key moves from position `i` to the place `j`, and what stood there comes to `i`. -/
theorem settling_move {c : Cell} (h : Settling cells) (hi : i < cells.length)
    (hwaits : cell cells i = .waiting key slot) (hne : j ≠ i)
    (hleads : Leads (fun j => !(cell cells j).isPlaced) j (windows cells.length key.digest))
    (hc : c.isPlaced = false) (hbucket : c.toBucket = (cell cells j).toBucket) :
    Settling ((cells.set j (.placed key slot)).set i c) ∧
      (contents (((cells.set j (.placed key slot)).set i c).map Cell.toBucket)).Perm
        (contents (cells.map Cell.toBucket)) := by
  have hj : j < cells.length := by
    obtain ⟨w, hw, hmem⟩ := hleads.exists_mem
    exact lt_of_mem_windows hw hmem
  constructor
  · refine (h.set_placed hj hleads).set_other (by rwa [List.length_set]) ?_ hc
    rw [cell_set _ hj, if_neg hne, hwaits]
    rfl
  · have hfrom : bucket (cells.map Cell.toBucket) i = (Cell.placed key slot).toBucket := by
      rw [bucket_map, hwaits]
      rfl
    have hto : bucket (cells.map Cell.toBucket) j = c.toBucket := by rw [bucket_map, hbucket]
    rw [List.map_set, List.map_set, ← hfrom, ← hto]
    exact contents_exchange (by rwa [List.length_map]) (by rwa [List.length_map]) hne

/-- The cells that wait after a move are those that did, without the place that was found. -/
theorem isWaiting_move {c : Cell} {k : Nat} (hi : i < cells.length) (hj : j < cells.length)
    (hk : (cell ((cells.set j (.placed key slot)).set i c) k).isWaiting = true) :
    k = i ∧ c.isWaiting = true ∨ k ≠ i ∧ (cell cells k).isWaiting = true := by
  rw [cell_set _ (by rwa [List.length_set]), cell_set _ hj] at hk
  split at hk
  · next hik => exact .inl ⟨hik.symm, hk⟩
  · next hik =>
      split at hk
      · cases hk
      · exact .inr ⟨fun heq => hik heq.symm, hk⟩

/-- The induction is on the number of keys that wait. -/
theorem settle_settled (hsize : IsSize cells.length) (h : Settling cells) (hi : i < cells.length) :
    Settled i cells (settle cells i) := by
  fun_induction settle cells i with
  | case1 cells key slot hwaits hprobe =>
      -- The position itself is a place on every way.
      obtain ⟨k, -, hk⟩ := hsize
      have hmem : ∃ w ∈ windows cells.length key.digest, i ∈ w := by
        rw [hk] at hi ⊢
        exact exists_mem_windows _ hi
      have hsome := probe_isSome (p := fun j => !(cell cells j).isPlaced) hmem (by
        rw [hwaits]
        rfl)
      rw [hprobe] at hsome
      cases hsome
  | case2 cells key slot hwaits w j hprobe hw =>
      obtain ⟨-, -, hleads⟩ := leads_of_probe hprobe
      exact settled_stay h hi hwaits (hleads i hw)
  | case3 cells key slot hwaits w j hprobe hw key' slot' hj ih =>
      obtain ⟨-, hmem, hleads⟩ := leads_of_probe hprobe
      have hjw := mem_of_probe hprobe
      have hne : j ≠ i := fun heq => hw (heq ▸ hjw)
      have hjlt := lt_of_mem_windows hmem hjw
      obtain ⟨hsettling, hcontents⟩ := settling_move (c := .waiting key' slot') h hi hwaits hne
        (hleads j hjw) rfl (by rw [hj])
      have hlength : ((cells.set j (.placed key slot)).set i (.waiting key' slot')).length =
          cells.length := by rw [List.length_set, List.length_set]
      have hrest := ih (hlength ▸ hsize) hsettling (hlength ▸ hi)
      refine ⟨hrest.length.trans hlength, hrest.settling, hrest.contents.trans hcontents, ?_⟩
      intro k hk
      obtain ⟨hwaiting, hki⟩ := hrest.waiting k hk
      rcases isWaiting_move hi hjlt hwaiting with ⟨rfl, -⟩ | ⟨-, hold⟩
      · contradiction
      · exact ⟨hold, hki⟩
  | case4 cells key slot hwaits w j hprobe hw hj =>
      obtain ⟨hplaced, hmem, hleads⟩ := leads_of_probe hprobe
      have hjw := mem_of_probe hprobe
      have hne : j ≠ i := fun heq => hw (heq ▸ hjw)
      have hvacant : cell cells j = .vacant := by
        cases hc : cell cells j with
        | vacant => rfl
        | waiting key' slot' => exact (hj key' slot' hc).elim
        | placed key' slot' =>
            rw [hc] at hplaced
            cases hplaced
      obtain ⟨hsettling, hcontents⟩ := settling_move (c := .vacant) h hi hwaits hne
        (hleads j hjw) rfl (by rw [hvacant])
      refine ⟨by rw [List.length_set, List.length_set], hsettling, hcontents, ?_⟩
      intro k hk
      rcases isWaiting_move hi (lt_of_mem_windows hmem hjw) hk with ⟨-, hc⟩ | ⟨hki, hold⟩
      · cases hc
      · exact ⟨hold, hki⟩
  | case5 cells hother =>
      refine ⟨rfl, h, .refl _, fun j hj => ⟨hj, ?_⟩⟩
      rintro rfl
      cases hc : cell cells j with
      | waiting key slot => exact hother key slot hc
      | _ => rw [hc] at hj; cases hj

/-- After calls for the positions in a list, no key waits at any of them. -/
theorem foldl_settle (positions : List Nat) : ∀ {cells : List Cell}, IsSize cells.length →
    Settling cells → (∀ i ∈ positions, i < cells.length) →
    let cells' := positions.foldl settle cells
    cells'.length = cells.length ∧ Settling cells' ∧
      (contents (cells'.map Cell.toBucket)).Perm (contents (cells.map Cell.toBucket)) ∧
      ∀ j, (cell cells' j).isWaiting = true → (cell cells j).isWaiting = true ∧ j ∉ positions := by
  induction positions with
  | nil => exact fun _ h _ => ⟨rfl, h, .refl _, fun j hj => ⟨hj, List.not_mem_nil⟩⟩
  | cons i positions ih =>
      intro cells hsize h hlt
      have hfirst := settle_settled hsize h (hlt i List.mem_cons_self)
      obtain ⟨hlength, hsettling, hcontents, hwaiting⟩ := ih (hfirst.length ▸ hsize)
        hfirst.settling fun j hj => hfirst.length ▸ hlt j (List.mem_cons_of_mem _ hj)
      refine ⟨hlength.trans hfirst.length, hsettling, hcontents.trans hfirst.contents, ?_⟩
      intro j hj
      obtain ⟨hj, hnot⟩ := hwaiting j hj
      obtain ⟨hj, hne⟩ := hfirst.waiting j hj
      exact ⟨hj, by rw [List.mem_cons, not_or]; exact ⟨hne, hnot⟩⟩

/-- Cells without a waiting key, as buckets: searches get to all keys. -/
theorem led_of_settling (h : Settling cells) (hwaiting : ∀ j, (cell cells j).isWaiting = false) :
    Led (cells.map Cell.toBucket) := by
  intro i key slot hi
  rw [bucket_map] at hi
  rw [Reached, List.length_map]
  have hplaced : cell cells i = .placed key slot := by
    cases hc : cell cells i with
    | vacant => rw [hc] at hi; cases hi
    | waiting key' slot' =>
        have := hwaiting i
        rw [hc] at this
        cases this
    | placed key' slot' =>
        rw [hc] at hi
        cases hi
        rfl
  refine (h i key slot hplaced).of_imp fun j hj => ?_
  rw [bucket_map] at hj
  cases hc : cell cells j <;> first | rfl | (rw [hc] at hj; cases hj)

/-- The table after its keys have found new places: the keys are the same, searches get to them,
and no other bucket is in use. -/
theorem rehash_spec {table : HashTable} (hsize : IsSize table.buckets.length) :
    table.rehash.buckets.length = table.buckets.length ∧ Led table.rehash.buckets ∧
      table.rehash.entries.Perm table.entries ∧
      used table.rehash.buckets = table.entries.length := by
  have hstart : Settling (table.buckets.map Cell.ofBucket) := by
    intro i key slot hi
    rw [cell, List.getD_eq_getElem?_getD, List.getElem?_map] at hi
    cases hb : table.buckets[i]? with
    | none => rw [hb] at hi; cases hi
    | some b => rw [hb] at hi; cases b <;> cases hi
  have hlt : ∀ i ∈ List.range table.buckets.length,
      i < (table.buckets.map Cell.ofBucket).length := fun i hi => by
    rw [List.length_map]
    exact List.mem_range.mp hi
  obtain ⟨hlength, hsettling, hcontents, hwaiting⟩ :=
    foldl_settle _ (by rwa [List.length_map]) hstart hlt
  rw [List.length_map] at hlength
  have hnone : ∀ j, (cell ((List.range table.buckets.length).foldl settle
      (table.buckets.map Cell.ofBucket)) j).isWaiting = false := by
    intro j
    by_contra hj
    rw [Bool.not_eq_false] at hj
    have hnot := (hwaiting j hj).2
    rw [List.mem_range, Nat.not_lt, ← hlength] at hnot
    rw [cell, List.getD_eq_getElem?_getD, List.getElem?_eq_none hnot] at hj
    cases hj
  have hentries : table.rehash.entries.Perm table.entries := by
    refine hcontents.trans (List.Perm.of_eq ?_)
    rw [contents, entries, List.map_map, List.filterMap_map]
    exact List.filterMap_congr fun b _ => content?_ofBucket b
  refine ⟨(List.length_map _).trans hlength, led_of_settling hsettling hnone, hentries, ?_⟩
  rw [← hentries.length_eq]
  refine used_eq_length_contents fun hmem => ?_
  obtain ⟨c, -, hc⟩ := List.mem_map.mp hmem
  cases c <;> cases hc

end RowCode.HashTable
