import RowCode.Proofs.Hash.Windows

/-!
# Buckets and searches

What the buckets of a table hold (`contents`), how many are not empty (`used`),
and how both change with one bucket. A search for a stored key has to get to its
bucket (`Led`). To fill a bucket that is not full ends no search. To empty one
may end some, unless every window that it is in has another empty bucket.
-/

namespace RowCode.HashTable

/-! ## Buckets -/

section Buckets

variable {buckets : List Bucket} {i j : Nat} {key : Row} {slot : Nat}

theorem bucket_set (b : Bucket) (hi : i < buckets.length) :
    bucket (buckets.set i b) j = if i = j then b else bucket buckets j := by
  rw [bucket, bucket, List.getD_eq_getElem?_getD, List.getD_eq_getElem?_getD, List.getElem?_set]
  split
  · rw [Option.getD_some]
  · rfl

theorem bucket_eq_getElem (hi : i < buckets.length) : bucket buckets i = buckets[i] := by
  rw [bucket, List.getD_eq_getElem?_getD, List.getElem?_eq_getElem hi, Option.getD_some]

theorem lt_of_bucket_eq_full (h : bucket buckets i = .full key slot) : i < buckets.length := by
  by_contra hi
  rw [bucket, List.getD_eq_getElem?_getD, List.getElem?_eq_none (Nat.le_of_not_lt hi)] at h
  cases h

/-- The keys in the buckets, with their slots. -/
def contents (buckets : List Bucket) : List (Row × Nat) :=
  buckets.filterMap Bucket.content?

theorem content?_eq_some {b : Bucket} {e : Row × Nat} :
    b.content? = some e ↔ b = .full e.1 e.2 := by
  cases b <;> simp [Bucket.content?, Prod.ext_iff]

theorem mem_contents {e : Row × Nat} :
    e ∈ contents buckets ↔ ∃ i, bucket buckets i = .full e.1 e.2 := by
  simp only [contents, List.mem_filterMap, content?_eq_some]
  constructor
  · rintro ⟨_, hmem, rfl⟩
    obtain ⟨i, hi, hget⟩ := List.mem_iff_getElem.mp hmem
    exact ⟨i, (bucket_eq_getElem hi).trans hget⟩
  · rintro ⟨i, h⟩
    have hi := lt_of_bucket_eq_full h
    exact ⟨_, List.getElem_mem hi, (bucket_eq_getElem hi).symm.trans h⟩

/-- With another bucket in one place, its content comes in place of that of the old one. -/
theorem contents_set (b : Bucket) : ∀ {buckets : List Bucket} {i : Nat}, i < buckets.length →
    ((bucket buckets i).content?.toList ++ contents (buckets.set i b)).Perm
      (b.content?.toList ++ contents buckets)
  | old :: buckets, 0, _ => by
      change (old.content?.toList ++ contents (b :: buckets)).Perm
        (b.content?.toList ++ contents (old :: buckets))
      have hcons : ∀ c : Bucket, contents (c :: buckets) = c.content?.toList ++ contents buckets :=
        fun c => by cases h : c.content? <;> simp [contents, h]
      rw [hcons, hcons, ← List.append_assoc, ← List.append_assoc]
      exact List.perm_append_comm.append_right _
  | old :: buckets, i + 1, hi => by
      have ih := contents_set b (Nat.lt_of_succ_lt_succ hi)
      have hcons : ∀ bs : List Bucket, contents (old :: bs) = old.content?.toList ++ contents bs :=
        fun bs => by cases h : old.content? <;> simp [contents, h]
      change ((bucket buckets i).content?.toList ++ contents (old :: buckets.set i b)).Perm _
      rw [hcons, hcons]
      refine (List.perm_append_comm_assoc _ _ _).trans ?_
      exact (ih.append_left _).trans (List.perm_append_comm_assoc _ _ _)

/-- Two buckets that change places hold what they held. -/
theorem contents_exchange (hi : i < buckets.length) (hj : j < buckets.length) (hne : j ≠ i) :
    (contents ((buckets.set j (bucket buckets i)).set i (bucket buckets j))).Perm
      (contents buckets) := by
  have hfirst := contents_set (bucket buckets i) hj
  have hsecond := contents_set (bucket buckets j)
    (show i < (buckets.set j (bucket buckets i)).length by rwa [List.length_set])
  rw [bucket_set _ hj, if_neg hne] at hsecond
  exact (List.perm_append_left_iff _).mp (hsecond.trans hfirst)

/-- How many buckets are not empty. -/
def used (buckets : List Bucket) : Nat :=
  buckets.countP fun b => !b.isEmpty

theorem length_contents_le : (contents buckets).length ≤ used buckets := by
  rw [contents, List.length_filterMap_eq_countP, used]
  refine List.countP_mono_left fun b _ h => ?_
  cases b <;> first | rfl | cases h

/-- Without deleted buckets, all that are not empty hold something. -/
theorem used_eq_length_contents (h : Bucket.deleted ∉ buckets) :
    used buckets = (contents buckets).length := by
  rw [contents, List.length_filterMap_eq_countP, used]
  refine List.countP_congr fun b hb => ?_
  cases b with
  | deleted => exact absurd hb h
  | _ => rfl

theorem used_set (b : Bucket) (hi : i < buckets.length) :
    used (buckets.set i b) + (if (bucket buckets i).isEmpty then 0 else 1) =
      used buckets + (if b.isEmpty then 0 else 1) := by
  have hpos : buckets[i].isEmpty = false → 0 < used buckets := fun h =>
    List.countP_pos_iff.mpr ⟨_, List.getElem_mem hi, by rw [h]; rfl⟩
  rw [used] at hpos
  rw [bucket_eq_getElem hi, used, used, List.countP_set hi]
  cases hold : buckets[i].isEmpty with
  | true => cases b.isEmpty <;> simp
  | false =>
      have := hpos hold
      cases b.isEmpty <;> simp <;> omega

end Buckets

/-! ## Searches for stored keys -/

/-- The sizes of tables that hold something. -/
def IsSize (n : Nat) : Prop :=
  ∃ k, 2 ≤ k ∧ n = 2 ^ k

/-- A search for a key with the digest gets to the position. -/
def Reached (buckets : List Bucket) (digest i : Nat) : Prop :=
  Leads (fun j => (bucket buckets j).isEmpty) i (windows buckets.length digest)

/-- Searches for the keys that are stored get to them. -/
def Led (buckets : List Bucket) : Prop :=
  ∀ i key slot, bucket buckets i = .full key slot → Reached buckets key.digest i

section Searches

variable {buckets : List Bucket} {i digest : Nat}

theorem Reached.lt (h : Reached buckets digest i) : i < buckets.length := by
  obtain ⟨w, hw, hi⟩ := h.exists_mem
  exact lt_of_mem_windows hw hi

/-- To put something in place of a bucket ends no search. -/
theorem Reached.set {j : Nat} {b : Bucket} (h : Reached buckets digest i) (hb : b.isEmpty = false)
    (hj : j < buckets.length) : Reached (buckets.set j b) digest i := by
  rw [Reached, List.length_set]
  refine Leads.of_imp h fun k hk => ?_
  rw [bucket_set b hj] at hk
  split at hk
  · rw [hb] at hk
    cases hk
  · exact hk

theorem Led.set_full {key : Row} {slot : Nat} (h : Led buckets)
    (hreached : Reached buckets key.digest i) : Led (buckets.set i (.full key slot)) := by
  intro j key' slot' hj
  rw [bucket_set _ hreached.lt] at hj
  split at hj
  · next hij =>
      cases hj
      exact hij ▸ hreached.set rfl hreached.lt
  · exact (h j key' slot' hj).set rfl hreached.lt

theorem Led.set_deleted (h : Led buckets) (hi : i < buckets.length) :
    Led (buckets.set i .deleted) := by
  intro j key slot hj
  rw [bucket_set _ hi] at hj
  split at hj
  · cases hj
  · exact (h j key slot hj).set rfl hi

/-- A bucket may be emptied if all windows that it is in have another empty one. -/
theorem Led.set_empty (h : Led buckets) (hi : i < buckets.length)
    (hwindows : ∀ digest, ∀ w ∈ windows buckets.length digest, i ∈ w →
      w.any (fun j => (bucket buckets j).isEmpty) = true) : Led (buckets.set i .empty) := by
  intro j key slot hj
  rw [bucket_set _ hi] at hj
  split at hj
  · cases hj
  · rw [Reached, List.length_set]
    refine Leads.mono (h j key slot hj) fun w hw hfull => ?_
    have hnot : i ∉ w := fun hmem => by
      rw [hwindows _ w hw hmem] at hfull
      cases hfull
    rw [List.any_eq_false] at hfull ⊢
    intro k hk
    rw [bucket_set _ hi, if_neg (fun heq : i = k => hnot (heq ▸ hk))]
    exact hfull k hk

theorem exists_empty (h : used buckets < buckets.length) :
    ∃ i < buckets.length, (bucket buckets i).isEmpty = true := by
  obtain ⟨b, hmem, hb⟩ := List.countP_lt_length_iff.mp h
  obtain ⟨i, hi, rfl⟩ := List.mem_iff_getElem.mp hmem
  exact ⟨i, hi, by rw [bucket_eq_getElem hi]; simpa using hb⟩

/-- The place that a key finds is not full, and searches for the key get to it. -/
theorem vacancy_eq_some (h : vacancy buckets digest = some i) :
    (bucket buckets i).isFull = false ∧ Reached buckets digest i := by
  obtain ⟨⟨w, i⟩, hprobe, rfl⟩ := Option.map_eq_some_iff.mp h
  obtain ⟨hp, -, hleads⟩ := leads_of_probe hprobe
  refine ⟨by simpa using hp, (hleads i (mem_of_probe hprobe)).of_imp fun j hj => ?_⟩
  cases hb : bucket buckets j <;> first | rfl | (rw [hb] at hj; cases hj)

theorem exists_vacancy (hsize : IsSize buckets.length) (hused : used buckets < buckets.length)
    (digest : Nat) : ∃ i, vacancy buckets digest = some i := by
  obtain ⟨i, hi, hempty⟩ := exists_empty hused
  obtain ⟨k, -, hk⟩ := hsize
  have hmem : ∃ w ∈ windows buckets.length digest, i ∈ w := by
    rw [hk] at hi ⊢
    exact exists_mem_windows digest hi
  have hprobe := probe_isSome (p := fun j => !(bucket buckets j).isFull) hmem (by
    cases hb : bucket buckets i <;> first | rfl | (rw [hb] at hempty; cases hempty))
  obtain ⟨⟨w, j⟩, hj⟩ := Option.isSome_iff_exists.mp hprobe
  exact ⟨j, by rw [vacancy, hj]; rfl⟩

end Searches

end RowCode.HashTable
