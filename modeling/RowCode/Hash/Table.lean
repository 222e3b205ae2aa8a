import RowCode.Hash.Digest
import RowCode.Pipeline.KeyMap

/-!
# Hash tables

A map from keys to slots with open addressing. The digest of a key says where its search begins:
it goes from window to window (`windows`), each of `width` buckets side by side, and ends with the
first window that has an empty bucket. A key that is stored takes the first bucket on this way
that is not full (`probe`). A key that is taken out leaves an empty bucket if no search can have
come past it, and a deleted one otherwise.

The number of buckets is a power of two. When no more empty buckets may be filled, the keys move
to a larger table (`resize`), or, if few are left among many deleted buckets, to better places in
their own (`rehash`). A table never becomes smaller again.
-/

namespace RowCode

/-- A place in a hash table. -/
inductive Bucket where
  | empty
  /-- No longer full, but searches go on beyond it. -/
  | deleted
  | full (key : Row) (slot : Nat)
deriving Repr, DecidableEq

namespace Bucket

def isEmpty : Bucket → Bool
  | empty => true
  | _ => false

def isFull : Bucket → Bool
  | full _ _ => true
  | _ => false

def content? : Bucket → Option (Row × Nat)
  | full key slot => some (key, slot)
  | _ => none

/-- The highest bits of a digest. Keys are compared only if these agree. -/
def tag (digest : Nat) : Nat :=
  digest / 2 ^ 57

/-- Whether a search for a key ends here. -/
def holds (key : Row) : Bucket → Bool
  | full stored _ => tag stored.digest == tag key.digest && stored.same key
  | _ => false

end Bucket

structure HashTable where
  buckets : List Bucket
  /-- How many empty buckets may still be filled. -/
  room : Nat
deriving Repr, DecidableEq

namespace HashTable

/-! ## Windows -/

/-- The number of buckets in a window. -/
def width : Nat := 16

/-- The positions of the window that begins at `start`. They go round the end of the table. -/
def window (size start : Nat) : List Nat :=
  (List.range (min width size)).map fun i => (start + i) % size

/-- The windows that a search goes through. The steps between them grow by a window each time. -/
def windows (size digest : Nat) : List (List Nat) :=
  (List.range (max 1 (size / width))).map fun step =>
    window size (digest + width * (step * (step + 1) / 2))

/-- The first position in the windows with a property, with its window. -/
def probe (p : Nat → Bool) : List (List Nat) → Option (List Nat × Nat)
  | [] => none
  | w :: ws =>
    match w.find? p with
    | some i => some (w, i)
    | none => probe p ws

/-- The first position in the windows with a property `p`, where the search ends after the first
window with a position of the property `stop`. -/
def search (p stop : Nat → Bool) : List (List Nat) → Option Nat
  | [] => none
  | w :: ws =>
    match w.find? p with
    | some i => some i
    | none => if w.any stop then none else search p stop ws

/-! ## Looking up -/

/-- The bucket at a position. -/
def bucket (buckets : List Bucket) (i : Nat) : Bucket :=
  buckets.getD i .empty

/-- Where a search for a key ends. -/
def find? (table : HashTable) (key : Row) : Option Nat :=
  search (fun i => (bucket table.buckets i).holds key) (fun i => (bucket table.buckets i).isEmpty)
    (windows table.buckets.length key.digest)

def get? (table : HashTable) (key : Row) : Option Nat := do
  let i ← table.find? key
  let (_, slot) ← (bucket table.buckets i).content?
  some slot

/-- All keys with their slots, in the order of the buckets. -/
def entries (table : HashTable) : List (Row × Nat) :=
  table.buckets.filterMap Bucket.content?

/-! ## Growing -/

/-- How many of `size` buckets may be full. -/
def capacity (size : Nat) : Nat :=
  if size < 8 then size - 1 else size / 8 * 7

/-- The least size whose capacity is `items`. -/
def sizeFor (items : Nat) : Nat :=
  if items < 4 then 4 else if items < 8 then 8 else 2 ^ ((items * 8 / 7 - 1).log2 + 1)

/-- The first bucket on the way of a search that is not full. -/
def vacancy (buckets : List Bucket) (digest : Nat) : Option Nat :=
  (probe (fun i => !(bucket buckets i).isFull) (windows buckets.length digest)).map Prod.snd

/-- Stores a key, with its slot, in the first bucket on its way that is not full. -/
def place (buckets : List Bucket) (e : Row × Nat) : List Bucket :=
  match vacancy buckets e.1.digest with
  | some i => buckets.set i (.full e.1 e.2)
  | none => buckets

/-- The same keys in a table of another size. -/
def resize (table : HashTable) (size : Nat) : HashTable :=
  ⟨table.entries.foldl place (List.replicate size .empty), capacity size - table.entries.length⟩

/-! ## Growing in place -/

/-- A bucket of a table whose keys are finding new places. -/
inductive Cell where
  | vacant
  /-- The key stands where it stood before. -/
  | waiting (key : Row) (slot : Nat)
  | placed (key : Row) (slot : Nat)

namespace Cell

def ofBucket : Bucket → Cell
  | .full key slot => waiting key slot
  | _ => vacant

def toBucket : Cell → Bucket
  | vacant => .empty
  | waiting key slot => .full key slot
  | placed key slot => .full key slot

def isWaiting : Cell → Bool
  | waiting _ _ => true
  | _ => false

def isPlaced : Cell → Bool
  | placed _ _ => true
  | _ => false

end Cell

/-- The cell at a position. -/
def cell (cells : List Cell) (i : Nat) : Cell :=
  cells.getD i .vacant

theorem mem_of_probe {p : Nat → Bool} {w : List Nat} {i : Nat} :
    ∀ {ws : List (List Nat)}, probe p ws = some (w, i) → i ∈ w
  | w' :: ws, h => by
    rw [probe] at h
    split at h
    · next hfind =>
      cases h
      exact List.mem_of_find?_eq_some hfind
    · exact mem_of_probe h

theorem cell_eq_waiting {cells : List Cell} {i : Nat} {key : Row} {slot : Nat}
    (h : cell cells i = .waiting key slot) :
    ∃ hi : i < cells.length, cells[i] = .waiting key slot := by
  rw [cell, List.getD_eq_getElem?_getD] at h
  rcases Nat.lt_or_ge i cells.length with hi | hi
  · rw [List.getElem?_eq_getElem hi] at h
    exact ⟨hi, h⟩
  · rw [List.getElem?_eq_none hi] at h
    cases h

/-- A key that drives another one away waits no more, and the other one goes on waiting. -/
theorem countP_drive {cells : List Cell} {i j : Nat} {key key' : Row} {slot slot' : Nat}
    (hi : cell cells i = .waiting key slot) (hj : cell cells j = .waiting key' slot')
    (hne : j ≠ i) :
    ((cells.set j (.placed key slot)).set i (.waiting key' slot')).countP Cell.isWaiting <
      cells.countP Cell.isWaiting := by
  obtain ⟨hi, hwaits⟩ := cell_eq_waiting hi
  obtain ⟨hj, hwaits'⟩ := cell_eq_waiting hj
  have hi' : i < (cells.set j (.placed key slot)).length := by rwa [List.length_set]
  have hwaits'' : (cells.set j (.placed key slot))[i] = .waiting key slot := by
    rw [List.getElem_set_ne hne, hwaits]
  have hpos : 0 < (cells.set j (.placed key slot)).countP Cell.isWaiting :=
    List.countP_pos_iff.mpr ⟨_, List.getElem_mem hi', by rw [hwaits'']; rfl⟩
  rw [List.countP_set hi', hwaits'']
  rw [List.countP_set hj, hwaits'] at hpos ⊢
  simp only [Cell.isWaiting, if_true, Bool.false_eq_true, if_false] at hpos ⊢
  omega

/-- Finds a place for the key that waits at position `i`, and then for the key that it drives away
from there, which comes to wait at `i` in its stead. A key that is in the right window stays. -/
def settle (cells : List Cell) (i : Nat) : List Cell :=
  match _hi : cell cells i with
  | .waiting key slot =>
    match _hprobe : probe (fun j => !(cell cells j).isPlaced)
        (windows cells.length key.digest) with
    | none => cells
    | some (w, j) =>
      if _hw : i ∈ w then cells.set i (.placed key slot)
      else
        match _hj : cell cells j with
        | .waiting key' slot' =>
          settle ((cells.set j (.placed key slot)).set i (.waiting key' slot')) i
        | _ => (cells.set j (.placed key slot)).set i .vacant
  | _ => cells
termination_by cells.countP Cell.isWaiting
decreasing_by
  refine countP_drive _hi _hj ?_
  rintro rfl
  exact _hw (mem_of_probe _hprobe)

/-- The same keys in a table of the same size, without deleted buckets. -/
def rehash (table : HashTable) : HashTable :=
  let size := table.buckets.length
  let cells := (List.range size).foldl settle (table.buckets.map Cell.ofBucket)
  ⟨cells.map Cell.toBucket, capacity size - table.entries.length⟩

/-- The table with room for more keys, as many as `count`. -/
def reserve (table : HashTable) (count : Nat) : HashTable :=
  let size := table.buckets.length
  let items := table.entries.length
  if count ≤ table.room then table
  else if items + count ≤ capacity size / 2 then table.rehash
  else table.resize (sizeFor (max (items + count) (capacity size + 1)))

/-! ## Storing and taking out -/

def empty : HashTable := ⟨[], 0⟩

/-- Stores a slot under a key. An equal key that the search comes upon keeps its form. -/
def insert (key : Row) (slot : Nat) (table : HashTable) : HashTable :=
  let table := table.reserve 1
  match table.find? key with
  | some i =>
    match bucket table.buckets i with
    | .full stored _ => { table with buckets := table.buckets.set i (.full stored slot) }
    | _ => table
  | none =>
    match vacancy table.buckets key.digest with
    | none => table
    | some i =>
      ⟨table.buckets.set i (.full key slot),
        if (bucket table.buckets i).isEmpty then table.room - 1 else table.room⟩

/-- How many of the first buckets at the positions are not empty. -/
def span (buckets : List Bucket) (positions : List Nat) : Nat :=
  (positions.takeWhile fun i => !(bucket buckets i).isEmpty).length

/-- Takes out the key at a position. If a window around it may have been full, the searches that
went through that window have to go on. -/
def erase (table : HashTable) (i : Nat) : HashTable :=
  let size := table.buckets.length
  let before := (List.range (min width size)).map fun d => (i + size - 1 - d) % size
  if width ≤ span table.buckets before + span table.buckets (window size i) then
    { table with buckets := table.buckets.set i .deleted }
  else ⟨table.buckets.set i .empty, table.room + 1⟩

def remove (table : HashTable) (key : Row) : HashTable :=
  match table.find? key with
  | some i => table.erase i
  | none => table

/-- Hash tables that are made with room for some keys. -/
@[reducible] def keyMap (room : Nat) : KeyMap where
  Table := HashTable
  empty := empty.reserve room
  get? := get?
  insert := insert
  remove := remove
  entries := entries

end HashTable

/-- Keys of groups are kept in hash tables. Unless it is asked for, there is no room at first. -/
instance : KeyMap := HashTable.keyMap 0

end RowCode
