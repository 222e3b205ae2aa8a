import RowCode.Operator.TextFn

/-!
# Pieces of a string

The substring functions all cut out slices, the characters from one position up to
another, and this module says which: with counts and with positions from either
end, with an end before the start, and beyond the text. All comes down to lists of
characters, of which a count takes some off and a position drops some.

The positions are computed in machine words, which have no negative differences
and an end. `Text.word?` and `Text.signed?` are the words of the two kinds, and
give nothing where a number is not one of them. Redone with them, the functions
compute what they compute with numbers that are not bounded
(`CutFn.computed?_eq`, `RangeFn.computed?_eq`), for all strings that fit a memory.
-/

namespace RowCode

namespace Text

/-! ## Slices -/

section Slices

variable (s : List Char)

theorem slice_length (start : Nat) : slice s start s.length = s.drop start := by
  rw [slice, List.take_of_length_le (Nat.le_of_eq List.length_drop)]

theorem left_eq_slice (n : Int) : left s n = slice s 0 (min n.toNat s.length) := by
  simp [left, slice, clamp]

theorem right_eq_slice (n : Int) :
    right s n = slice s (s.length - min n.toNat s.length) s.length := by
  rw [slice_length, right, clamp]

theorem substr_eq_slice (n : Int) : substr s n = slice s (min n.toNat s.length) s.length := by
  rw [slice_length, substr, clamp]

theorem left_append_substr (n : Int) : left s n ++ substr s n = s :=
  List.take_append_drop _ s

/-- A position beyond the text drops all of it, wherever it is. -/
theorem substr_eq_drop (n : Int) : substr s n = s.drop n.toNat := by
  rw [substr, clamp]
  by_cases hn : n.toNat ≤ s.length
  · rw [Nat.min_eq_left hn]
  · rw [Nat.min_eq_right (by omega), List.drop_length, List.drop_of_length_le (by omega)]

theorem substrTo_of_le {start stop : Int} (h : (min start.toNat s.length : Nat) ≤ stop) :
    substrTo s start stop =
      slice s (min start.toNat s.length) (min stop.toNat s.length) := by
  rw [substrTo, clamp, if_neg (Int.not_lt.mpr h), clamp]

theorem substrTo_of_lt {start stop : Int} (h : stop < (min start.toNat s.length : Nat)) :
    substrTo s start stop = substr s start := by
  rw [substrTo, clamp, if_pos h, substr_eq_slice]

/-- Past the end there is nothing that the end of a slice could cut off. -/
theorem slice_min_length (start stop : Nat) :
    slice s start (min stop s.length) = slice s start stop := by
  rw [slice, slice, List.take_eq_take_iff, List.length_drop]
  omega

/-- A slice as so many characters. -/
theorem substrTo_add {start count : Int} (hstart : 0 ≤ start) (hcount : 0 ≤ count) :
    substrTo s start (start + count) = (s.drop start.toNat).take count.toNat := by
  rw [substrTo_of_le s (by omega), slice_min_length]
  by_cases hin : start.toNat ≤ s.length
  · rw [Nat.min_eq_left hin, slice, Int.toNat_add hstart hcount, Nat.add_sub_cancel_left]
  · rw [Nat.min_eq_right (by omega), slice, List.drop_length,
      List.drop_of_length_le (by omega : s.length ≤ start.toNat), List.take_nil, List.take_nil]

end Slices

/-! ## Positions -/

section Positions

variable (s : List Char)

theorem place?_of_pos {pos : Int} {len : Nat} (h : 1 ≤ pos) (hlen : pos ≤ len) :
    place? pos len = some (pos - 1).toNat :=
  if_pos ⟨by omega, hlen⟩

theorem place?_of_neg {pos : Int} {len : Nat} (h : 1 ≤ pos) (hlen : pos ≤ len) :
    place? (-pos) len = some (len - pos.toNat) := by
  rw [place?, if_neg (by omega), if_pos (by omega)]
  congr 1
  omega

theorem place?_of_outside {pos : Int} {len : Nat} (h : pos = 0 ∨ len < pos.natAbs) :
    place? pos len = none := by
  rw [place?, if_neg (by omega), if_neg (by omega)]

/-- A positive position counts from one. -/
theorem mid_of_pos {pos : Int} (h : 1 ≤ pos) : mid s pos = s.drop (pos - 1).toNat := by
  unfold mid
  by_cases hin : pos ≤ s.length
  · rw [place?_of_pos h hin]
  · rw [place?_of_outside (by omega)]
    exact (List.drop_of_length_le (by omega)).symm

theorem midFor_of_pos {pos : Int} (h : 1 ≤ pos) (count : Int) :
    midFor s pos count = (s.drop (pos - 1).toNat).take count.toNat := by
  unfold midFor
  by_cases hin : pos ≤ s.length
  · rw [place?_of_pos h hin]
  · rw [place?_of_outside (by omega), List.drop_of_length_le (by omega), List.take_nil]

/-- A negative position counts from the end. -/
theorem mid_of_neg {n : Int} (h : 1 ≤ n) (hin : n ≤ s.length) : mid s (-n) = right s n := by
  rw [mid, place?_of_neg h hin, right, clamp, Nat.min_eq_left (by omega)]

theorem midFor_of_neg {n : Int} (h : 1 ≤ n) (hin : n ≤ s.length) (count : Int) :
    midFor s (-n) count = left (right s n) count := by
  have hright : right s n = s.drop (s.length - n.toNat) := by
    rw [right, clamp, Nat.min_eq_left (by omega)]
  rw [midFor, place?_of_neg h hin, left, clamp, hright]
  simp only [List.take_eq_take_iff]
  omega

theorem mid_of_outside {pos : Int} (h : pos = 0 ∨ s.length < pos.natAbs) : mid s pos = [] := by
  rw [mid, place?_of_outside h]

theorem midFor_of_outside {pos : Int} (h : pos = 0 ∨ s.length < pos.natAbs) (count : Int) :
    midFor s pos count = [] := by
  rw [midFor, place?_of_outside h]

theorem midFor_of_nonpos (pos : Int) {count : Int} (h : count ≤ 0) : midFor s pos count = [] := by
  unfold midFor
  rw [Int.toNat_of_nonpos h]
  split <;> simp

end Positions

/-! ## Machine words -/

/-- A word without sign. -/
def word? (n : Int) : Option Nat :=
  if 0 ≤ n ∧ n < 2 ^ 64 then some n.toNat else none

/-- A word with a sign. -/
def signed? (n : Int) : Option Int :=
  if -2 ^ 63 ≤ n ∧ n < 2 ^ 63 then some n else none

def slice? (s : List Char) (start stop : Nat) : Option (List Char) :=
  if stop ≤ start then some []
  else do
    let count ← word? (stop - start)
    return (s.drop start).take count

def clamp? (n : Int) (len : Nat) : Option Nat :=
  if n ≤ 0 then some 0
  else do
    let n ← word? n
    return min n len

def left? (s : List Char) (n : Int) : Option (List Char) := do
  let len ← word? s.length
  let n ← clamp? n len
  slice? s 0 n

def right? (s : List Char) (n : Int) : Option (List Char) := do
  let len ← word? s.length
  let n ← clamp? n len
  let start ← word? (len - n)
  slice? s start len

def substr? (s : List Char) (start : Int) : Option (List Char) := do
  let len ← word? s.length
  let start ← clamp? start len
  slice? s start len

/-- The start is compared with the end as a word with a sign. -/
def substrTo? (s : List Char) (start stop : Int) : Option (List Char) := do
  let len ← word? s.length
  let first ← clamp? start len
  let bound ← signed? first
  let last ← if stop < bound then some len else clamp? stop len
  slice? s first last

/-- The place of a position, which may be none. -/
def start? (pos : Int) (len : Nat) : Option (Option Nat) := do
  let len ← signed? len
  if 0 < pos ∧ pos ≤ len then do
    let start ← signed? (pos - 1)
    let start ← word? start
    return some start
  else do
    let least ← signed? (-len)
    if least ≤ pos ∧ pos < 0 then do
      let start ← signed? (pos + len)
      let start ← word? start
      return some start
    else return none

def mid? (s : List Char) (pos : Int) : Option (List Char) := do
  let len ← word? s.length
  let place ← start? pos len
  match place with
  | some start => slice? s start len
  | none => return []

/-- The sum of a start and a count saturates. -/
def midFor? (s : List Char) (pos count : Int) : Option (List Char) := do
  let len ← word? s.length
  if count ≤ 0 then return []
  else do
    let place ← start? pos len
    match place with
    | some start => do
      let count ← word? count
      slice? s start (min (min (start + count) (2 ^ 64 - 1)) len)
    | none => return []

section Words

theorem bind_of_eq_some {α β : Type} {x : Option α} {a : α} (h : x = some a) (f : α → Option β) :
    (x >>= f) = f a := by
  rw [h]
  rfl

theorem word?_of_nonneg {n : Int} (h : 0 ≤ n) (hn : n < 2 ^ 64) : word? n = some n.toNat :=
  if_pos ⟨h, hn⟩

theorem signed?_eq {n : Int} (h : -2 ^ 63 ≤ n) (hn : n < 2 ^ 63) : signed? n = some n :=
  if_pos ⟨h, hn⟩

theorem slice?_eq {s : List Char} {start stop : Nat} (h : stop < 2 ^ 64) :
    slice? s start stop = some (slice s start stop) := by
  unfold slice?
  split
  · next hle => rw [slice, Nat.sub_eq_zero_of_le hle, List.take_zero]
  · next hlt =>
    have hcount : ((stop : Int) - start).toNat = stop - start := by omega
    rw [bind_of_eq_some (word?_of_nonneg (by omega) (by omega)), hcount]
    rfl

theorem clamp?_eq {n : Int} (h : n < 2 ^ 63) (len : Nat) :
    clamp? n len = some (min n.toNat len) := by
  unfold clamp?
  split
  · next hle => rw [Int.toNat_of_nonpos hle, Nat.zero_min]
  · next hlt =>
    rw [bind_of_eq_some (word?_of_nonneg (by omega) (by omega))]
    rfl

theorem start?_eq {pos : Int} (h : -2 ^ 31 ≤ pos) (hpos : pos < 2 ^ 31) {len : Nat}
    (hlen : len < 2 ^ 63) : start? pos len = some (place? pos len) := by
  rw [start?, bind_of_eq_some (signed?_eq (by omega) (by omega)), place?]
  by_cases hfront : 0 < pos ∧ pos ≤ len
  · rw [if_pos hfront, if_pos hfront, bind_of_eq_some (signed?_eq (by omega) (by omega)),
      bind_of_eq_some (word?_of_nonneg (by omega) (by omega))]
    rfl
  · rw [if_neg hfront, if_neg hfront, bind_of_eq_some (signed?_eq (by omega) (by omega))]
    by_cases hrear : -(len : Int) ≤ pos ∧ pos < 0
    · rw [if_pos hrear, if_pos hrear, bind_of_eq_some (signed?_eq (by omega) (by omega)),
        bind_of_eq_some (word?_of_nonneg (by omega) (by omega))]
      rfl
    · rw [if_neg hrear, if_neg hrear]
      rfl

theorem lt_of_place? {pos : Int} {len start : Nat} (h : place? pos len = some start) :
    start < len := by
  unfold place? at h
  split at h
  · cases h
    omega
  · split at h
    · cases h
      omega
    · cases h

variable {s : List Char} (hs : s.length < 2 ^ 63)
include hs

theorem word?_length : word? s.length = some s.length := by
  rw [word?_of_nonneg (by omega) (by omega), Int.toNat_natCast]

theorem left?_eq {n : Int} (h : n < 2 ^ 63) : left? s n = some (left s n) := by
  rw [left?, bind_of_eq_some (word?_length hs), bind_of_eq_some (clamp?_eq h _),
    slice?_eq (by omega), left_eq_slice]

theorem right?_eq {n : Int} (h : n < 2 ^ 63) : right? s n = some (right s n) := by
  have hstart : (s.length - (min n.toNat s.length : Nat) : Int).toNat =
      s.length - min n.toNat s.length := by omega
  rw [right?, bind_of_eq_some (word?_length hs), bind_of_eq_some (clamp?_eq h _),
    bind_of_eq_some (word?_of_nonneg (by omega) (by omega)), hstart, slice?_eq (by omega),
    right_eq_slice]

theorem substr?_eq {n : Int} (h : n < 2 ^ 63) : substr? s n = some (substr s n) := by
  rw [substr?, bind_of_eq_some (word?_length hs), bind_of_eq_some (clamp?_eq h _),
    slice?_eq (by omega), substr_eq_slice]

theorem substrTo?_eq {start stop : Int} (hstart : start < 2 ^ 63) (hstop : stop < 2 ^ 63) :
    substrTo? s start stop = some (substrTo s start stop) := by
  rw [substrTo?, bind_of_eq_some (word?_length hs), bind_of_eq_some (clamp?_eq hstart _),
    bind_of_eq_some (signed?_eq (by omega) (by omega))]
  by_cases hlt : stop < (min start.toNat s.length : Nat)
  · rw [if_pos hlt, substrTo_of_lt s hlt, substr_eq_slice]
    exact slice?_eq (by omega)
  · rw [if_neg hlt, bind_of_eq_some (clamp?_eq hstop _), substrTo_of_le s (Int.not_lt.mp hlt)]
    exact slice?_eq (by omega)

theorem mid?_eq {pos : Int} (h : -2 ^ 31 ≤ pos) (hpos : pos < 2 ^ 31) :
    mid? s pos = some (mid s pos) := by
  rw [mid?, bind_of_eq_some (word?_length hs), bind_of_eq_some (start?_eq h hpos hs), mid]
  cases place? pos s.length with
  | none => rfl
  | some start => exact (slice?_eq (by omega)).trans (congrArg some (slice_length s start))

theorem midFor?_eq {pos count : Int} (h : -2 ^ 31 ≤ pos) (hpos : pos < 2 ^ 31)
    (hcount : count < 2 ^ 31) : midFor? s pos count = some (midFor s pos count) := by
  rw [midFor?, bind_of_eq_some (word?_length hs)]
  by_cases hle : count ≤ 0
  · rw [if_pos hle, midFor_of_nonpos s pos hle]
    rfl
  · rw [if_neg hle, bind_of_eq_some (start?_eq h hpos hs), midFor]
    cases hplace : place? pos s.length with
    | none => rfl
    | some start =>
        have hlt := lt_of_place? hplace
        -- The sum is too small to saturate, and then the end of the text holds it.
        have hstop : min (min (start + count.toNat) (2 ^ 64 - 1)) s.length =
            min (start + count.toNat) s.length := by omega
        dsimp only
        rw [bind_of_eq_some (word?_of_nonneg (by omega) (by omega)), hstop, slice?_eq (by omega),
          slice_min_length, slice, Nat.add_sub_cancel_left]

end Words

end Text

/-! ## 32-bit numbers -/

theorem toInt_sub_one {p : Int32} (h : 1 ≤ p.toInt) : (p - 1).toInt = p.toInt - 1 := by
  have hlt := p.toInt_lt
  rw [Int32.toInt_sub, show Int32.toInt 1 = 1 by decide]
  exact Int.bmod_eq_of_le (by omega) (by omega)

theorem toInt_add_of_lt {a b : Int32} (ha : 0 ≤ a.toInt) (hb : 0 ≤ b.toInt)
    (h : a.toInt + b.toInt < 2 ^ 31) : (a + b).toInt = a.toInt + b.toInt := by
  rw [Int32.toInt_add]
  exact Int.bmod_eq_of_le (by omega) (by omega)

theorem toInt_neg_of_pos {k : Int32} (h : 1 ≤ k.toInt) : (-k).toInt = -k.toInt := by
  have hlt := k.toInt_lt
  rw [Int32.toInt_neg]
  exact Int.bmod_eq_of_le (by omega) (by omega)

/-! ## Strings -/

namespace CutFn

/-- The function, computed in words. -/
def computed? (f : CutFn) (s : String) (n : Int32) : Option String :=
  String.ofList <$> match f with
    | left => Text.left? s.toList n.toInt
    | right => Text.right? s.toList n.toInt
    | substr => Text.substr? s.toList n.toInt
    | mid => Text.mid? s.toList n.toInt

theorem computed?_eq (f : CutFn) {s : String} (hs : s.length < 2 ^ 63) (n : Int32) :
    f.computed? s n = some (f.apply s n) := by
  have hlength : s.toList.length < 2 ^ 63 := by rwa [String.length_toList]
  have hle := n.le_toInt
  have hlt := n.toInt_lt
  cases f with
  | left =>
      rw [computed?, Text.left?_eq hlength (by omega)]
      rfl
  | right =>
      rw [computed?, Text.right?_eq hlength (by omega)]
      rfl
  | substr =>
      rw [computed?, Text.substr?_eq hlength (by omega)]
      rfl
  | mid =>
      rw [computed?, Text.mid?_eq hlength hle hlt]
      rfl

end CutFn

namespace RangeFn

/-- The function, computed in words. -/
def computed? (f : RangeFn) (s : String) (m n : Int32) : Option String :=
  String.ofList <$> match f with
    | substr => Text.substrTo? s.toList m.toInt n.toInt
    | mid => Text.midFor? s.toList m.toInt n.toInt

theorem computed?_eq (f : RangeFn) {s : String} (hs : s.length < 2 ^ 63) (m n : Int32) :
    f.computed? s m n = some (f.apply s m n) := by
  have hlength : s.toList.length < 2 ^ 63 := by rwa [String.length_toList]
  have hm := m.toInt_lt
  have hn := n.toInt_lt
  cases f with
  | substr =>
      rw [computed?, Text.substrTo?_eq hlength (by omega) (by omega)]
      rfl
  | mid =>
      rw [computed?, Text.midFor?_eq hlength m.le_toInt hm hn]
      rfl

end RangeFn

/-- The characters of a string at `start ..< stop`. -/
def piece (s : String) (start stop : Nat) : String :=
  onChars (Text.slice · start stop) s

section

variable (s : String)

theorem left_bars_substr (n : Int32) :
    Join.bars.apply (CutFn.left.apply s n) (CutFn.substr.apply s n) = s := by
  have happend := congrArg String.ofList (Text.left_append_substr s.toList n.toInt)
  rwa [String.ofList_append, String.ofList_toList] at happend

theorem substrTo_apply_of_le {a b : Int32}
    (h : (min a.toInt.toNat s.length : Nat) ≤ b.toInt) :
    RangeFn.substr.apply s a b =
      piece s (min a.toInt.toNat s.length) (min b.toInt.toNat s.length) := by
  rw [← String.length_toList] at h ⊢
  exact congrArg String.ofList (Text.substrTo_of_le s.toList h)

theorem substrTo_apply_of_lt {a b : Int32}
    (h : b.toInt < (min a.toInt.toNat s.length : Nat)) :
    RangeFn.substr.apply s a b = CutFn.substr.apply s a := by
  rw [← String.length_toList] at h
  exact congrArg String.ofList (Text.substrTo_of_lt s.toList h)

theorem mid_apply_of_pos {p : Int32} (h : 1 ≤ p.toInt) :
    CutFn.mid.apply s p = CutFn.substr.apply s (p - 1) := by
  have hmid : Text.mid s.toList p.toInt = Text.substr s.toList (p - 1).toInt := by
    rw [Text.mid_of_pos _ h, toInt_sub_one h, Text.substr_eq_drop]
  exact congrArg String.ofList hmid

theorem midFor_apply_of_pos {p c : Int32} (h : 1 ≤ p.toInt) (hc : 0 ≤ c.toInt)
    (hsum : p.toInt - 1 + c.toInt < 2 ^ 31) :
    RangeFn.mid.apply s p c = RangeFn.substr.apply s (p - 1) (p - 1 + c) := by
  have hstart := toInt_sub_one h
  have hmid : Text.midFor s.toList p.toInt c.toInt =
      Text.substrTo s.toList (p - 1).toInt (p - 1 + c).toInt := by
    rw [toInt_add_of_lt (by omega) hc (by omega), hstart, Text.midFor_of_pos _ h,
      Text.substrTo_add _ (by omega) hc]
  exact congrArg String.ofList hmid

theorem mid_apply_neg {k : Int32} (h : 1 ≤ k.toInt) (hin : k.toInt ≤ s.length) :
    CutFn.mid.apply s (-k) = CutFn.right.apply s k := by
  rw [← String.length_toList] at hin
  have hmid : Text.mid s.toList (-k).toInt = Text.right s.toList k.toInt := by
    rw [toInt_neg_of_pos h, Text.mid_of_neg _ h hin]
  exact congrArg String.ofList hmid

theorem midFor_apply_neg {k : Int32} (h : 1 ≤ k.toInt) (hin : k.toInt ≤ s.length) (c : Int32) :
    RangeFn.mid.apply s (-k) c = CutFn.left.apply (CutFn.right.apply s k) c := by
  rw [← String.length_toList] at hin
  have hmid : Text.midFor s.toList (-k).toInt c.toInt =
      Text.left (CutFn.right.apply s k).toList c.toInt := by
    rw [toInt_neg_of_pos h, Text.midFor_of_neg _ h hin, CutFn.apply, onChars,
      String.toList_ofList]
  exact congrArg String.ofList hmid

theorem mid_apply_of_outside {p : Int32} (h : p = 0 ∨ s.length < p.toInt.natAbs) :
    CutFn.mid.apply s p = "" ∧ ∀ c : Int32, RangeFn.mid.apply s p c = "" := by
  have hout : p.toInt = 0 ∨ s.toList.length < p.toInt.natAbs := by
    rw [String.length_toList]
    exact h.imp_left fun hzero => by rw [hzero]; rfl
  exact ⟨congrArg String.ofList (Text.mid_of_outside _ hout),
    fun c => congrArg String.ofList (Text.midFor_of_outside _ hout c.toInt)⟩

end

/-- The substring functions as pieces, on all strings and numbers. Counts and
positions are held to the text; one-based positions are turned into counts from
either end. Computed in words, all of them give the same. -/
theorem pieces_agree (s : String) :
    (∀ n : Int32, CutFn.left.apply s n = piece s 0 (min n.toInt.toNat s.length) ∧
      CutFn.right.apply s n = piece s (s.length - min n.toInt.toNat s.length) s.length ∧
      Join.bars.apply (CutFn.left.apply s n) (CutFn.substr.apply s n) = s) ∧
    (∀ a b : Int32, let first := min a.toInt.toNat s.length
      CutFn.substr.apply s a = piece s first s.length ∧
      (first ≤ b.toInt → RangeFn.substr.apply s a b = piece s first (min b.toInt.toNat s.length)) ∧
      (b.toInt < first → RangeFn.substr.apply s a b = CutFn.substr.apply s a)) ∧
    (∀ p : Int32, 1 ≤ p.toInt →
      CutFn.mid.apply s p = CutFn.substr.apply s (p - 1) ∧
      ∀ c : Int32, 0 ≤ c.toInt → p.toInt - 1 + c.toInt < 2 ^ 31 →
        RangeFn.mid.apply s p c = RangeFn.substr.apply s (p - 1) (p - 1 + c)) ∧
    (∀ k : Int32, 1 ≤ k.toInt → k.toInt ≤ s.length →
      CutFn.mid.apply s (-k) = CutFn.right.apply s k ∧
      ∀ c : Int32, RangeFn.mid.apply s (-k) c = CutFn.left.apply (CutFn.right.apply s k) c) ∧
    (∀ p : Int32, p = 0 ∨ s.length < p.toInt.natAbs →
      CutFn.mid.apply s p = "" ∧ ∀ c : Int32, RangeFn.mid.apply s p c = "") ∧
    (∀ p c : Int32, c.toInt ≤ 0 → RangeFn.mid.apply s p c = "") ∧
    (s.length < 2 ^ 63 →
      (∀ (f : CutFn) (n : Int32), f.computed? s n = some (f.apply s n)) ∧
      ∀ (f : RangeFn) (m n : Int32), f.computed? s m n = some (f.apply s m n)) := by
  have hlen : s.toList.length = s.length := String.length_toList
  refine ⟨fun n => ⟨?_, ?_, left_bars_substr s n⟩,
    fun a b => ⟨?_, substrTo_apply_of_le s, substrTo_apply_of_lt s⟩,
    fun p h => ⟨mid_apply_of_pos s h, fun c => midFor_apply_of_pos s h⟩,
    fun k h hin => ⟨mid_apply_neg s h hin, midFor_apply_neg s h hin⟩,
    fun p => mid_apply_of_outside s, fun p c h => ?_,
    fun hs => ⟨fun f => f.computed?_eq hs, fun f => f.computed?_eq hs⟩⟩
  · exact congrArg String.ofList (hlen ▸ Text.left_eq_slice s.toList n.toInt)
  · exact congrArg String.ofList (hlen ▸ Text.right_eq_slice s.toList n.toInt)
  · exact congrArg String.ofList (hlen ▸ Text.substr_eq_slice s.toList a.toInt)
  · exact congrArg String.ofList (Text.midFor_of_nonpos _ _ h)

/-- A middle of two characters, by positions from either end. -/
theorem pieces_agree_middle :
    let s := "aé😀b"
    RangeFn.substr.apply s 1 3 = "é😀" ∧ RangeFn.substr.apply s 3 1 = "b" ∧
      RangeFn.mid.apply s 2 2 = "é😀" ∧ RangeFn.mid.apply s (-3) 2 = "é😀" ∧
      RangeFn.mid.apply s (-5) 2 = "" ∧ RangeFn.mid.apply s 2 (-2) = "" ∧
      RangeFn.mid.computed? s 2 2 = some (RangeFn.mid.apply s 2 2) := by
  intro s
  obtain ⟨-, hsubstr, hfront, hrear, houtside, hcount, hwords⟩ := pieces_agree s
  exact ⟨((hsubstr 1 3).2.1 (by decide)).trans (by decide),
    ((hsubstr 3 1).2.2 (by decide)).trans (by decide),
    ((hfront 2 (by decide)).2 2 (by decide) (by decide)).trans (by decide),
    ((hrear 3 (by decide) (by decide)).2 2).trans (by decide),
    (houtside (-5) (Or.inr (by decide))).2 2, hcount 2 (-2) (by decide),
    (hwords (by decide)).2 .mid 2 2⟩

end RowCode
