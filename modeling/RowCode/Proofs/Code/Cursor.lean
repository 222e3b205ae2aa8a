import Mathlib.Data.Nat.Bitwise
import RowCode.Code.Stage
import RowCode.Proofs.Code.Varint
import RowCode.Proofs.Operator.Pieces

/-!
# Readers in machine words

The readers take the code from their position on. Here they are redone on the
whole code and a cursor, the way a machine of 64 bits does it: positions are
words, bytes are cut out between two positions, and the groups of a number are
shifted into place. Wherever a word, a slice or a shift is out of range there is
nothing, neither a value nor a fault.

`Computes` says that such a computation comes to what the reader finds. All
readers come to that at every cursor, if the length of the code is a word. Only
an aggregate has to be looked for within the code or at its end, which is where
the loop of a list is whenever it begins a round. The loops count their rounds
(`roundsAt`).
-/

namespace RowCode

namespace Code

/-! ## Words and slices -/

/-- A value or a fault, or nothing if a word or a slice is out of range. -/
abbrev Computed :=
  ExceptT Fault Option

/-- The bytes of a code at `start ..< stop`. -/
def slice? (code : Bytes) (start stop : Nat) : Option Bytes :=
  if start ≤ stop ∧ stop ≤ code.length then some ((code.take stop).drop start) else none

/-- A word with its bits moved up, by fewer places than a word has. -/
def shift? (word : UInt64) (places : Nat) : Option UInt64 :=
  if places < 64 then some (word <<< UInt64.ofNat places) else none

/-- The fault of the bytes from a position on. -/
def blame {α : Type} (fault : Bytes → Fault) (code : Bytes) (start : Nat) : Computed α := do
  let bytes ← slice? code start code.length
  throw (fault bytes)

/-- What must be found, or the bytes from a position on are unknown. -/
def foundAt {α : Type} (code : Bytes) (start : Nat) : Option α → Computed α
  | some v => return v
  | none => blame .unknownCode code start

/-! ## Readers -/

/-- Reads on at a cursor in a number that starts at `start`. -/
def groupsAt (code : Bytes) (start : Nat) (value : UInt64) (cursor : Nat) :
    Computed (UInt64 × Nat) :=
  if _h : cursor < code.length then do
    let count ← Text.word? (cursor - start)
    if count = maxGroups then blame .unknownCode code start
    else do
      let places ← Text.word? (7 * count : Nat)
      let group ← shift? (code[cursor] &&& 0x7F).toUInt64 places
      let _ ← Text.word? (cursor + 1 : Nat)
      if code[cursor] &&& 0x80 = 0 then return (value ||| group, cursor + 1)
      else groupsAt code start (value ||| group) (cursor + 1)
  else blame .truncated code (min start code.length)
termination_by code.length - cursor

def varintAt (code : Bytes) (cursor : Nat) : Computed (UInt64 × Nat) :=
  groupsAt code cursor 0 cursor

def natAt (code : Bytes) (cursor : Nat) : Computed (Nat × Nat) := do
  let (n, next) ← varintAt code cursor
  let n ← foundAt code cursor (Text.word? n.toNat)
  return (n, next)

/-- Takes the bytes up to a position, if it is one and not beyond the code. -/
def bytesTo (code : Bytes) (cursor : Nat) : Option Nat → Computed Bytes
  | some stop =>
    if stop ≤ code.length then liftM (slice? code cursor stop)
    else blame .truncated code (min cursor code.length)
  | none => blame .truncated code (min cursor code.length)

def bytesAt (code : Bytes) (cursor count : Nat) : Computed Bytes :=
  bytesTo code cursor (Text.word? (cursor + count : Nat))

/-- The bits of a float are cut out once more, from the bytes that were taken. -/
def binaryAt (f : Format) (code : Bytes) (cursor : Nat) : Computed (Binary f × Nat) := do
  let count := f.width / 8
  let bytes ← bytesAt code cursor count
  let bits ← slice? bytes 0 count
  let stop ← Text.word? (cursor + count : Nat)
  return (⟨BitVec.ofNat _ (bigEndian bits)⟩, stop)

def stringAt (code : Bytes) (cursor : Nat) : Computed (String × Nat) := do
  let (length, start) ← natAt code cursor
  let bytes ← bytesAt code start length
  match String.fromUTF8? ⟨bytes.toArray⟩ with
  | some s => do
    let stop ← Text.word? (start + length : Nat)
    return (s, stop)
  | none => throw (.invalidString bytes)

def aggregateAt (code : Bytes) (cursor : Nat) : Computed (Aggregate × Nat) :=
  match code[cursor]? with
  | none => blame .truncated code cursor
  | some b => do
    let next ← Text.word? (cursor + 1 : Nat)
    if b = countAllByte then return (.countAll, next)
    else do
      let t ← foundAt code cursor (Ty.ofCode? (b.toNat % 16))
      let (index, next) ← natAt code next
      let a ← foundAt code cursor (aggregate? (b.toNat / 16) t index)
      return (a, next)

/-- One more value in front of those that a loop has read, and one more round. -/
def oneMore {α : Type} (v : α) :
    Except Fault (List α × Nat) × Nat → Except Fault (List α × Nat) × Nat
  | (.ok (vs, next), rounds) => (.ok (v :: vs, next), rounds + 1)
  | (.error e, rounds) => (.error e, rounds + 1)

/-- A loop that reads a value in each of its rounds, and how many rounds it
begins. -/
def roundsAt {α : Type} (body : Nat → Computed (α × Nat)) :
    (count cursor : Nat) → Option (Except Fault (List α × Nat) × Nat)
  | 0, cursor => some (.ok ([], cursor), 0)
  | count + 1, cursor => do
    match ← (body cursor).run with
    | .error e => return (.error e, 1)
    | .ok (v, next) => (roundsAt body count next).map (oneMore v)

/-- Reads a count and runs a loop of as many rounds. -/
def listAt {α : Type} (body : Nat → Computed (α × Nat)) (code : Bytes) (cursor : Nat) :
    Option (Except Fault (List α × Nat) × Nat) := do
  match ← (natAt code cursor).run with
  | .error e => return (.error e, 0)
  | .ok (count, start) => roundsAt body count start

/-! ## What the readers find -/

/-- A result in words and that of a reader: the same value with the same bytes
behind it, or the same fault. -/
inductive Computes {α : Type} (code : Bytes) :
    Computed (α × Nat) → Except Fault (α × Bytes) → Prop where
  | ok (v : α) {next : Nat} (h : next ≤ code.length) :
      Computes code (pure (v, next)) (.ok (v, code.drop next))
  | error (e : Fault) : Computes code (throw e) (.error e)

section Words

variable {code : Bytes}

theorem Computes.bind {α β : Type} {x : Computed (α × Nat)} {y : Except Fault (α × Bytes)}
    {f : α × Nat → Computed (β × Nat)} {g : α × Bytes → Except Fault (β × Bytes)}
    (h : Computes code x y)
    (hf : ∀ v next, next ≤ code.length → Computes code (f (v, next)) (g (v, code.drop next))) :
    Computes code (x >>= f) (y >>= g) := by
  cases h with
  | ok v hnext => exact hf v _ hnext
  | error e => exact .error e

theorem word?_natCast {n : Nat} (h : n < 2 ^ 64) : Text.word? n = some n :=
  Text.word?_of_nonneg (Int.natCast_nonneg n) (by omega)

theorem word?_add_sub (start : Nat) {n : Nat} (h : n < 2 ^ 64) :
    Text.word? ((start + n : Nat) - start) = some n := by
  rw [Int.natCast_add, add_sub_cancel_left, word?_natCast h]

theorem eq_of_word? {n m : Nat} (h : Text.word? n = some m) : m = n := by
  rw [Text.word?] at h
  split at h
  · rw [← Option.some.inj h, Int.toNat_natCast]
  · cases h

theorem lift_bind {α β : Type} {x : Option α} {a : α} (h : x = some a) (f : α → Computed β) :
    (liftM x >>= f : Computed β) = f a := by
  rw [h]
  rfl

theorem slice?_tail {start : Nat} (h : start ≤ code.length) :
    slice? code start code.length = some (code.drop start) := by
  rw [slice?, if_pos ⟨h, Nat.le_refl _⟩, List.take_length]

theorem shift?_of_lt (word : UInt64) {places : Nat} (h : places < 64) :
    shift? word places = some (word <<< UInt64.ofNat places) :=
  if_pos h

theorem blame_eq {α : Type} (fault : Bytes → Fault) {start : Nat} (h : start ≤ code.length) :
    (blame fault code start : Computed α) = throw (fault (code.drop start)) := by
  rw [blame, lift_bind (slice?_tail h)]

/-- Beyond the end the bytes from there on are none. -/
theorem blame_min {α : Type} (fault : Bytes → Fault) (start : Nat) :
    (blame fault code (min start code.length) : Computed α) = throw (fault (code.drop start)) := by
  rw [blame_eq fault (Nat.min_le_right ..)]
  rcases Nat.le_total start code.length with hle | hle
  · rw [Nat.min_eq_left hle]
  · rw [Nat.min_eq_right hle, List.drop_length, List.drop_of_length_le hle]

theorem Computes.found_bind {α β : Type} {start : Nat} (hstart : start ≤ code.length)
    {o : Option α} {f : α → Computed (β × Nat)} {g : α → Except Fault (β × Bytes)}
    (hf : ∀ v, Computes code (f v) (g v)) :
    Computes code (foundAt code start o >>= f) (orUnknown (code.drop start) o >>= g) := by
  cases o with
  | none =>
      rw [foundAt, blame_eq _ hstart]
      exact .error _
  | some v => exact hf v

end Words

/-! ## Numbers -/

theorem and_low (b : UInt8) : (b &&& 0x7F).toNat = b.toNat % 128 := by
  rw [UInt8.toNat_and]
  exact Nat.and_two_pow_sub_one_eq_mod b.toNat 7

theorem and_high_eq_zero_iff (b : UInt8) : b &&& 0x80 = 0 ↔ b < 128 := by
  have hlt := b.toNat_lt
  rw [← UInt8.toNat_inj, UInt8.toNat_and, UInt8.lt_iff_toNat_lt]
  show b.toNat &&& 2 ^ 7 = 0 ↔ b.toNat < 2 ^ 7
  rw [Nat.and_two_pow, Nat.toNat_testBit]
  omega

/-- Seven bits put in front of those that are there already. -/
theorem or_shift {acc k : Nat} (hk : k < maxGroups) (hacc : acc < 2 ^ (7 * k)) (b : UInt8) :
    UInt64.ofNat acc ||| (b &&& 0x7F).toUInt64 <<< UInt64.ofNat (7 * k) =
      UInt64.ofNat (acc + 2 ^ (7 * k) * (b.toNat % 128)) := by
  have hplaces : (UInt64.ofNat (7 * k)).toNat % 64 = 7 * k := by
    rw [maxGroups] at hk
    rw [UInt64.toNat_ofNat']
    omega
  rw [← UInt64.toNat_inj, UInt64.toNat_or, UInt64.toNat_shiftLeft, hplaces, UInt8.toNat_toUInt64,
    and_low, UInt64.toNat_ofNat', UInt64.toNat_ofNat', ← Nat.or_mod_two_pow, Nat.shiftLeft_eq,
    Nat.add_comm, Nat.two_pow_add_eq_or_of_lt hacc, Nat.mul_comm, Nat.or_comm]

theorem group_lt {acc k : Nat} (hacc : acc < 2 ^ (7 * k)) (b : UInt8) :
    acc + 2 ^ (7 * k) * (b.toNat % 128) < 2 ^ (7 * (k + 1)) := by
  have hgroup : b.toNat % 128 + 1 ≤ 128 := Nat.mod_lt _ (by decide)
  have hmul := Nat.mul_le_mul_left (2 ^ (7 * k)) hgroup
  have hpow : 2 ^ (7 * (k + 1)) = 2 ^ (7 * k) * 128 := by rw [Nat.mul_succ, Nat.pow_add]
  rw [Nat.mul_succ] at hmul
  omega

/-- What becomes of a number whose first `k` groups make `acc`, once the others
have been read. -/
def gathered (whole : Bytes) (acc k : Nat) :
    Except OpenEnd (Nat × Bytes) → Except Fault (UInt64 × Bytes)
  | .ok (n, rest) => .ok (UInt64.ofNat (acc + 2 ^ (7 * k) * n), rest)
  | .error .tooLong => .error (.unknownCode whole)
  | .error .cutOff => .error (.truncated whole)

theorem readVarint_eq_gathered (code : Bytes) :
    readVarint code = gathered code 0 0 (readGroups maxGroups code) := by
  rw [readVarint]
  rcases readGroups maxGroups code with (_ | _) | ⟨n, rest⟩
  · rfl
  · rfl
  · simp [gathered]

/-- One more group, which may be the last one. -/
theorem gathered_readGroups_cons (whole : Bytes) (acc k room : Nat) (b : UInt8) (rest : Bytes) :
    gathered whole acc k (readGroups (room + 1) (b :: rest)) =
      if b < 128 then .ok (UInt64.ofNat (acc + 2 ^ (7 * k) * (b.toNat % 128)), rest)
      else gathered whole (acc + 2 ^ (7 * k) * (b.toNat % 128)) (k + 1) (readGroups room rest) := by
  rw [readGroups]
  by_cases hb : b < 128
  · have hlow : b.toNat % 128 = b.toNat := Nat.mod_eq_of_lt (UInt8.lt_iff_toNat_lt.mp hb)
    rw [if_pos hb, if_pos hb, hlow]
    rfl
  · rw [if_neg hb, if_neg hb, low_bits hb]
    rcases readGroups room rest with (_ | _) | ⟨n, after⟩
    · rfl
    · rfl
    · have hsum : acc + 2 ^ (7 * k) * (b.toNat % 128 + 128 * n) =
          acc + 2 ^ (7 * k) * (b.toNat % 128) + 2 ^ (7 * (k + 1)) * n := by
        ring
      rw [gathered, gathered, hsum]

section Readers

variable {code : Bytes}

theorem groupsAt_of_le (start : Nat) (value : UInt64) {cursor : Nat} (h : code.length ≤ cursor) :
    groupsAt code start value cursor = throw (.truncated (code.drop start)) := by
  rw [groupsAt, dif_neg (Nat.not_lt.mpr h), blame_min]

theorem groupsAt_of_full {start : Nat} (value : UInt64) (h : start + maxGroups < code.length) :
    groupsAt code start value (start + maxGroups) = throw (.unknownCode (code.drop start)) := by
  rw [groupsAt, dif_pos h, lift_bind (word?_add_sub start (by decide)), if_pos rfl,
    blame_eq _ (by omega)]

theorem groupsAt_of_lt {start k acc : Nat} (hk : k < maxGroups) (hacc : acc < 2 ^ (7 * k))
    (h : start + k < code.length) (hcode : code.length < 2 ^ 64) :
    groupsAt code start (UInt64.ofNat acc) (start + k) =
      let value := UInt64.ofNat (acc + 2 ^ (7 * k) * (code[start + k].toNat % 128))
      if code[start + k] < 128 then pure (value, start + (k + 1))
      else groupsAt code start value (start + (k + 1)) := by
  have hlimit : maxGroups = 10 := rfl
  have hcount := word?_add_sub start (by omega : k < 2 ^ 64)
  have hplaces := word?_natCast (by omega : 7 * k < 2 ^ 64)
  have hnext := word?_natCast (by omega : start + k + 1 < 2 ^ 64)
  have hshift := shift?_of_lt (code[start + k] &&& 0x7F).toUInt64 (by omega : 7 * k < 64)
  rw [groupsAt, dif_pos h, lift_bind hcount, if_neg (Nat.ne_of_lt hk), lift_bind hplaces,
    lift_bind hshift, lift_bind hnext, or_shift hk hacc]
  simp only [and_high_eq_zero_iff]
  rfl

variable (hcode : code.length < 2 ^ 64)
include hcode

/-- The groups from the `k`-th on, with the first ones in the low bits. By induction
on how many more there may be: `acc` stays below the bits that are still to come. -/
theorem computes_groupsAt (start : Nat) : ∀ {room k acc : Nat}, k + room = maxGroups →
    acc < 2 ^ (7 * k) →
      Computes code (groupsAt code start (UInt64.ofNat acc) (start + k))
        (gathered (code.drop start) acc k (readGroups room (code.drop (start + k)))) := by
  intro room
  induction room with
  | zero =>
      intro k acc hk hacc
      obtain rfl : k = maxGroups := hk
      rcases Nat.lt_or_ge (start + maxGroups) code.length with hin | hout
      · rw [groupsAt_of_full _ hin, List.drop_eq_getElem_cons hin]
        exact .error _
      · rw [groupsAt_of_le _ _ hout, List.drop_of_length_le hout]
        exact .error _
  | succ room ih =>
      intro k acc hk hacc
      rcases Nat.lt_or_ge (start + k) code.length with hin | hout
      · rw [groupsAt_of_lt (by omega) hacc hin hcode, List.drop_eq_getElem_cons hin,
          gathered_readGroups_cons]
        dsimp only
        split
        · exact .ok _ (by omega)
        · exact ih (by omega) (group_lt hacc _)
      · rw [groupsAt_of_le _ _ hout, List.drop_of_length_le hout]
        exact .error _

theorem computes_varintAt (cursor : Nat) :
    Computes code (varintAt code cursor) (readVarint (code.drop cursor)) := by
  have h := computes_groupsAt hcode cursor (Nat.zero_add maxGroups) (by decide : 0 < 2 ^ (7 * 0))
  rw [readVarint_eq_gathered]
  exact h

theorem computes_natAt (cursor : Nat) :
    Computes code (natAt code cursor) (readNat (code.drop cursor)) := by
  have h := computes_varintAt hcode cursor
  rw [natAt, readNat]
  generalize varintAt code cursor = x, readVarint (code.drop cursor) = y at h
  cases h with
  | error e => exact .error e
  | ok n hnext =>
      simp only [pure_bind, word?_natCast n.toNat_lt]
      exact .ok _ hnext

/-- Bytes are there or they are not. From beyond the end of the code not even zero
bytes can be taken, so it matters where the cursor is if there are none to take. -/
theorem bytesAt_cases {cursor count : Nat} (hreach : 0 < count ∨ cursor ≤ code.length) :
    let found := (code.drop cursor).take count
    cursor + count ≤ code.length ∧ bytesAt code cursor count = pure found ∧
        readBytes count (code.drop cursor) = .ok (found, code.drop (cursor + count)) ∨
      bytesAt code cursor count = throw (.truncated (code.drop cursor)) ∧
        readBytes count (code.drop cursor) = .error (.truncated (code.drop cursor)) := by
  rw [bytesAt, readBytes, List.length_drop, List.drop_drop]
  rcases Nat.lt_or_ge code.length (cursor + count) with hout | hin
  · right
    rw [if_neg (by omega)]
    refine ⟨?_, rfl⟩
    cases hstop : Text.word? (cursor + count : Nat) with
    | none => exact blame_min _ _
    | some stop =>
        rw [bytesTo, eq_of_word? hstop, if_neg (Nat.not_le.mpr hout)]
        exact blame_min _ _
  · left
    have hslice : slice? code cursor (cursor + count) = some ((code.drop cursor).take count) := by
      rw [slice?, if_pos ⟨Nat.le_add_right .., hin⟩, List.drop_take, Nat.add_sub_cancel_left]
    rw [word?_natCast (by omega), bytesTo, if_pos hin, hslice, if_pos (by omega)]
    exact ⟨hin, rfl, rfl⟩

theorem computes_binaryAt (f : Format) (cursor : Nat) :
    Computes code (binaryAt f code cursor) (readBinary f (code.drop cursor)) := by
  have hreach : 0 < f.width / 8 ∨ cursor ≤ code.length := Or.inl (by cases f <;> decide)
  rw [binaryAt, readBinary]
  rcases bytesAt_cases hcode hreach with ⟨hin, hbytes, hread⟩ | ⟨hbytes, hread⟩
  · have hlength : ((code.drop cursor).take (f.width / 8)).length = f.width / 8 := by
      rw [List.length_take, List.length_drop]
      omega
    have hbits := slice?_tail (Nat.zero_le ((code.drop cursor).take (f.width / 8)).length)
    have hstop := word?_natCast (by omega : cursor + f.width / 8 < 2 ^ 64)
    rw [hlength, List.drop_zero] at hbits
    rw [hbytes, hread]
    simp only [pure_bind]
    rw [lift_bind hbits, lift_bind hstop]
    exact .ok _ hin
  · rw [hbytes, hread]
    exact .error _

theorem computes_stringAt (cursor : Nat) :
    Computes code (stringAt code cursor) (readString (code.drop cursor)) := by
  have h := computes_natAt hcode cursor
  rw [stringAt, readString]
  generalize natAt code cursor = x, readNat (code.drop cursor) = y at h
  cases h with
  | error e => exact .error e
  | @ok length start hstart =>
      simp only [pure_bind]
      have hreach : 0 < length ∨ start ≤ code.length := Or.inr hstart
      rcases bytesAt_cases hcode hreach with ⟨hin, hbytes, hread⟩ | ⟨hbytes, hread⟩
      · rw [hbytes, hread]
        simp only [pure_bind]
        cases String.fromUTF8? _ with
        | none => exact .error _
        | some s =>
            dsimp only
            rw [lift_bind (word?_natCast (by omega))]
            exact .ok _ hin
      · rw [hbytes, hread]
        exact .error _

theorem computes_aggregateAt {cursor : Nat} (hcursor : cursor ≤ code.length) :
    Computes code (aggregateAt code cursor) (readAggregate (code.drop cursor)) := by
  rw [aggregateAt]
  rcases Nat.lt_or_ge cursor code.length with hin | hout
  · rw [List.getElem?_eq_getElem hin, List.drop_eq_getElem_cons hin, readAggregate]
    dsimp only
    rw [lift_bind (word?_natCast (by omega))]
    split
    · exact .ok _ hin
    · rw [← List.drop_eq_getElem_cons hin]
      refine .found_bind hcursor fun t => ?_
      refine (computes_natAt hcode _).bind fun index next hnext => ?_
      exact .found_bind hcursor fun a => .ok a hnext
  · rw [List.getElem?_eq_none hout, List.drop_of_length_le hout, blame_eq _ hcursor]
    rw [List.drop_of_length_le hout]
    exact .error _

end Readers

/-! ## Loops -/

/-- The outcome of a loop that begins at a cursor or behind it, and that of
reading its values. Every round but a last one that fails takes a byte. -/
inductive Rounds {α : Type} (code : Bytes) (cursor : Nat) :
    Option (Except Fault (List α × Nat) × Nat) → Except Fault (List α × Bytes) → Prop where
  | ok (vs : List α) {next : Nat} (h : next ≤ code.length) (htaken : cursor + vs.length ≤ next) :
      Rounds code cursor (some (.ok (vs, next), vs.length)) (.ok (vs, code.drop next))
  | error (e : Fault) {rounds : Nat} (htaken : rounds ≤ code.length + 1 - cursor) :
      Rounds code cursor (some (.error e, rounds)) (.error e)

theorem Rounds.mono {α : Type} {code : Bytes} {cursor cursor' : Nat}
    {x : Option (Except Fault (List α × Nat) × Nat)} {y : Except Fault (List α × Bytes)}
    (h : Rounds code cursor x y) (hcursor : cursor' ≤ cursor) : Rounds code cursor' x y := by
  cases h with
  | ok vs hnext htaken => exact .ok vs hnext (by omega)
  | error e htaken => exact .error e (by omega)

/-- A list at a cursor is computed, and its loop stops with the code. -/
def LoopStops {α : Type} (read : Bytes → Except Fault (α × Bytes))
    (body : Nat → Computed (α × Nat)) (code : Bytes) (cursor : Nat) : Prop :=
  ∃ rounds, listAt body code cursor = some (readAt (readList read) code cursor, rounds) ∧
    rounds ≤ code.length - cursor ∧
    ∀ vs next, readAt (readList read) code cursor = .ok (vs, next) → vs.length = rounds

section Loops

variable {α : Type} {code : Bytes} {read : Bytes → Except Fault (α × Bytes)}
  {body : Nat → Computed (α × Nat)}
  (shorter : ∀ {code v rest}, read code = .ok (v, rest) → rest.length < code.length)
include shorter

theorem readList_shorter {code rest : Bytes} {vs : List α}
    (h : readList read code = .ok (vs, rest)) : rest.length < code.length :=
  Nat.lt_of_le_of_lt (Nat.le_add_right ..) (readList_length shorter h)

theorem lt_of_shorter {cursor next : Nat} {v : α}
    (h : read (code.drop cursor) = .ok (v, code.drop next)) (hnext : next ≤ code.length) :
    cursor < next := by
  have hlength := shorter h
  rw [List.length_drop, List.length_drop] at hlength
  omega

theorem Computes.eq_readAt {cursor : Nat} {x : Computed (α × Nat)}
    (h : Computes code x (read (code.drop cursor))) :
    x.run = some (readAt read code cursor) := by
  rw [readAt]
  generalize hread : read (code.drop cursor) = y at h
  cases h with
  | error e => rfl
  | @ok v next hnext =>
      have hlt := lt_of_shorter shorter hread hnext
      have hposition : cursor + ((code.drop cursor).length - (code.drop next).length) = next := by
        rw [List.length_drop, List.length_drop]
        omega
      dsimp only
      rw [hposition]
      rfl

variable (hbody : ∀ {cursor : Nat}, cursor ≤ code.length →
  Computes code (body cursor) (read (code.drop cursor)))
include hbody

theorem rounds_roundsAt : ∀ (count : Nat) {cursor : Nat}, cursor ≤ code.length →
    Rounds code cursor (roundsAt body count cursor) (readMany read count (code.drop cursor)) := by
  intro count
  induction count with
  | zero =>
      intro cursor hcursor
      exact .ok [] hcursor (Nat.le_refl _)
  | succ count ih =>
      intro cursor hcursor
      have hfirst := hbody hcursor
      rw [roundsAt, readMany]
      generalize body cursor = x at hfirst
      generalize hread : read (code.drop cursor) = y at hfirst
      cases hfirst with
      | error e => exact .error e (by omega)
      | @ok v next hnext =>
          have hlt := lt_of_shorter shorter hread hnext
          have hothers := ih hnext
          show Rounds code cursor ((roundsAt body count next).map (oneMore v)) _
          dsimp only
          generalize roundsAt body count next = x at hothers
          generalize readMany read count (code.drop next) = y at hothers
          cases hothers with
          | error e htaken => exact .error e (by omega)
          | ok vs hstop htaken =>
              refine .ok (v :: vs) hstop ?_
              rw [List.length_cons]
              omega

/-- The count takes the first byte, so what is left for the rounds begins behind
it. -/
theorem rounds_listAt (hcode : code.length < 2 ^ 64) (cursor : Nat) :
    Rounds code (cursor + 1) (listAt body code cursor) (readList read (code.drop cursor)) := by
  have hcount := computes_natAt hcode cursor
  rw [listAt, readList]
  generalize natAt code cursor = x at hcount
  generalize hread : readNat (code.drop cursor) = y at hcount
  cases hcount with
  | error e => exact .error e (Nat.zero_le _)
  | ok count hstart =>
      have hlt := lt_of_shorter readNat_shorter hread hstart
      exact (rounds_roundsAt shorter hbody count hstart).mono hlt

/-- A list in machine words comes to what its reader finds, in as many rounds as
there are values. If it fails, it has begun no more rounds than there are bytes
behind the cursor, whatever the count was. -/
theorem loopStops_listAt (hcode : code.length < 2 ^ 64) (cursor : Nat) :
    LoopStops read body code cursor := by
  have hloop := rounds_listAt shorter hbody hcode cursor
  rw [LoopStops]
  generalize listAt body code cursor = x at hloop
  generalize hlist : readList read (code.drop cursor) = y at hloop
  cases hloop with
  | error e htaken =>
      have hfault : readAt (readList read) code cursor = .error e := by rw [readAt, hlist]
      rw [hfault]
      exact ⟨_, rfl, by omega, fun _ _ h => by cases h⟩
  | ok vs hnext htaken =>
      have hvalue := Computes.ok vs hnext
      rw [← hlist] at hvalue
      rw [← Option.some.inj (hvalue.eq_readAt (readList_shorter shorter))]
      exact ⟨_, rfl, by omega, fun _ _ h => by cases h; rfl⟩

end Loops

end Code

end RowCode
