import RowCode.Fault

/-!
# Values inside code

Code is read from the front: a reader takes the bytes from its position to the end and gives the
value it found together with the bytes behind it. A reader that fails reports the bytes that the
value should have been in.

Integers are stored in groups of seven bits, the lowest first, with the high bit of a byte set
when another group follows. At most ten groups make a number, and only its low 64 bits count.
Floats are stored with their highest byte first, and strings as a length and that many bytes of
UTF-8.

Every reader takes at least one byte (the lemmas `…_shorter`), which is what bounds the loops
that read lists of values.
-/

namespace RowCode.Code

/-- The ways in which the groups of an integer can fail to end. -/
inductive OpenEnd where
  /-- All groups that are allowed have been read, and another byte follows. -/
  | tooLong
  /-- The code ends first. -/
  | cutOff
deriving Repr, DecidableEq

/-- Reads at most `room` groups, the lowest first. -/
def readGroups : (room : Nat) → Bytes → Except OpenEnd (Nat × Bytes)
  | _, [] => .error .cutOff
  | 0, _ :: _ => .error .tooLong
  | room + 1, b :: rest =>
    if b < 128 then .ok (b.toNat, rest)
    else
      match readGroups room rest with
      | .error e => .error e
      | .ok (n, rest) => .ok (b.toNat - 128 + 128 * n, rest)

/-- The most groups that an integer may have. -/
def maxGroups : Nat := 10

/-- Reads an integer of 64 bits. -/
def readVarint (code : Bytes) : Except Fault (UInt64 × Bytes) :=
  match readGroups maxGroups code with
  | .ok (n, rest) => .ok (UInt64.ofNat n, rest)
  | .error .tooLong => .error (.unknownCode code)
  | .error .cutOff => .error (.truncated code)

/-- Reads a count or an index. -/
def readNat (code : Bytes) : Except Fault (Nat × Bytes) :=
  match readVarint code with
  | .ok (n, rest) => .ok (n.toNat, rest)
  | .error e => .error e

/-- Takes the next `count` bytes. -/
def readBytes (count : Nat) (code : Bytes) : Except Fault (Bytes × Bytes) :=
  if count ≤ code.length then .ok (code.take count, code.drop count)
  else .error (.truncated code)

/-- The number that bytes denote, the highest first. -/
def bigEndian (bytes : Bytes) : Nat :=
  bytes.foldl (fun n b => 256 * n + b.toNat) 0

/-- Reads the bits of a float. -/
def readBinary (f : Format) (code : Bytes) : Except Fault (Binary f × Bytes) :=
  match readBytes (f.width / 8) code with
  | .ok (bytes, rest) => .ok (⟨BitVec.ofNat _ (bigEndian bytes)⟩, rest)
  | .error e => .error e

/-- Reads a string. -/
def readString (code : Bytes) : Except Fault (String × Bytes) :=
  match readNat code with
  | .error e => .error e
  | .ok (length, rest) =>
    match readBytes length rest with
    | .error e => .error e
    | .ok (bytes, rest) =>
      match String.fromUTF8? ⟨bytes.toArray⟩ with
      | some s => .ok (s, rest)
      | none => .error (.invalidString bytes)

/-- Reads `count` values, one behind the other. -/
def readMany {α : Type} (read : Bytes → Except Fault (α × Bytes)) :
    (count : Nat) → Bytes → Except Fault (List α × Bytes)
  | 0, code => .ok ([], code)
  | count + 1, code =>
    match read code with
    | .error e => .error e
    | .ok (v, rest) =>
      match readMany read count rest with
      | .error e => .error e
      | .ok (vs, rest) => .ok (v :: vs, rest)

/-- Reads a count and that many values. -/
def readList {α : Type} (read : Bytes → Except Fault (α × Bytes)) (code : Bytes) :
    Except Fault (List α × Bytes) :=
  match readNat code with
  | .error e => .error e
  | .ok (count, rest) => readMany read count rest

/-! ## Readers take bytes -/

theorem readGroups_shorter {room n : Nat} {code rest : Bytes}
    (h : readGroups room code = .ok (n, rest)) : rest.length < code.length := by
  induction room generalizing code n with
  | zero => cases code <;> simp [readGroups] at h
  | succ room ih =>
    cases code with
    | nil => simp [readGroups] at h
    | cons b code =>
      simp only [readGroups] at h
      split at h
      · cases h
        simp
      · split at h
        · cases h
        · next hn =>
          cases h
          exact Nat.lt_trans (ih hn) (by simp)

theorem readVarint_shorter {code rest : Bytes} {n : UInt64}
    (h : readVarint code = .ok (n, rest)) : rest.length < code.length := by
  simp only [readVarint] at h
  split at h <;> cases h
  next hn => exact readGroups_shorter hn

theorem readNat_shorter {code rest : Bytes} {n : Nat}
    (h : readNat code = .ok (n, rest)) : rest.length < code.length := by
  simp only [readNat] at h
  split at h <;> cases h
  next hn => exact readVarint_shorter hn

theorem readBytes_length {count : Nat} {code bytes rest : Bytes}
    (h : readBytes count code = .ok (bytes, rest)) : rest.length + count = code.length := by
  simp only [readBytes] at h
  split at h <;> cases h
  simp only [List.length_drop]
  omega

theorem readBinary_shorter {f : Format} {code rest : Bytes} {x : Binary f}
    (h : readBinary f code = .ok (x, rest)) : rest.length < code.length := by
  simp only [readBinary] at h
  split at h <;> cases h
  next hb =>
    have := readBytes_length hb
    cases f <;> simp only [Format.width, Format.fractionBits, Format.exponentBits] at this <;> omega

theorem readString_shorter {code rest : Bytes} {s : String}
    (h : readString code = .ok (s, rest)) : rest.length < code.length := by
  simp only [readString] at h
  split at h
  · cases h
  next hn =>
    split at h
    · cases h
    next hb =>
      split at h <;> cases h
      have := readNat_shorter hn
      have := readBytes_length hb
      omega

end RowCode.Code
