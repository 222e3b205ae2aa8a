import RowCode.Code.Program
import RowCode.Pipeline.Plan

/-!
# Pipelines in code

The code of a pipeline is stage behind stage up to the end of the code. Filters and projections
hold a program; aggregations hold a list of aggregates, each a descriptor byte with the kind in
its high half and a type tag in its low half, and a column.

When a stage cannot be read, the stages before it have been read all the same, so reading gives
both the stages and, if there is one, the fault.
-/

namespace RowCode.Code

/-- The descriptor of the aggregate that has no column. -/
def countAllByte : UInt8 := 0x10

/-- The aggregate of a kind and a type, if the kind is defined on the type. -/
def aggregate? (kind : Nat) (t : Ty) (index : Nat) : Option Aggregate :=
  match kind with
  | 1 => some (.count index t)
  | 2 => (NumTy.ofTy? t).map (.sum index)
  | 3 => (NumTy.ofTy? t).map (.sum0 index)
  | 4 => (ValueTy.ofTy? t).map (.extreme .max index)
  | 5 => (ValueTy.ofTy? t).map (.extreme .min index)
  | _ => none

def readAggregate (code : Bytes) : Except Fault (Aggregate × Bytes) :=
  match code with
  | [] => .error (.truncated [])
  | b :: rest =>
    if b = countAllByte then .ok (.countAll, rest)
    else do
      let t ← orUnknown code (Ty.ofCode? (b.toNat % 16))
      let (index, rest) ← readNat rest
      let a ← orUnknown code (aggregate? (b.toNat / 16) t index)
      .ok (a, rest)

/-- One stage, from its first byte and what follows it. -/
def readStage (opcode : UInt8) (rest : Bytes) : Except Fault (Stage × Bytes) :=
  match opcode with
  | 0x71 => do
    let (p, rest) ← readProgram rest
    .ok (.filter p, rest)
  | 0x72 => do
    let (p, rest) ← readProgram rest
    .ok (.project p, rest)
  | 0x73 => do
    let (columns, rest) ← readList readNat rest
    let (aggs, rest) ← readList readAggregate rest
    .ok (.groupBy columns aggs, rest)
  | 0x74 => do
    let (aggs, rest) ← readList readAggregate rest
    .ok (.aggregate aggs, rest)
  | _ => .error (.unknownCode (opcode :: rest))

theorem readAggregate_shorter {code rest : Bytes} {a : Aggregate}
    (h : readAggregate code = .ok (a, rest)) : rest.length < code.length := by
  cases code with
  | nil => cases h
  | cons b code =>
    simp only [readAggregate] at h
    split at h
    · cases h
      simp
    · obtain ⟨t, _, h⟩ := bind_eq_ok.1 h
      obtain ⟨⟨n, r⟩, hn, h⟩ := bind_eq_ok.1 h
      obtain ⟨a', _, h⟩ := bind_eq_ok.1 h
      cases h
      have := readNat_shorter hn
      simp only [List.length_cons]
      omega

theorem readMany_length {α : Type} {read : Bytes → Except Fault (α × Bytes)}
    (shorter : ∀ {code v rest}, read code = .ok (v, rest) → rest.length < code.length)
    {count : Nat} {code rest : Bytes} {vs : List α}
    (h : readMany read count code = .ok (vs, rest)) : rest.length + vs.length ≤ code.length := by
  induction count generalizing code vs with
  | zero =>
    cases h
    simp
  | succ count ih =>
    simp only [readMany] at h
    split at h
    · cases h
    next hv =>
      split at h
      · cases h
      next hvs =>
        cases h
        have := shorter hv
        have := ih hvs
        simp only [List.length_cons]
        omega

theorem readList_length {α : Type} {read : Bytes → Except Fault (α × Bytes)}
    (shorter : ∀ {code v rest}, read code = .ok (v, rest) → rest.length < code.length)
    {code rest : Bytes} {vs : List α}
    (h : readList read code = .ok (vs, rest)) : rest.length + vs.length < code.length := by
  simp only [readList] at h
  split at h
  · cases h
  next hn =>
    have := readNat_shorter hn
    have := readMany_length shorter h
    omega

theorem readStage_length {opcode : UInt8} {rest rest' : Bytes} {s : Stage}
    (h : readStage opcode rest = .ok (s, rest')) : rest'.length ≤ rest.length := by
  unfold readStage at h
  split at h
  · obtain ⟨⟨p, r⟩, hp, h⟩ := bind_eq_ok.1 h
    cases h
    exact readProgram_length hp
  · obtain ⟨⟨p, r⟩, hp, h⟩ := bind_eq_ok.1 h
    cases h
    exact readProgram_length hp
  · obtain ⟨⟨columns, r⟩, hc, h⟩ := bind_eq_ok.1 h
    obtain ⟨⟨aggs, r'⟩, ha, h⟩ := bind_eq_ok.1 h
    cases h
    have := readList_length readNat_shorter hc
    have := readList_length readAggregate_shorter ha
    omega
  · obtain ⟨⟨aggs, r⟩, ha, h⟩ := bind_eq_ok.1 h
    cases h
    have := readList_length readAggregate_shorter ha
    omega
  · cases h

/-- Reads all stages, up to the end of the code or to one that cannot be read. -/
def readStages (code : Bytes) : List Stage × Option Fault :=
  match code with
  | [] => ([], none)
  | opcode :: rest =>
    match _h : readStage opcode rest with
    | .error e => ([], some e)
    | .ok (s, rest') =>
      let (stages, fault) := readStages rest'
      (s :: stages, fault)
termination_by code.length
decreasing_by
  have := readStage_length _h
  simp only [List.length_cons]
  omega

theorem readStages_nil : readStages [] = ([], none) := by
  rw [readStages]

theorem readStages_of_error {opcode : UInt8} {rest : Bytes} {e : Fault}
    (h : readStage opcode rest = .error e) : readStages (opcode :: rest) = ([], some e) := by
  rw [readStages]
  split
  · next hread =>
    rw [h] at hread
    cases hread
    rfl
  · next hread =>
    rw [h] at hread
    cases hread

theorem readStages_of_ok {opcode : UInt8} {rest rest' : Bytes} {s : Stage}
    (h : readStage opcode rest = .ok (s, rest')) :
    readStages (opcode :: rest) = (s :: (readStages rest').1, (readStages rest').2) := by
  rw [readStages]
  split
  · next hread =>
    rw [h] at hread
    cases hread
  · next hread =>
    rw [h] at hread
    cases hread
    rfl

end RowCode.Code
