import RowCode.Proofs.Code.Grammar
import RowCode.Proofs.Pipeline.Rig

/-!
# The grammar of pipelines

The code of a pipeline is one stage behind the other. A stage is a first byte
and a body; where the body is a program, a stop byte closes it, or else the end
of the code does (`readStage_eq_ok_iff`).

`readStages` reads as many stages as there are (`readStages_append`). A code
that it reads to the end is spelled out by stages, and in any other code what
stands behind the stages does not begin with a stage (`Broken`). So the count
of bytes is right, and what a rig holds after a fault is what the stages in
front of it spell out.
-/

namespace RowCode

namespace Code

/-! ## Aggregates -/

/-- An aggregate as it stands in code. -/
inductive AggregateWord where
  | countAll
  | count (t : ValueTy) (index : Varint)
  | sum (t : NumTy) (index : Varint)
  | sum0 (t : NumTy) (index : Varint)
  | extreme (e : Extreme) (t : ValueTy) (index : Varint)

namespace AggregateWord

/-- The kind of an extreme, in the high half of the descriptor. -/
def group : Extreme → Nat
  | .max => 4
  | .min => 5

def bytes : AggregateWord → Bytes
  | countAll => [countAllByte]
  | count t index => t.ty.tagged 1 :: index.bytes
  | sum t index => t.ty.tagged 2 :: index.bytes
  | sum0 t index => t.ty.tagged 3 :: index.bytes
  | extreme e t index => t.ty.tagged (group e) :: index.bytes

def aggregate : AggregateWord → Aggregate
  | countAll => .countAll
  | count t index => .count index.value.toNat t.ty
  | sum t index => .sum index.value.toNat t
  | sum0 t index => .sum0 index.value.toNat t
  | extreme e t index => .extreme e index.value.toNat t

end AggregateWord

theorem readAggregate_column {t : Ty} {group : Nat} (index : Varint) {a : Aggregate}
    (hgroup : group < 16) (hcount : t.tagged group ≠ countAllByte)
    (ha : aggregate? group t index.value.toNat = some a) (rest : Bytes) :
    readAggregate (t.tagged group :: (index.bytes ++ rest)) = .ok (a, rest) := by
  rw [readAggregate, if_neg hcount, t.tagged_mod hgroup, t.tagged_div hgroup, Ty.ofCode?_code]
  simp only [orUnknown, Bind.bind, Except.bind, exact_readNat.reads, ha]

theorem aggregate?_written {t : Ty} {group : Nat} {index : Varint} {a : Aggregate}
    (hcount : t.tagged group ≠ countAllByte)
    (h : aggregate? group t index.value.toNat = some a) :
    ∃ w : AggregateWord, w.aggregate = a ∧ w.bytes = t.tagged group :: index.bytes := by
  unfold aggregate? at h
  split at h
  · cases h
    cases hvalue : ValueTy.ofTy? t with
    | none =>
        cases t <;> cases hvalue
        exact absurd rfl hcount
    | some v =>
        obtain rfl := ValueTy.ty_of_ofTy? hvalue
        exact ⟨.count v index, rfl, rfl⟩
  · obtain ⟨n, hn, rfl⟩ := Option.map_eq_some_iff.mp h
    obtain rfl := NumTy.ty_of_ofTy? hn
    exact ⟨.sum n index, rfl, rfl⟩
  · obtain ⟨n, hn, rfl⟩ := Option.map_eq_some_iff.mp h
    obtain rfl := NumTy.ty_of_ofTy? hn
    exact ⟨.sum0 n index, rfl, rfl⟩
  · obtain ⟨v, hv, rfl⟩ := Option.map_eq_some_iff.mp h
    obtain rfl := ValueTy.ty_of_ofTy? hv
    exact ⟨.extreme .max v index, rfl, rfl⟩
  · obtain ⟨v, hv, rfl⟩ := Option.map_eq_some_iff.mp h
    obtain rfl := ValueTy.ty_of_ofTy? hv
    exact ⟨.extreme .min v index, rfl, rfl⟩
  · cases h

theorem exact_readAggregate : Exact readAggregate AggregateWord.bytes AggregateWord.aggregate where
  reads := by
    intro w rest
    cases w with
    | countAll => rfl
    | count t index =>
        exact readAggregate_column index (by decide) (by cases t <;> decide) rfl rest
    | sum t index =>
        exact readAggregate_column index (by decide) (by cases t <;> decide)
          (by cases t <;> rfl) rest
    | sum0 t index =>
        exact readAggregate_column index (by decide) (by cases t <;> decide)
          (by cases t <;> rfl) rest
    | extreme e t index =>
        exact readAggregate_column index (by cases e <;> decide)
          (by cases e <;> cases t <;> decide) (by cases e <;> cases t <;> rfl) rest
  written := by
    intro code a rest h
    cases code with
    | nil => cases h
    | cons b code =>
        simp only [readAggregate] at h
        split at h
        · next hcount =>
          cases h
          exact ⟨.countAll, rfl, by rw [hcount]; rfl⟩
        · next hcount =>
          obtain ⟨t, ht, h⟩ := bind_eq_ok.1 h
          obtain ⟨⟨n, after⟩, hn, h⟩ := bind_eq_ok.1 h
          obtain ⟨a', ha, h⟩ := bind_eq_ok.1 h
          cases h
          obtain ⟨index, rfl, rfl⟩ := exact_readNat.written hn
          have hb := Ty.eq_tagged rfl (orUnknown_eq_ok ht)
          obtain ⟨w, rfl, hw⟩ := aggregate?_written (hb ▸ hcount) (orUnknown_eq_ok ha)
          exact ⟨w, rfl, by rw [hw, ← hb, List.cons_append]⟩

/-! ## Stages -/

/-- Programs with the byte that closes them, or at the end of the code. -/
theorem readProgram_closed_iff {code rest : Bytes} {p : Program} :
    readProgram code = .ok (p, rest) ↔
      ∃ words : List Word, words.filterMap Word.instr? = p ∧
        (code = words.flatMap Word.bytes ++ Opcode.stop :: rest ∨
          (code = words.flatMap Word.bytes ∧ rest = [])) := by
  rw [readProgram_eq_ok_iff]
  constructor
  · rintro ⟨words, tail, rfl, hends, hp, hrest⟩
    rcases ends_drop_iff.mp ⟨hends, hrest⟩ with rfl | ⟨rfl, rfl⟩
    · exact ⟨words, hp, Or.inl rfl⟩
    · exact ⟨words, hp, Or.inr ⟨List.append_nil _, rfl⟩⟩
  · rintro ⟨words, hp, rfl | ⟨rfl, rfl⟩⟩
    · obtain ⟨hends, hrest⟩ := ends_drop_iff.mpr (Or.inl rfl)
      exact ⟨words, _, rfl, hends, hp, hrest⟩
    · exact ⟨words, [], (List.append_nil _).symm, nofun, hp, rfl⟩

/-- A stage as it stands in code. -/
inductive StageWord where
  | filter (words : List Word)
  | project (words : List Word)
  | groupBy (columns : Listed Varint) (aggs : Listed AggregateWord)
  | aggregate (aggs : Listed AggregateWord)

namespace StageWord

def head : StageWord → UInt8
  | filter _ => 0x71
  | project _ => 0x72
  | groupBy _ _ => 0x73
  | aggregate _ => 0x74

def content : StageWord → Bytes
  | filter words => words.flatMap Word.bytes
  | project words => words.flatMap Word.bytes
  | groupBy columns aggs => columns.bytes Varint.bytes ++ aggs.bytes AggregateWord.bytes
  | aggregate aggs => aggs.bytes AggregateWord.bytes

/-- The bytes of a stage but for the stop byte, if it has one. -/
def body (w : StageWord) : Bytes :=
  w.head :: w.content

def closing : StageWord → Bytes
  | filter _ => [Opcode.stop]
  | project _ => [Opcode.stop]
  | groupBy _ _ => []
  | aggregate _ => []

def bytes (w : StageWord) : Bytes :=
  w.body ++ w.closing

def stage : StageWord → Stage
  | filter words => .filter (words.filterMap Word.instr?)
  | project words => .project (words.filterMap Word.instr?)
  | groupBy columns aggs =>
    .groupBy (columns.items.map fun n => n.value.toNat)
      (aggs.items.map AggregateWord.aggregate)
  | aggregate aggs => .aggregate (aggs.items.map AggregateWord.aggregate)

end StageWord

theorem closed_nil {code content rest : Bytes} :
    (code = content ++ ([] ++ rest) ∨ (code = content ∧ rest = [])) ↔ code = content ++ rest := by
  constructor
  · rintro (rfl | ⟨rfl, rfl⟩)
    · rfl
    · exact (List.append_nil _).symm
  · exact Or.inl

/-- One stage, closed by its stop byte or by the end of the code. -/
theorem readStage_eq_ok_iff {opcode : UInt8} {code rest : Bytes} {s : Stage} :
    readStage opcode code = .ok (s, rest) ↔
      ∃ w : StageWord, w.stage = s ∧ w.head = opcode ∧
        (code = w.content ++ (w.closing ++ rest) ∨ (code = w.content ∧ rest = [])) := by
  constructor
  · intro h
    unfold readStage at h
    split at h
    · obtain ⟨⟨p, after⟩, hp, h⟩ := bind_eq_ok.1 h
      cases h
      obtain ⟨words, rfl, hcode⟩ := readProgram_closed_iff.mp hp
      exact ⟨.filter words, rfl, rfl, hcode⟩
    · obtain ⟨⟨p, after⟩, hp, h⟩ := bind_eq_ok.1 h
      cases h
      obtain ⟨words, rfl, hcode⟩ := readProgram_closed_iff.mp hp
      exact ⟨.project words, rfl, rfl, hcode⟩
    · obtain ⟨⟨columns, after⟩, hcolumns, h⟩ := bind_eq_ok.1 h
      obtain ⟨⟨aggs, after'⟩, haggs, h⟩ := bind_eq_ok.1 h
      cases h
      obtain ⟨columns, rfl, rfl⟩ := exact_readNat.list.written hcolumns
      obtain ⟨aggs, rfl, rfl⟩ := exact_readAggregate.list.written haggs
      exact ⟨.groupBy columns aggs, rfl, rfl, closed_nil.mpr (List.append_assoc ..).symm⟩
    · obtain ⟨⟨aggs, after⟩, haggs, h⟩ := bind_eq_ok.1 h
      cases h
      obtain ⟨aggs, rfl, rfl⟩ := exact_readAggregate.list.written haggs
      exact ⟨.aggregate aggs, rfl, rfl, closed_nil.mpr rfl⟩
    · cases h
  · rintro ⟨w, rfl, rfl, hcode⟩
    cases w with
    | filter words =>
        rw [StageWord.head, readStage, readProgram_closed_iff.mpr ⟨words, rfl, hcode⟩]
        rfl
    | project words =>
        rw [StageWord.head, readStage, readProgram_closed_iff.mpr ⟨words, rfl, hcode⟩]
        rfl
    | groupBy columns aggs =>
        obtain rfl := closed_nil.mp hcode
        rw [StageWord.head, StageWord.content, List.append_assoc, readStage,
          exact_readNat.list.reads]
        simp only [Bind.bind, Except.bind, exact_readAggregate.list.reads]
        rfl
    | aggregate aggs =>
        obtain rfl := closed_nil.mp hcode
        rw [StageWord.head, StageWord.content, readStage, exact_readAggregate.list.reads]
        rfl

/-! ## Pipelines -/

theorem readStages_append (code : Bytes) : ∀ words : List StageWord,
    readStages (words.flatMap StageWord.bytes ++ code) =
      (words.map StageWord.stage ++ (readStages code).1, (readStages code).2)
  | [] => rfl
  | w :: words => by
      have hread : readStage w.head
          (w.content ++ (w.closing ++ (words.flatMap StageWord.bytes ++ code))) =
            .ok (w.stage, words.flatMap StageWord.bytes ++ code) :=
        readStage_eq_ok_iff.mpr ⟨w, rfl, rfl, Or.inl rfl⟩
      rw [List.flatMap_cons, StageWord.bytes, StageWord.body, List.append_assoc,
        List.append_assoc, List.cons_append, readStages_of_ok hread, readStages_append code words]
      rfl

/-- The end of the code closes the last stage too. -/
theorem readStages_body (w : StageWord) : readStages w.body = ([w.stage], none) := by
  have hread : readStage w.head w.content = .ok (w.stage, []) :=
    readStage_eq_ok_iff.mpr ⟨w, rfl, rfl, Or.inr ⟨rfl, rfl⟩⟩
  rw [StageWord.body, readStages_of_ok hread, readStages_nil]

/-- A code that the stages spell out, one behind the other; the last one may be
closed by the end of the code. -/
def SpellsStages (stages : List StageWord) (code : Bytes) : Prop :=
  code = stages.flatMap StageWord.bytes ∨
    ∃ front last, stages = front ++ [last] ∧
      code = front.flatMap StageWord.bytes ++ last.body

/-- Bytes that do not begin with a stage. -/
def Broken (bad : Bytes) : Prop :=
  bad ≠ [] ∧ ∀ w : StageWord, ¬ w.bytes <+: bad ∧ bad ≠ w.body

theorem broken_of_error {opcode : UInt8} {code : Bytes} {e : Fault}
    (h : readStage opcode code = .error e) : Broken (opcode :: code) := by
  have hno : ∀ r, readStage opcode code ≠ .ok r := by
    intro r hr
    rw [h] at hr
    cases hr
  refine ⟨nofun, fun w => ⟨?_, ?_⟩⟩
  · rintro ⟨rest, hcode⟩
    obtain ⟨hhead, htail⟩ := List.cons.inj hcode
    refine hno (w.stage, rest) (readStage_eq_ok_iff.mpr ⟨w, rfl, hhead, Or.inl ?_⟩)
    exact htail.symm.trans (List.append_assoc ..)
  · intro hcode
    obtain ⟨hhead, htail⟩ := List.cons.inj hcode
    exact hno (w.stage, []) (readStage_eq_ok_iff.mpr ⟨w, rfl, hhead.symm, Or.inr ⟨htail, rfl⟩⟩)

theorem SpellsStages.cons {stages : List StageWord} {code : Bytes} (w : StageWord)
    (h : SpellsStages stages code) : SpellsStages (w :: stages) (w.bytes ++ code) := by
  rcases h with rfl | ⟨front, last, rfl, rfl⟩
  · exact Or.inl rfl
  · exact Or.inr ⟨w :: front, last, rfl, (List.append_assoc ..).symm⟩

theorem exists_spellsStages {code : Bytes} (h : (readStages code).2 = none) :
    ∃ stages, SpellsStages stages code := by
  fun_induction readStages code with
  | case1 => exact ⟨[], Or.inl rfl⟩
  | case2 => cases h
  | case3 opcode rest s rest' hs stages fault hrest ih =>
      rw [hrest] at ih
      obtain ⟨w, -, rfl, rfl | ⟨rfl, rfl⟩⟩ := readStage_eq_ok_iff.mp hs
      · obtain ⟨stages, hspells⟩ := ih h
        refine ⟨w :: stages, ?_⟩
        rw [← List.append_assoc]
        exact hspells.cons w
      · exact ⟨[w], Or.inr ⟨[], w, rfl, rfl⟩⟩

theorem exists_broken {code : Bytes} {e : Fault} (h : (readStages code).2 = some e) :
    ∃ (stages : List StageWord) (bad : Bytes), Broken bad ∧
      code = stages.flatMap StageWord.bytes ++ bad ∧
      (readStages code).1 = stages.map StageWord.stage := by
  fun_induction readStages code with
  | case1 => cases h
  | case2 opcode rest e' herror => exact ⟨[], opcode :: rest, broken_of_error herror, rfl, rfl⟩
  | case3 opcode rest s rest' hs stages fault hrest ih =>
      rw [hrest] at ih
      obtain ⟨w, rfl, rfl, rfl | ⟨-, rfl⟩⟩ := readStage_eq_ok_iff.mp hs
      · obtain ⟨words, bad, hbad, rfl, hstages⟩ := ih h
        refine ⟨w :: words, bad, hbad, ?_, ?_⟩
        · rw [List.flatMap_cons, List.append_assoc, ← List.append_assoc w.content]
          rfl
        · rw [List.map_cons]
          exact congrArg (w.stage :: ·) hstages
      · -- nothing is left behind a stage that the end of the code closes
        rw [readStages_nil] at hrest
        cases hrest
        cases h

end Code

/-! ## Rigs -/

namespace Rig

open Code

variable [KeyMap]

theorem decode_append (rig : Rig) (stages : List StageWord) (code : Bytes) :
    rig.decode (stages.flatMap StageWord.bytes ++ code) =
      ((match (readStages code).2 with
        | none => .ok (stages.flatMap StageWord.bytes ++ code).length
        | some e => .error e),
        ofPlan (.ofStages (stages.map StageWord.stage ++ (readStages code).1))) := by
  have hdecode := rig.decode_eq (stages.flatMap StageWord.bytes ++ code)
  rw [Pipeline.decode, readStages_append] at hdecode
  exact hdecode

theorem decode_stages (rig : Rig) (stages : List StageWord) :
    rig.decode (stages.flatMap StageWord.bytes) =
      (.ok (stages.flatMap StageWord.bytes).length,
        ofPlan (.ofStages (stages.map StageWord.stage))) := by
  have hdecode := rig.decode_append stages []
  rwa [readStages_nil, List.append_nil, List.append_nil] at hdecode

/-- Stages written one behind the other are set up in their order, none having
seen a row, and all bytes are counted; the end of the code may close the last
one. Whatever the code is, a count that comes out is that of all its bytes, and
they are stages. A fault means that the code is stages and then bytes that do
not begin with one, and that the rig holds what these stages alone set up, in
whatever rig they are decoded. -/
theorem decode_spells (rig : Rig) :
    (∀ stages : List StageWord,
      rig.decode (stages.flatMap StageWord.bytes) =
        (.ok (stages.flatMap StageWord.bytes).length,
          ofPlan (.ofStages (stages.map StageWord.stage)))) ∧
    (∀ (stages : List StageWord) (last : StageWord),
      rig.decode (stages.flatMap StageWord.bytes ++ last.body) =
        (.ok (stages.flatMap StageWord.bytes ++ last.body).length,
          ofPlan (.ofStages (stages.map StageWord.stage ++ [last.stage])))) ∧
    ∀ code : Bytes,
      match (rig.decode code).1 with
      | .ok n => n = code.length ∧ ∃ stages, SpellsStages stages code
      | .error _ =>
        ∃ (stages : List StageWord) (bad : Bytes), Broken bad ∧
          code = stages.flatMap StageWord.bytes ++ bad ∧
          ∀ other : Rig, other.decode (stages.flatMap StageWord.bytes) =
            (.ok (stages.flatMap StageWord.bytes).length, (rig.decode code).2) := by
  refine ⟨rig.decode_stages, fun stages last => ?_, fun code => ?_⟩
  · rw [decode_append, readStages_body]
  · rw [decode_eq, Pipeline.decode]
    dsimp only
    cases hfault : (readStages code).2 with
    | none => exact ⟨rfl, exists_spellsStages hfault⟩
    | some e =>
        obtain ⟨stages, bad, hbad, hcode, hstages⟩ := exists_broken hfault
        refine ⟨stages, bad, hbad, hcode, fun other => ?_⟩
        rw [decode_stages, hstages]

end Rig

end RowCode
