import RowCode.Pipeline.Session
import RowCode.Proofs.Hash.Table
import RowCode.Proofs.Pipeline.Ledger

/-!
# Pipelines as functions on lists

What comes out of a pipeline when a list of rows is put in and the pipeline is
then drained, told without any calls: `Stage.batch` gives the rows of one stage
from the list of its input, and a pipeline is the composition of its stages
(`outputs_decode`). Calls that fail are passed over, so rows on which a stage
fails are missing from its output and from that of all stages behind it.

Filters and projections keep nothing, and there is little to show for them.
A grouped aggregation has one group for each value of the key, as long as no two
of its keys are apart (`Stage.Clear`). Then a row goes where the value of its
key leads (`walk`), and the invariant is in `foldl_kept_cons`: while rows are
fed, the oldest group has folded the rows of its key, and the groups behind it
are as if only the remaining rows had been fed. `Stage.groups` is the recursion
that this suggests.
-/

namespace RowCode

/-! ## Stages on lists -/

/-- Whether the result on a row is true. -/
def Program.accepts (p : Program) (row : Row) : Bool :=
  match p.eval row with
  | .ok (some (.bool b)) => b
  | _ => false

namespace Stage

/-- Whether a row has a key, and the key is of the value of `key`. -/
def belongs (columns : List Nat) (key row : Row) : Bool :=
  match groupKey columns row with
  | .ok k => key.compare k == .eq
  | .error _ => false

/-- The rows without those that belong to the group of `key`. -/
def others (columns : List Nat) (key : Row) (rows : List Row) : List Row :=
  rows.filter fun row => !belongs columns key row

theorem length_others (columns : List Nat) (key : Row) (rows : List Row) :
    (others columns key rows).length ≤ rows.length :=
  List.length_filter_le _ _

/-- The rows of a list group by group, with their keys. The first row that can
be folded on its own opens a group, which takes all later rows that belong to
it; the others are grouped in the same way. -/
def groups (columns : List Nat) (aggs : List Aggregate) : List Row → List (Row × List Row)
  | [] => []
  | row :: rows =>
    match groupKey columns row, Aggregate.addAll aggs (Aggregate.initials aggs) row with
    | .ok key, .ok _ =>
      (key, row :: rows.filter (belongs columns key)) ::
        groups columns aggs (others columns key rows)
    | _, _ => groups columns aggs rows
termination_by rows => rows.length
decreasing_by
  · exact Nat.lt_succ_of_le (length_others columns key rows)
  · exact Nat.lt_succ_self _

/-- What a stage makes of a list of rows, those left out on which it fails. -/
def batch : Stage → List Row → List Row
  | filter p, rows => rows.filter p.accepts
  | project p, rows => rows.filterMap fun row => (p.evalAll row).toOption
  | aggregate aggs, rows => (Aggregate.total aggs rows).toList
  | groupBy columns aggs, rows =>
    (groups columns aggs rows).reverse.flatMap fun (key, rows) =>
      (Aggregate.total aggs rows).toList.map (key ++ ·)

/-- The keys of the rows of a list, of those rows that have one. -/
def keys (columns : List Nat) (rows : List Row) : List Row :=
  rows.filterMap fun row => (groupKey columns row).toOption

theorem keys_cons (columns : List Nat) (row : Row) (rows : List Row) :
    keys columns (row :: rows) = Call.keys columns [.put row] ++ keys columns rows :=
  List.filterMap_append (l := [row])

/-- No two keys that a stage is given with the rows are apart. -/
def Clear : Stage → List Row → Prop
  | groupBy columns _, rows => RowCode.Clear (keys columns rows)
  | _, _ => True

/-- The same of every stage of a pipeline, with the rows that it is given. -/
def AllClear : List Stage → List Row → Prop
  | [], _ => True
  | s :: stages, rows => s.Clear rows ∧ AllClear stages (s.batch rows)

end Stage

/-! ## Slots by value -/

/-- Folds a row into the first group whose key is of the value, or into a new
group behind all others. -/
def walk (aggs : List Aggregate) (key row : Row) : List Group → Except Fault (List Group)
  | [] => do
    let accs ← Aggregate.addAll aggs (Aggregate.initials aggs) row
    .ok [⟨key, accs⟩]
  | g :: slots =>
    if g.key.compare key = .eq then do
      let accs ← Aggregate.addAll aggs g.accs row
      .ok (⟨g.key, accs⟩ :: slots)
    else do
      let slots ← walk aggs key row slots
      .ok (g :: slots)

/-- The slots after one more row, which are those before if the row fails. -/
def kept (columns : List Nat) (aggs : List Aggregate) (slots : List Group) (row : Row) :
    List Group :=
  match Stage.groupKey columns row with
  | .ok key => (walk aggs key row slots).toOption.getD slots
  | .error _ => slots

section

variable {columns : List Nat} {aggs : List Aggregate} {key row : Row}

theorem walk_of_none : ∀ {slots : List Group}, (∀ g ∈ slots, g.key.compare key ≠ .eq) →
    walk aggs key row slots = (Aggregate.addAll aggs (Aggregate.initials aggs) row).map fun accs =>
      slots ++ [⟨key, accs⟩]
  | [], _ => by
      rw [walk]
      cases Aggregate.addAll aggs (Aggregate.initials aggs) row <;> rfl
  | g :: slots, h => by
      obtain ⟨hfirst, hrest⟩ := List.forall_mem_cons.mp h
      rw [walk, if_neg hfirst, walk_of_none hrest]
      cases Aggregate.addAll aggs (Aggregate.initials aggs) row <;> rfl

theorem walk_of_first : ∀ {slots : List Group} {slot : Nat} {g : Group}, slots[slot]? = some g →
    g.key.compare key = .eq →
    (∀ older < slot, ∀ g ∈ slots[older]?, g.key.compare key ≠ .eq) →
    walk aggs key row slots = (Aggregate.addAll aggs g.accs row).map fun accs =>
      slots.set slot ⟨g.key, accs⟩
  | g :: slots, 0, _, rfl, hvalue, _ => by
      rw [walk, if_pos hvalue]
      cases Aggregate.addAll aggs g.accs row <;> rfl
  | g' :: slots, slot + 1, g, hslot, hvalue, holder => by
      have hfirst := holder 0 (Nat.succ_pos slot) g' rfl
      have hrest : walk aggs key row slots = _ := walk_of_first hslot hvalue fun i hi =>
        holder (i + 1) (Nat.succ_lt_succ hi)
      rw [walk, if_neg hfirst, hrest]
      cases Aggregate.addAll aggs g.accs row <;> rfl

variable [KeyMap] [LawfulKeyMap] {groups : Groups}

/-- Where no keys are apart, the index leads to the group that a walk through
the slots comes to. -/
theorem Groups.fold_eq_walk (h : groups.Tidy) (hclear : groups.Clears key) :
    (groups.fold aggs key row).map Groups.slots = walk aggs key row groups.slots := by
  have hget := h.get?_eq hclear
  rw [keys, List.findIdx?_map] at hget
  cases hfind : groups.slots.findIdx? _ with
  | none =>
      rw [hfind] at hget
      rw [fold_of_none hget, walk_of_none]
      · cases Aggregate.addAll aggs (Aggregate.initials aggs) row <;> rfl
      · intro g hg
        simpa using List.findIdx?_eq_none_iff.mp hfind g hg
  | some slot =>
      rw [hfind] at hget
      obtain ⟨hlt, hvalue, holder⟩ := List.findIdx?_eq_some_iff_getElem.mp hfind
      have hslot : groups.slots[slot]? = some groups.slots[slot] := List.getElem?_eq_getElem hlt
      rw [fold_of_some hget hslot, walk_of_first hslot (beq_iff_eq.mp hvalue)]
      · cases Aggregate.addAll aggs groups.slots[slot].accs row <;> rfl
      · intro i hi g hg
        obtain ⟨hlt', rfl⟩ := List.getElem?_eq_some_iff.mp hg
        simpa using holder i hi

end

namespace Plan

/-! ## Stages that keep nothing -/

theorem outputs_filter [KeyMap] (p : Program) (rows : List Row) :
    (stage (.filter p)).outputs rows () = rows.filter p.accepts := by
  rw [outputs, exhaust_of_none rfl, List.append_nil]
  induction rows with
  | nil => rfl
  | cons row rows ih =>
      have hput : given ((stage (.filter p)).put row ()).1 =
          if p.accepts row then [row] else [] := by
        rw [put, Stage.put, Program.accepts]
        rcases p.eval row with e | _ | v
        · rfl
        · rfl
        · cases v with
          | bool b => cases b <;> rfl
          | _ => rfl
      rw [feed, List.filter_cons]
      simp only [ih, hput]
      cases p.accepts row <;> rfl

theorem outputs_project [KeyMap] (p : Program) (rows : List Row) :
    (stage (.project p)).outputs rows () =
      rows.filterMap fun row => (p.evalAll row).toOption := by
  rw [outputs, exhaust_of_none rfl, List.append_nil]
  induction rows with
  | nil => rfl
  | cons row rows ih =>
      have hput : given ((stage (.project p)).put row ()).1 = (p.evalAll row).toOption.toList := by
        rw [put, Stage.put]
        cases p.evalAll row <;> rfl
      rw [feed, List.filterMap_cons]
      simp only [ih, hput]
      cases p.evalAll row <;> rfl

/-! ## Stages that fold -/

theorem outputs_aggregate [KeyMap] (aggs : List Aggregate) (rows : List Row) :
    (stage (.aggregate aggs)).outputs rows none = (Aggregate.total aggs rows).toList := by
  rw [outputs, feed_aggregate, List.nil_append, ← Aggregate.total]
  cases Aggregate.total aggs rows with
  | none => exact exhaust_of_none rfl
  | some accs => rw [exhaust_of_row rfl, exhaust_of_none rfl]; rfl

section

variable {columns : List Nat} {aggs : List Aggregate}

/-- A row goes to the oldest group if it belongs there, and to the groups
behind otherwise. -/
theorem kept_cons {key : Row} {rows : List Row} (h : (Aggregate.total aggs rows).isSome)
    (slots : List Group) (row : Row) :
    kept columns aggs (Entry.group aggs ⟨key, rows⟩ :: slots) row =
      if Stage.belongs columns key row then Entry.group aggs ⟨key, rows ++ [row]⟩ :: slots
      else Entry.group aggs ⟨key, rows⟩ :: kept columns aggs slots row := by
  obtain ⟨accs, haccs⟩ := Option.isSome_iff_exists.mp h
  rw [kept, kept, Stage.belongs]
  cases Stage.groupKey columns row with
  | error e => rfl
  | ok k =>
      have hkey : (Entry.group aggs ⟨key, rows⟩).key = key := rfl
      dsimp only
      rw [walk, hkey]
      by_cases hvalue : key.compare k = .eq
      · rw [if_pos hvalue, if_pos (beq_iff_eq.mpr hvalue)]
        simp only [Entry.group, Aggregate.total_concat, Aggregate.advance, haccs,
          Option.getD_some]
        cases Aggregate.addAll aggs accs row <;> rfl
      · rw [if_neg hvalue, if_neg (mt beq_iff_eq.mp hvalue)]
        cases walk aggs k row slots <;> rfl

/-- The oldest group takes the rows that belong to it, and the groups behind
are as if only the others had been fed. -/
theorem foldl_kept_cons {key : Row} : ∀ (rows : List Row) {seen : List Row}
    (slots : List Group), (Aggregate.total aggs seen).isSome →
    rows.foldl (kept columns aggs) (Entry.group aggs ⟨key, seen⟩ :: slots) =
      Entry.group aggs ⟨key, seen ++ rows.filter (Stage.belongs columns key)⟩ ::
        (Stage.others columns key rows).foldl (kept columns aggs) slots
  | [], seen, slots, _ => by
      rw [List.filter_nil, List.append_nil]
      rfl
  | row :: rows, seen, slots, h => by
      rw [List.foldl_cons, kept_cons h]
      cases hrow : Stage.belongs columns key row with
      | true =>
          rw [if_pos rfl, foldl_kept_cons rows _ (Aggregate.isSome_total_concat h row)]
          simp [Stage.others, hrow]
      | false =>
          rw [if_neg Bool.false_ne_true, foldl_kept_cons rows _ h]
          simp [Stage.others, hrow]

theorem foldl_kept (rows : List Row) :
    rows.foldl (kept columns aggs) [] =
      (Stage.groups columns aggs rows).map fun (key, rows) => Entry.group aggs ⟨key, rows⟩ := by
  fun_induction Stage.groups columns aggs rows with
  | case1 => rfl
  | case2 row rows key accs hadd hkey ih =>
      have hkept : kept columns aggs [] row = [Entry.group aggs ⟨key, [row]⟩] := by
        rw [kept, hkey, Ledger.group_singleton key hadd]
        dsimp only
        rw [walk, hadd]
        rfl
      have htotal : (Aggregate.total aggs [row]).isSome := by
        simp [Aggregate.total, Aggregate.advance, hadd]
      rw [List.foldl_cons, hkept, foldl_kept_cons rows [] htotal, ih]
      rfl
  | case3 row rows hnone ih =>
      have hkept : kept columns aggs [] row = [] := by
        rw [kept]
        rcases hkey : Stage.groupKey columns row with e | key
        · rfl
        · rcases hadd : Aggregate.addAll aggs (Aggregate.initials aggs) row with e | accs
          · dsimp only
            rw [walk, hadd]
            rfl
          · exact absurd hadd (hnone key accs hkey)
      rw [List.foldl_cons, hkept, ih]

theorem isSome_total_of_mem_groups (rows : List Row) :
    ∀ g ∈ Stage.groups columns aggs rows, (Aggregate.total aggs g.2).isSome := by
  fun_induction Stage.groups columns aggs rows with
  | case1 => nofun
  | case2 row rows key accs hadd hkey ih =>
      have htotal : (Aggregate.total aggs [row]).isSome := by
        simp [Aggregate.total, Aggregate.advance, hadd]
      intro g hg
      rcases List.mem_cons.mp hg with rfl | hg
      · exact Aggregate.isSome_total_append htotal _
      · exact ih g hg
  | case3 row rows hnone ih => exact ih

variable [KeyMap]

theorem given_put_groupBy (row : Row) (groups : Groups) :
    given ((stage (.groupBy columns aggs)).put row groups).1 = [] := by
  rw [Groups.put_groupBy]
  split
  · rfl
  · split <;> rfl

theorem given_feed_groupBy : ∀ (rows : List Row) (groups : Groups),
    ((stage (.groupBy columns aggs)).feed rows groups).1 = []
  | [], _ => rfl
  | row :: rows, groups => by
      rw [feed]
      simp only [given_put_groupBy, given_feed_groupBy rows, List.nil_append]

/-- What becomes of the slots when a row is put in, and of the row. -/
theorem put_walk [LawfulKeyMap] (aggs : List Aggregate) {row : Row} {groups : Groups}
    (h : groups.Tidy) (hclear : ∀ key ∈ Call.keys columns [.put row], groups.Clears key) :
    Prod.map id Groups.slots ((stage (.groupBy columns aggs)).put row groups) =
      match Stage.groupKey columns row with
      | .error e => (.error e, groups.slots)
      | .ok key =>
        match walk aggs key row groups.slots with
        | .error e => (.error e, groups.slots)
        | .ok slots => (.ok none, slots) := by
  rw [Groups.put_groupBy]
  cases hkey : Stage.groupKey columns row with
  | error e => rfl
  | ok key =>
      dsimp only
      rw [← Groups.fold_eq_walk h (hclear key (Call.mem_keys_put hkey))]
      cases groups.fold aggs key row <;> rfl

theorem put_kept [LawfulKeyMap] {row : Row} {groups : Groups} (h : groups.Tidy)
    (hclear : ∀ key ∈ Call.keys columns [.put row], groups.Clears key) :
    ((stage (.groupBy columns aggs)).put row groups).2.slots =
      kept columns aggs groups.slots row := by
  refine (congrArg Prod.snd (put_walk aggs h hclear)).trans ?_
  rw [kept]
  cases Stage.groupKey columns row with
  | error e => rfl
  | ok key =>
      dsimp only
      cases walk aggs key row groups.slots <;> rfl

theorem feed_groupBy [LawfulKeyMap] {all : List Row} (hclear : Clear all) :
    ∀ {rows : List Row} {groups : Groups}, groups.Among all → Stage.keys columns rows ⊆ all →
      ((stage (.groupBy columns aggs)).feed rows groups).2.slots =
        rows.foldl (kept columns aggs) groups.slots
  | [], _, _, _ => rfl
  | row :: rows, groups, h, hall => by
      rw [Stage.keys_cons, List.append_subset] at hall
      rw [List.foldl_cons, ← put_kept (h.tidy hclear) fun key hkey => h.clears hclear (hall.1 hkey)]
      exact feed_groupBy hclear (h.call hclear.truthful hall.1) hall.2

/-- The newest group comes out first. -/
theorem exhaust_groupBy : ∀ (newest : List Group) {groups : Groups},
    groups.slots = newest.reverse →
    (stage (.groupBy columns aggs)).exhaust groups = newest.map Group.row
  | [], groups, h => by
      have hget := Groups.get_groupBy columns aggs groups
      rw [Groups.pop_eq_none_iff.mpr h] at hget
      exact exhaust_of_none hget
  | g :: older, groups, h => by
      have hget := Groups.get_groupBy columns aggs groups
      obtain ⟨index, slots⟩ := groups
      obtain rfl : slots = (g :: older).reverse := h
      rw [List.reverse_cons, Groups.pop_concat] at hget
      rw [List.reverse_cons, exhaust_of_row hget, exhaust_groupBy older rfl, List.map_cons]

end

theorem outputs_groupBy [KeyMap] [LawfulKeyMap] (columns : List Nat) (aggs : List Aggregate)
    {rows : List Row} (h : (Stage.groupBy columns aggs).Clear rows) :
    (stage (.groupBy columns aggs)).outputs rows Groups.empty =
      (Stage.groupBy columns aggs).batch rows := by
  have hslots : ((stage (.groupBy columns aggs)).feed rows Groups.empty).2.slots = _ :=
    feed_groupBy h .empty (List.Subset.refl _)
  have hrow : ∀ g ∈ (Stage.groups columns aggs rows).reverse,
      [(Entry.group aggs ⟨g.1, g.2⟩).row] =
        (Aggregate.total aggs g.2).toList.map (g.1 ++ ·) := by
    intro g hg
    obtain ⟨accs, haccs⟩ := Option.isSome_iff_exists.mp
      (isSome_total_of_mem_groups rows g (List.mem_reverse.mp hg))
    simp [Group.row, Entry.group, haccs]
  have hnewest := hslots.trans ((foldl_kept rows).trans (List.reverse_reverse _).symm)
  rw [outputs, given_feed_groupBy, List.nil_append, exhaust_groupBy _ hnewest, ← List.map_reverse,
    List.map_map, Stage.batch, List.map_eq_flatMap, List.flatMap_def, List.flatMap_def]
  exact congrArg List.flatten (List.map_congr_left hrow)

variable [KeyMap]

theorem outputs_stage [LawfulKeyMap] {rows : List Row} : ∀ s : Stage, s.Clear rows →
    (stage s).outputs rows s.empty = s.batch rows
  | .filter p, _ => outputs_filter p rows
  | .project p, _ => outputs_project p rows
  | .aggregate aggs, _ => outputs_aggregate aggs rows
  | .groupBy columns aggs, h => outputs_groupBy columns aggs h

/-! ## Pipelines -/

theorem outputs_identity : ∀ rows : List Row, identity.outputs rows () = rows
  | [] => exhaust_of_none rfl
  | row :: rows => by
      have ih := outputs_identity rows
      rw [outputs] at ih ⊢
      simp only [feed, put, given, List.cons_append, List.nil_append, ih]

theorem outputs_append (s : Stage) (rows : List Row) : ∀ p : Plan,
    (p.append s).outputs rows (p.append s).empty =
      (stage s).outputs (p.outputs rows p.empty) s.empty
  | identity => by
      rw [empty, outputs_identity]
      rfl
  | stage s' => outputs_tandem _ _ _ _ _
  | tandem front back => outputs_tandem _ _ _ _ _

theorem outputs_foldl (rows : List Row) : ∀ (stages : List Stage) (p : Plan),
    (stages.foldl append p).outputs rows (stages.foldl append p).empty =
      stages.foldl (fun rows s => (stage s).outputs rows s.empty) (p.outputs rows p.empty)
  | [], _ => rfl
  | s :: stages, p => by
      rw [List.foldl_cons, List.foldl_cons, outputs_foldl rows stages, outputs_append]

theorem foldl_outputs_stage [LawfulKeyMap] : ∀ {stages : List Stage} {rows : List Row},
    Stage.AllClear stages rows →
    stages.foldl (fun rows s => (stage s).outputs rows s.empty) rows =
      stages.foldl (fun rows s => s.batch rows) rows
  | [], _, _ => rfl
  | s :: stages, rows, h => by
      rw [List.foldl_cons, List.foldl_cons, outputs_stage s h.1, foldl_outputs_stage h.2]

end Plan

/-- A decoded pipeline makes of the rows that are put in what its stages make
of them, one after the other, whatever the stages keep in between and whichever
calls fail. What a stage makes of its rows is a function of lists, as long as no
two keys that it is given are apart: then a grouped aggregation has one group
for each value of the key. -/
theorem Plan.outputs_decode [KeyMap] [LawfulKeyMap] (code : Bytes) (rows : List Row) :
    let stages := (Code.readStages code).1
    let pipeline := (Pipeline.decode code).2
    let outputs := pipeline.plan.outputs rows pipeline.memory
    outputs = stages.foldl (fun rows s => (stage s).outputs rows s.empty) rows ∧
      (∀ (s : Stage) (rows : List Row), s.Clear rows →
        (stage s).outputs rows s.empty = s.batch rows) ∧
      (Stage.AllClear stages rows → outputs = stages.foldl (fun rows s => s.batch rows) rows) := by
  intro stages pipeline outputs
  have h : outputs = _ := outputs_foldl rows stages identity
  rw [empty, outputs_identity] at h
  exact ⟨h, fun s _ => outputs_stage s, fun hclear => h.trans (foldl_outputs_stage hclear)⟩

/-- The groups of three rows are counted. -/
theorem Plan.outputs_decode_count :
    let code : Bytes := [0x73, 0x01, 0x00, 0x01, 0x10, 0x74, 0x01, 0x10]
    let rows : List Row := [[some (.int32 1)], [some (.int32 2)], [some (.int32 1)]]
    let pipeline := (Pipeline.decode code).2
    Stage.AllClear (Code.readStages code).1 rows ∧
      pipeline.plan.outputs rows pipeline.memory = [[some (.int64 2)]] := by
  intro code rows pipeline
  have hstages : (Code.readStages code).1 = [.groupBy [0] [.countAll], .aggregate [.countAll]] := by
    decide +kernel
  have hclear : Stage.AllClear (Code.readStages code).1 rows := by
    rw [hstages]
    simp [rows, Stage.AllClear, Stage.Clear, Stage.keys, Clear, Row.Apart, Operand.Apart,
      Scalar.Apart, Stage.groupKey, Except.toOption]
  obtain ⟨-, -, hbatch⟩ := Plan.outputs_decode code rows
  refine ⟨hclear, (hbatch hclear).trans ?_⟩
  decide +kernel

/-- Two rows of one decimal, the second written with ten zeros after the point,
come out of two groups, where by value there is one. -/
theorem Plan.outputs_apart :
    let d : Decimal := ⟨7922816251533193472, 0⟩
    let d' : Decimal := ⟨79228162515331934720000000000, 10⟩
    let code : Bytes := [0x73, 0x01, 0x00, 0x01, 0x10]
    let rows : List Row := [[some (.decimal d)], [some (.decimal d')]]
    let pipeline := (Pipeline.decode code).2
    d.compare d' = .eq ∧
      (Code.readStages code).1.foldl (fun rows s => s.batch rows) rows =
        [[some (.decimal d), some (.int64 2)]] ∧
      pipeline.plan.outputs rows pipeline.memory =
        [[some (.decimal d'), some (.int64 1)], [some (.decimal d), some (.int64 1)]] := by
  decide +kernel

end RowCode
