import RowCode.Proofs.Hash.Table
import RowCode.Proofs.Pipeline.Ledger

/-!
# Grouped aggregation under any calls

What a grouped aggregation does over a whole sequence of calls, in terms of its
ledger. `run_ledger` says that what the stage does is a run of the ledger, as
long as the keys that it meets are truthful. The rest of the module is about
such runs, whichever of several entries a row has gone to:

- `Sound`: the key of an entry is the one of its first row and holds the keys
  of all its rows, no row was noted that would have failed, and no entry holds
  the key of a younger one;
- `accepted_perm`: each row that was accepted is in exactly one entry, closed
  or live, and no other row is.
-/

namespace RowCode

/-! ## Entries -/

namespace Entry

theorem holds_self (e : Entry) : e.holds e.key = true :=
  e.key.same_self

/-- What the rows of an entry have to do with its key and its accumulators. -/
structure Sound (columns : List Nat) (aggs : List Aggregate) (e : Entry) : Prop where
  first : ∃ row rows, e.rows = row :: rows ∧ Stage.groupKey columns row = .ok e.key
  keys : ∀ row ∈ e.rows, ∃ key, Stage.groupKey columns row = .ok key ∧ e.holds key = true
  folded : (Aggregate.total aggs e.rows).isSome

variable {columns : List Nat} {aggs : List Aggregate} {row : Row}

/-- The first row of a new entry. -/
theorem sound_singleton (hcolumns : ∀ i ∈ columns, i < row.length)
    (htaken : (Aggregate.total aggs [row]).isSome) :
    Sound columns aggs ⟨Ledger.keyOf columns row, [row]⟩ where
  first := ⟨row, [], rfl, Ledger.groupKey_of_columns hcolumns⟩
  keys := by
    intro row' hrow'
    rw [List.mem_singleton.mp hrow']
    exact ⟨_, Ledger.groupKey_of_columns hcolumns, holds_self _⟩
  folded := htaken

/-- One more row of an entry that holds its key. -/
theorem Sound.note {e : Entry} (h : e.Sound columns aggs) (hcolumns : ∀ i ∈ columns, i < row.length)
    (hheld : e.holds (Ledger.keyOf columns row) = true) : (e.note row).Sound columns aggs where
  first := by
    obtain ⟨row', rows, hrows, hfirst⟩ := h.first
    exact ⟨row', rows ++ [row], by rw [Entry.note, hrows, List.cons_append], hfirst⟩
  keys := by
    intro row' hrow'
    rcases List.mem_append.mp hrow' with hold | hnew
    · exact h.keys row' hold
    · rw [List.mem_singleton.mp hnew]
      exact ⟨_, Ledger.groupKey_of_columns hcolumns, hheld⟩
  folded := Aggregate.isSome_total_concat h.folded row

end Entry

namespace Ledger

/-! ## Ledgers -/

/-- Every entry is sound, and no entry holds the key of a younger one. -/
structure Sound (columns : List Nat) (aggs : List Aggregate) (book : Ledger) : Prop where
  entries : ∀ e ∈ book, e.Sound columns aggs
  distinct : book.Pairwise fun e younger => e.holds younger.key = false

variable {columns : List Nat} {aggs : List Aggregate} {book book' : Ledger}

theorem Sound.nil : Sound columns aggs [] where
  entries := nofun
  distinct := .nil

theorem Sound.notes {row : Row} {history : List Row} (h : Sound columns aggs book)
    (hcolumns : ∀ i ∈ columns, i < row.length)
    (hnotes : Notes (keyOf columns row) row book history book')
    (htaken : (Aggregate.total aggs (history ++ [row])).isSome) : Sound columns aggs book' := by
  cases hnotes with
  | opens hnone =>
      refine ⟨?_, List.pairwise_append.mpr ⟨h.distinct, List.pairwise_singleton _ _, ?_⟩⟩
      · intro e he
        rcases List.mem_append.mp he with hold | hnew
        · exact h.entries e hold
        · rw [List.mem_singleton.mp hnew]
          exact Entry.sound_singleton hcolumns htaken
      · intro e he e' he'
        rw [List.mem_singleton.mp he']
        exact hnone e he
  | @joins older newer e hheld =>
      have hentry := (h.entries e (by simp)).note hcolumns hheld
      constructor
      · intro e' he'
        rcases List.mem_append.mp he' with hold | hrest
        · exact h.entries e' (List.mem_append_left _ hold)
        · rcases List.mem_cons.mp hrest with rfl | hnew
          · exact hentry
          · exact h.entries e' (List.mem_append_right _ (List.mem_cons_of_mem _ hnew))
      · -- holding and being held depend on the keys alone, which are as before
        obtain ⟨holder, hrest, hacross⟩ := List.pairwise_append.mp h.distinct
        obtain ⟨hyounger, hnewer⟩ := List.pairwise_cons.mp hrest
        refine List.pairwise_append.mpr ⟨holder, List.pairwise_cons.mpr ⟨hyounger, hnewer⟩, ?_⟩
        intro e₁ h₁ e₂ h₂
        rcases List.mem_cons.mp h₂ with rfl | h₂
        · exact hacross e₁ h₁ e List.mem_cons_self
        · exact hacross e₁ h₁ e₂ (List.mem_cons_of_mem _ h₂)

/-- A row is noted beside the rows of all entries. -/
theorem Notes.perm {key row : Row} {history : List Row} (h : Notes key row book history book') :
    (book'.flatMap Entry.rows).Perm (row :: book.flatMap Entry.rows) := by
  cases h with
  | opens _ =>
      rw [List.flatMap_append]
      exact List.perm_append_singleton _ _
  | @joins older newer e _ =>
      simp only [Entry.note, List.flatMap_append, List.flatMap_cons, List.append_assoc,
        List.singleton_append]
      rw [← List.append_assoc, ← List.append_assoc (older.flatMap Entry.rows)]
      exact List.perm_middle

/-- The rows that were put in and did not fail. -/
def accepted : List Call → List Answer → List Row
  | .put row :: calls, .ok _ :: answers => row :: accepted calls answers
  | _ :: calls, _ :: answers => accepted calls answers
  | _, _ => []

theorem accepted_cons (c : Call) (calls : List Call) (answer : Answer) (answers : List Answer) :
    accepted (c :: calls) (answer :: answers) =
      accepted [c] [answer] ++ accepted calls answers := by
  cases c <;> cases answer <;> rfl

/-- Among clear keys a key falls into one entry at most. -/
theorem length_filter_holds_le {all : List Row} {key : Row} (hclear : Clear all)
    (hbook : ∀ e ∈ book, e.key ∈ all) (hkey : key ∈ all)
    (hdistinct : book.Pairwise fun e younger => e.holds younger.key = false) :
    (book.filter fun e => e.holds key).length ≤ 1 := by
  have hspread := hdistinct.filter fun e => e.holds key
  have hfound : ∀ e ∈ book.filter (fun e => e.holds key), e ∈ book ∧ e.key.compare key = .eq := by
    intro e he
    obtain ⟨hmem, hheld⟩ := List.mem_filter.mp he
    exact ⟨hmem, hclear.truthful _ (hbook e hmem) key hkey hheld⟩
  match hfilter : book.filter fun e => e.holds key with
  | [] => simp [hfilter]
  | [_] => simp [hfilter]
  | e :: e' :: rest =>
      rw [hfilter] at hspread hfound
      obtain ⟨hmem, hvalue⟩ := hfound e (by simp)
      obtain ⟨hmem', hvalue'⟩ := hfound e' (by simp)
      have hsame : e.key.same e'.key = true :=
        (Row.same_iff (hclear _ (hbook e hmem) _ (hbook e' hmem'))).mpr
          (Std.TransCmp.eq_trans hvalue (Std.OrientedCmp.eq_symm hvalue'))
      have hapart := (List.pairwise_cons.mp hspread).1 e' (by simp)
      rw [Entry.holds, hsame] at hapart
      cases hapart

variable [KeyMap]

/-- An aggregation that takes a row keeps something. -/
theorem isSome_total_of_put {rows : List Row} {row : Row}
    (h : ((Plan.stage (.aggregate aggs)).put row (alone aggs rows)).1 = .ok none) :
    (Aggregate.total aggs (rows ++ [row])).isSome := by
  rw [alone_eq_total, Plan.put_aggregate] at h
  rw [Aggregate.total_concat, Aggregate.advance]
  cases hadd : Aggregate.addAll aggs
    ((Aggregate.total aggs rows).getD (Aggregate.initials aggs)) row with
  | ok accs => rfl
  | error e =>
      rw [hadd] at h
      cases h

/-! ## One call -/

section

variable {c : Call} {answer : Answer} {closed : List Entry}

theorem Sound.step (h : Sound columns aggs book)
    (hstep : Step columns aggs book c answer closed book') :
    Sound columns aggs book' ∧ ∀ e ∈ closed, e.Sound columns aggs := by
  cases hstep with
  | keyless _ => exact ⟨h, nofun⟩
  | refused _ _ _ => exact ⟨h, nofun⟩
  | noted hcolumns hnotes hput =>
      exact ⟨h.notes hcolumns hnotes (isSome_total_of_put hput), nofun⟩
  | closes hget =>
      refine ⟨⟨fun e he => h.entries e (List.mem_append_left _ he),
        (List.pairwise_append.mp h.distinct).1⟩, fun e he => ?_⟩
      exact h.entries e (List.mem_append_right _ he)
  | dry => exact ⟨h, nofun⟩

/-- A row that comes out is that of the entry that is closed. -/
theorem given_step (hstep : Step columns aggs book c answer closed book') :
    Plan.given answer = closed.map fun e => (e.group aggs).row := by
  cases hstep with
  | @closes _ e accs hget =>
      rw [alone_eq_total] at hget
      have haccs : Aggregate.total aggs e.rows = some accs := Except.ok.inj hget
      simp [Plan.given, Group.row, Entry.group, haccs]
  | _ => rfl

theorem accepted_step (hstep : Step columns aggs book c answer closed book') :
    (accepted [c] [answer] ++ book.flatMap Entry.rows).Perm
      (closed.flatMap Entry.rows ++ book'.flatMap Entry.rows) := by
  cases hstep with
  | keyless _ => exact .refl _
  | refused _ _ _ => exact .refl _
  | noted _ hnotes _ => exact hnotes.perm.symm
  | closes _ =>
      simp only [accepted, List.nil_append, List.flatMap_append, List.flatMap_cons,
        List.flatMap_nil, List.append_nil]
      exact List.perm_append_comm
  | dry => exact .refl _

/-- An entry that is closed was live before. -/
theorem Step.closed_subset (hstep : Step columns aggs book c answer closed book') :
    closed ⊆ book := by
  cases hstep with
  | closes _ => exact List.subset_append_right _ _
  | _ => exact List.nil_subset _

end

/-! ## Sequences of calls -/

section

variable {calls : List Call} {answers : List Answer} {closed : List Entry}

theorem Runs.sound (hruns : Runs columns aggs book calls answers closed book')
    (h : Sound columns aggs book) :
    Sound columns aggs book' ∧ ∀ e ∈ closed, e.Sound columns aggs := by
  induction hruns with
  | nil => exact ⟨h, nofun⟩
  | cons hstep _ ih =>
      obtain ⟨hnext, hclosed⟩ := h.step hstep
      obtain ⟨hend, hlater⟩ := ih hnext
      exact ⟨hend, fun e he => (List.mem_append.mp he).elim (hclosed e) (hlater e)⟩

theorem Runs.given (hruns : Runs columns aggs book calls answers closed book') :
    answers.flatMap Plan.given = closed.map fun e => (e.group aggs).row := by
  induction hruns with
  | nil => rfl
  | cons hstep _ ih => rw [List.flatMap_cons, ih, given_step hstep, List.map_append]

/-- The rows that were accepted, with those noted at the start, are the rows of
the entries that were closed and of those that are live in the end. -/
theorem Runs.accepted_perm (hruns : Runs columns aggs book calls answers closed book') :
    (accepted calls answers ++ book.flatMap Entry.rows).Perm
      (closed.flatMap Entry.rows ++ book'.flatMap Entry.rows) := by
  induction hruns with
  | nil => exact .refl _
  | @cons book book₁ book₂ c calls answer answers closed later hstep _ ih =>
      rw [accepted_cons, List.flatMap_append, List.append_assoc, List.append_assoc]
      have hfirst := (accepted_step hstep).append_left (accepted calls answers)
      refine (List.perm_append_comm_assoc _ _ _).trans (hfirst.trans ?_)
      exact (List.perm_append_comm_assoc _ _ _).trans (ih.append_left _)

end

/-! ## The stage -/

theorem key_mem {all : List Row} {groups : Groups} (hamong : groups.Among all)
    (hslots : groups.slots = book.map (Entry.group aggs)) : ∀ e ∈ book, e.key ∈ all := by
  intro e he
  refine hamong.keys ?_
  rw [Groups.keys, hslots, List.map_map]
  exact List.mem_map_of_mem he

variable [LawfulKeyMap]

/-- The calls of the stage are a run of the ledger. -/
theorem run_ledger {all : List Row} (htruthful : Truthful all) :
    ∀ {book : Ledger} {groups : Groups} (calls : List Call),
      Call.keys columns calls ⊆ all → groups.Among all → Sound columns aggs book →
      groups.slots = book.map (Entry.group aggs) →
      let kept := (Plan.stage (.groupBy columns aggs)).run calls groups
      ∃ closed live, Runs columns aggs book calls kept.1 closed live ∧
        kept.2.slots = live.map (Entry.group aggs) ∧ ∀ e ∈ closed ++ live, e.key ∈ all
  | book, _, [], _, hamong, _, hslots => ⟨[], book, .nil, hslots, key_mem hamong hslots⟩
  | book, groups, c :: calls, hall, hamong, hsound, hslots => by
      intro kept
      rw [Call.keys_cons, List.append_subset] at hall
      obtain ⟨hfirst, hlater⟩ := hall
      have hcall : let result := (Plan.stage (.groupBy columns aggs)).call groups c
          ∃ closed book', Step columns aggs book c result.1 closed book' ∧
            result.2.slots = book'.map (Entry.group aggs) := by
        cases c with
        | get => exact step_get hslots fun e he => (hsound.entries e he).folded
        | put row =>
            obtain ⟨book', hstep⟩ := step_put hamong.indexed hslots row fun key hkey =>
              hamong.trusts htruthful (hfirst hkey)
            exact ⟨[], book', hstep⟩
      obtain ⟨closed, book', hstep, hslots'⟩ := hcall
      obtain ⟨later, live, hruns, hlive, hkeys⟩ := run_ledger htruthful calls hlater
        (hamong.call htruthful hfirst) (hsound.step hstep).1 hslots'
      refine ⟨closed ++ later, live, .cons hstep hruns, hlive, fun e he => ?_⟩
      rw [List.append_assoc] at he
      rcases List.mem_append.mp he with hclosed | hrest
      · exact key_mem hamong hslots e (hstep.closed_subset hclosed)
      · exact hkeys e hrest

end Ledger

/-- Grouped aggregation is one aggregation per live group, whatever calls are
made, as long as no two keys of different values pass for equal. The calls are
a run of the ledger: a row joins a group whose key is equal to its own, or opens
one if there is none, and fails exactly where an aggregation of the rows of that
group alone would; a row comes out as the key of the newest group and what such
an aggregation gives. The slots are the live entries. Every group answers for
its rows and for no others, and every row that was accepted is in one group.

The last parts say which keys fall together: those of one value, except for
decimals whose scales differ by ten and whose digits lose a carry when equality
multiplies them out. Where there are none of these, a key falls into one group
at most. -/
theorem groupBy_refines_ledger [KeyMap] [LawfulKeyMap] (columns : List Nat) (aggs : List Aggregate)
    (calls : List Call) (htruthful : Truthful (Call.keys columns calls)) :
    let plan := Plan.stage (.groupBy columns aggs)
    let kept := plan.run calls Groups.empty
    ∃ closed live, Ledger.Runs columns aggs [] calls kept.1 closed live ∧
      kept.2.slots = live.map (Entry.group aggs) ∧
      kept.1.flatMap Plan.given = closed.map (fun e => (e.group aggs).row) ∧
      ((plan.get kept.2).1 = .ok none ↔ live = []) ∧
      (∀ e ∈ closed ++ live, e.Sound columns aggs) ∧
      live.Pairwise (fun e younger => e.holds younger.key = false) ∧
      (Ledger.accepted calls kept.1).Perm ((closed ++ live).flatMap Entry.rows) ∧
      (∀ e ∈ closed ++ live, ∀ key ∈ Call.keys columns calls,
        e.holds key = true ↔ e.key.compare key = .eq ∧ ¬Row.Apart e.key key) ∧
      (Clear (Call.keys columns calls) → ∀ key ∈ Call.keys columns calls,
        (live.filter fun e => e.holds key).length ≤ 1) := by
  intro plan kept
  have hstart : Ledger.Sound columns aggs [] := .nil
  obtain ⟨closed, live, hruns, hslots, hkeys⟩ :=
    Ledger.run_ledger htruthful calls (List.Subset.refl _) .empty hstart rfl
  obtain ⟨hlive, hclosed⟩ := hruns.sound hstart
  refine ⟨closed, live, hruns, hslots, hruns.given, ?_, ?_, hlive.distinct, ?_, ?_, ?_⟩
  · have hget : plan.get kept.2 = _ := Groups.get_groupBy columns aggs kept.2
    rw [hget, ← List.map_eq_nil_iff (f := Entry.group aggs), ← hslots, ← Groups.pop_eq_none_iff]
    cases Groups.pop kept.2 <;> simp
  · intro e he
    exact (List.mem_append.mp he).elim (hclosed e) (hlive.entries e)
  · simpa using hruns.accepted_perm
  · exact fun e he key hkey => htruthful.same_iff (hkeys e he) hkey
  · intro hclear key hkey
    exact Ledger.length_filter_holds_le hclear (fun e he => hkeys e (List.mem_append_right _ he))
      hkey hlive.distinct

theorem groupBy_refines_ledger_interleaved :
    let calls : List Call := [.put [some (.int32 1)], .put [some (.int32 2)], .get,
      .put [some (.int32 1)], .put [], .put [some (.int32 2)], .get, .get]
    let kept := (Plan.stage (.groupBy [0] [.countAll])).run calls Groups.empty
    Truthful (Call.keys [0] calls) ∧
      ∃ closed live, Ledger.Runs [0] [.countAll] [] calls kept.1 closed live ∧
        closed.map (fun e => (e.group [.countAll]).row) =
          [[some (.int32 2), some (.int64 1)], [some (.int32 2), some (.int64 1)],
            [some (.int32 1), some (.int64 2)]] ∧
        kept.2.slots = live.map (Entry.group [.countAll]) ∧
        (∀ e ∈ closed ++ live, e.Sound [0] [.countAll]) ∧
        (Ledger.accepted calls kept.1).Perm ((closed ++ live).flatMap Entry.rows) := by
  intro calls kept
  have htruthful : Truthful (Call.keys [0] calls) := by decide
  obtain ⟨closed, live, hruns, hslots, hgiven, -, hsound, -, haccepted, -⟩ :=
    groupBy_refines_ledger [0] [.countAll] calls htruthful
  refine ⟨htruthful, closed, live, hruns, hgiven.symm.trans ?_, hslots, hsound, haccepted⟩
  decide +kernel

/-- Two rows of one decimal, the second written with ten zeros after the point,
are counted apart. -/
theorem count_apart :
    let d : Decimal := ⟨7922816251533193472, 0⟩
    let d' : Decimal := ⟨79228162515331934720000000000, 10⟩
    d.compare d' = .eq ∧
      ((Plan.stage (.groupBy [0] [.countAll])).run
        [.put [some (.decimal d)], .put [some (.decimal d')], .get, .get, .get]
        Groups.empty).1 =
          [.ok none, .ok none, .ok (some [some (.decimal d'), some (.int64 1)]),
            .ok (some [some (.decimal d), some (.int64 1)]), .ok none] := by
  decide +kernel

end RowCode
