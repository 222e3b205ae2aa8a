import RowCode.Proofs.Pipeline.Batch

/-!
# Twins

The index of a grouped aggregation has a past. Which of two equal keys it leads
to, and whether it finds a key that is only apart from a live one, may depend on
keys that have long been taken out. None of this is seen as long as no grouped
aggregation is handed a key that is apart from one of its live keys: then calls
are smooth (`Plan.Smooth`).

What a plan keeps has a twin wherever the slots are the same, and the indices
may be of any past (`Plan.Twin`). Smooth calls are answered alike by twins, and
leave twins behind (`call_twin`). The induction is on the plan, and for the loop
of a tandem on its turns.
-/

namespace RowCode

/-! ## Smooth calls -/

/-- A loop whose calls all have properties: `calm` when rows are pulled, `eased`
when they are put on, and `still` when the last is asked. -/
inductive Turns {σ τ : Type} (pull : σ → Answer × σ) (put : Row → τ → Answer × τ)
    (calm : σ → Prop) (eased : Row → τ → Prop) (still : τ → Prop) : σ → τ → Prop
  | turn {s : σ} {t : τ} (hpull : calm s) (hlast : (pull s).1 = .ok none → still t)
      (hput : ∀ row, (pull s).1 = .ok (some row) → eased row t)
      (hnext : ∀ row, (pull s).1 = .ok (some row) → (put row t).1 = .ok none →
        Turns pull put calm eased still (pull s).2 (put row t).2) :
      Turns pull put calm eased still s t

variable [KeyMap]

namespace Stage

/-- The keys that a call hands to a grouped aggregation are not apart from live
ones. -/
def Smooth : (s : Stage) → Call → s.Memory → Prop
  | groupBy columns _, c, groups => ∀ key ∈ Call.keys columns [c], groups.Clears key
  | _, _, _ => True

/-- The slots are the same, whatever was in them before, and have no keys of one
value. -/
def Twin : (s : Stage) → s.Memory → s.Memory → Prop
  | groupBy _ _, groups, groups' => groups.slots = groups'.slots ∧ groups.Tidy ∧ groups'.Tidy
  | filter _, _, _ => True
  | project _, _, _ => True
  | aggregate _, cache, cache' => cache = cache'

end Stage

namespace Plan

/-- A call in the course of which every call of a stage is smooth. -/
def Smooth : (p : Plan) → Call → p.Memory → Prop
  | identity, _, _ => True
  | stage s, c, m => s.Smooth c m
  | tandem front back, .put row, (m, n) =>
    front.Smooth (.put row) m ∧
      ∀ out, (front.put row m).1 = .ok (some out) → back.Smooth (.put out) n
  | tandem front back, .get, (m, n) =>
    Turns front.get back.put (front.Smooth .get) (fun row => back.Smooth (.put row))
      (back.Smooth .get) m n

/-- Calls made one after the other, all of them smooth. -/
def AllSmooth (p : Plan) : List Call → p.Memory → Prop
  | [], _ => True
  | c :: calls, m => p.Smooth c m ∧ p.AllSmooth calls (p.call m c).2

/-- What is kept is the same but for the past of the indices. -/
def Twin : (p : Plan) → p.Memory → p.Memory → Prop
  | identity, _, _ => True
  | stage s, m, m' => s.Twin m m'
  | tandem front back, (m, n), (m', n') => front.Twin m m' ∧ back.Twin n n'

/-- The same answer, and twins left behind. -/
def Agree (p : Plan) (result result' : Answer × p.Memory) : Prop :=
  result.1 = result'.1 ∧ p.Twin result.2 result'.2

end Plan

/-! ## Twins -/

/-- To take a row out is a matter of the slots. -/
theorem Groups.get_slots (columns : List Nat) (aggs : List Aggregate) (groups : Groups) :
    Prod.map id slots ((Plan.stage (.groupBy columns aggs)).get groups) =
      match groups.slots.getLast? with
      | none => (.ok none, groups.slots)
      | some g => (.ok (some g.row), groups.slots.dropLast) := by
  rw [get_groupBy, pop]
  cases groups.slots.getLast? <;> rfl

namespace Plan

variable {front back : Plan}

theorem put_twin_tandem {row : Row} {m m' : front.Memory} {n n' : back.Memory}
    (hfront : front.Smooth (.put row) m →
      front.Agree (front.put row m) (front.put row m'))
    (hback : ∀ {out : Row}, back.Smooth (.put out) n →
      back.Agree (back.put out n) (back.put out n'))
    (hn : back.Twin n n') (hsmooth : (tandem front back).Smooth (.put row) (m, n)) :
    (tandem front back).Agree ((tandem front back).put row (m, n))
      ((tandem front back).put row (m', n')) := by
  obtain ⟨hcalm, hpassed⟩ := hsmooth
  obtain ⟨hanswer, hm⟩ := hfront hcalm
  rw [put, put]
  rcases hput : front.put row m with ⟨answer, m₁⟩
  rcases hput' : front.put row m' with ⟨answer', m₁'⟩
  rw [hput, hput'] at hanswer hm
  obtain rfl : answer = answer' := hanswer
  rw [hput] at hpassed
  rcases answer with e | _ | out
  · exact ⟨rfl, hm, hn⟩
  · exact ⟨rfl, hm, hn⟩
  · obtain ⟨hanswer, hn⟩ := hback (hpassed out rfl)
    exact ⟨hanswer, hm, hn⟩

theorem get_twin_tandem
    (hfront : ∀ {m m' : front.Memory}, front.Twin m m' → front.Smooth .get m →
      front.Agree (front.get m) (front.get m'))
    (hback : ∀ {n n' : back.Memory} {c : Call}, back.Twin n n' → back.Smooth c n →
      back.Agree (back.call n c) (back.call n' c))
    {m m' : front.Memory} {n n' : back.Memory} (hm : front.Twin m m') (hn : back.Twin n n')
    (hsmooth : (tandem front back).Smooth .get (m, n)) :
    (tandem front back).Agree ((tandem front back).get (m, n))
      ((tandem front back).get (m', n')) := by
  rw [Smooth] at hsmooth
  induction hsmooth generalizing m' n' with
  | @turn m n hpull hlast hput _ ih =>
      obtain ⟨hanswer, hm⟩ := hfront hm hpull
      rw [get_tandem, get_tandem]
      rcases hget : front.get m with ⟨answer, m₁⟩
      rcases hget' : front.get m' with ⟨answer', m₁'⟩
      rw [hget, hget'] at hanswer hm
      obtain rfl : answer = answer' := hanswer
      rw [hget] at hlast hput ih
      rcases answer with e | _ | row
      · exact ⟨rfl, hm, hn⟩
      · obtain ⟨hanswer, hn⟩ := hback hn (hlast rfl)
        exact ⟨hanswer, hm, hn⟩
      · obtain ⟨hanswer, hn⟩ := hback hn (hput row rfl)
        dsimp only
        change (back.put row n).1 = (back.put row n').1 at hanswer
        change back.Twin (back.put row n).2 (back.put row n').2 at hn
        rcases hput : back.put row n with ⟨answer, n₁⟩
        rcases hput' : back.put row n' with ⟨answer', n₁'⟩
        rw [hput, hput'] at hanswer hn
        obtain rfl : answer = answer' := hanswer
        rcases answer with e | _ | out
        · exact ⟨rfl, hm, hn⟩
        · have hnext := ih row rfl
          rw [hput] at hnext
          exact hnext rfl hm hn
        · exact ⟨rfl, hm, hn⟩

end Plan

variable [LawfulKeyMap]

theorem Stage.call_twin {c : Call} : ∀ {s : Stage} {m m' : s.Memory}, s.Twin m m' → s.Smooth c m →
    (Plan.stage s).Agree ((Plan.stage s).call m c) ((Plan.stage s).call m' c)
  | filter _, (), (), _, _ => ⟨rfl, trivial⟩
  | project _, (), (), _, _ => ⟨rfl, trivial⟩
  | aggregate aggs, cache, _, rfl, _ => ⟨rfl, rfl⟩
  | groupBy columns aggs, groups, groups', ⟨hslots, htidy, htidy'⟩, hsmooth => by
      have hkeys : groups'.keys = groups.keys := by rw [Groups.keys, Groups.keys, hslots]
      have hsmooth' : ∀ key ∈ Call.keys columns [c], groups'.Clears key := by
        intro key hkey
        rw [Groups.Clears, hkeys]
        exact hsmooth key hkey
      have hcall : Prod.map id Groups.slots ((Plan.stage (groupBy columns aggs)).call groups c) =
          Prod.map id Groups.slots ((Plan.stage (groupBy columns aggs)).call groups' c) := by
        cases c with
        | put row =>
            have hput := Plan.put_walk aggs htidy hsmooth
            rw [hslots, ← Plan.put_walk aggs htidy' hsmooth'] at hput
            exact hput
        | get =>
            have hget := Groups.get_slots columns aggs groups
            rw [hslots, ← Groups.get_slots columns aggs groups'] at hget
            exact hget
      obtain ⟨hanswer, hslots'⟩ := Prod.mk.inj hcall
      exact ⟨hanswer, hslots', htidy.call hsmooth, htidy'.call hsmooth'⟩

namespace Plan

theorem call_twin : ∀ {p : Plan} {c : Call} {m m' : p.Memory}, p.Twin m m' → p.Smooth c m →
    p.Agree (p.call m c) (p.call m' c)
  | identity, .put _, _, _, _, _ => ⟨rfl, trivial⟩
  | identity, .get, _, _, _, _ => ⟨rfl, trivial⟩
  | stage _, _, _, _, h, hsmooth => Stage.call_twin h hsmooth
  | tandem _ _, .put _, (_, _), (_, _), ⟨hm, hn⟩, hsmooth =>
      put_twin_tandem (call_twin (c := .put _) hm) (call_twin (c := .put _) hn) hn hsmooth
  | tandem _ _, .get, (_, _), (_, _), ⟨hm, hn⟩, hsmooth =>
      get_twin_tandem (call_twin (c := .get)) call_twin hm hn hsmooth

/-- Twins answer alike for as long as the calls are smooth, and are twins in the end. -/
theorem run_twin {p : Plan} : ∀ (calls : List Call) {m m' : p.Memory}, p.Twin m m' →
    p.AllSmooth calls m →
    (p.run calls m).1 = (p.run calls m').1 ∧ p.Twin (p.run calls m).2 (p.run calls m').2
  | [], _, _, h, _ => ⟨rfl, h⟩
  | c :: calls, m, m', h, hsmooth => by
      obtain ⟨hanswer, hnext⟩ := call_twin h hsmooth.1
      obtain ⟨hanswers, hend⟩ := run_twin calls hnext hsmooth.2
      exact ⟨congrArg₂ List.cons hanswer hanswers, hend⟩

/-- What has no row left is a twin of what is fresh. -/
theorem Twin.empty : ∀ {p : Plan} {m m' : p.Memory}, p.Twin m m' → p.pending m' = 0 →
    p.Twin p.empty m'
  | identity, _, _, _, _ => trivial
  | stage (.filter _), _, _, _, _ => trivial
  | stage (.project _), _, _, _, _ => trivial
  | stage (.aggregate _), _, none, _, _ => rfl
  | stage (.aggregate _), _, some _, _, h => absurd h Nat.one_ne_zero
  | stage (.groupBy _ _), _, _, ⟨_, _, htidy⟩, h =>
      ⟨(List.eq_nil_of_length_eq_zero h).symm, .empty, htidy⟩
  | tandem _ _, (_, _), (_, _), ⟨hm, hn⟩, h => by
      obtain ⟨hfront, hback⟩ := Nat.add_eq_zero_iff.mp h
      exact ⟨hm.empty hfront, hn.empty hback⟩

end Plan

end RowCode
