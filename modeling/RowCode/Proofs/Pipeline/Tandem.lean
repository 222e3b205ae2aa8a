import RowCode.Proofs.Pipeline.Rig

/-!
# Tandems of tandems

Three plans can be put one behind the other in two ways, and the two answer
alike (`Rig.tandem_assoc`). They do not do the same work. Bracketed to the
left, the front is asked again each time that the middle is, also when it has
long run dry; bracketed to the right, it is asked until it is dry and then
left alone.

So the proof has two parts. While the front gives rows, both loops take the
same turns. Once it is dry it stays so, because a plan that gives nothing keeps
no row (`Plan.pending_of_get_none`), and then what is left of either loop is the
middle before the back.
-/

namespace RowCode

variable [KeyMap]

namespace Plan

variable {a b c : Plan}

/-- What three plans keep, bracketed to the right. -/
def rebracket : (tandem (tandem a b) c).Memory → (tandem a (tandem b c)).Memory
  | ((m, n), k) => (m, (n, k))

theorem put_rebracket (row : Row) (m : a.Memory) (n : b.Memory) (k : c.Memory) :
    (tandem a (tandem b c)).put row (m, (n, k)) =
      Prod.map id rebracket ((tandem (tandem a b) c).put row ((m, n), k)) := by
  simp only [put]
  rcases a.put row m with ⟨_ | _ | out, m'⟩
  · rfl
  · rfl
  · dsimp only
    rcases b.put out n with ⟨_ | _ | out', n'⟩ <;> rfl

/-- A front that is dry is passed over. -/
theorem get_tandem_of_dry {m : a.Memory} (h : a.get m = (.ok none, m)) (n : b.Memory) :
    (tandem a b).get (m, n) = ((b.get n).1, (m, (b.get n).2)) := by
  rw [get_tandem, h]

/-- Behind a dry front, each turn takes a row out of the middle. -/
theorem get_rebracket_of_dry {m : a.Memory} (h : a.get m = (.ok none, m)) (n : b.Memory)
    (k : c.Memory) :
    (tandem a (tandem b c)).get (m, (n, k)) =
      Prod.map id rebracket ((tandem (tandem a b) c).get ((m, n), k)) := by
  induction hkept : b.pending n using Nat.strongRecOn generalizing n k with
  | ind kept ih =>
      have hmiddle := get_tandem_of_dry h n
      rw [get_tandem_of_dry h, get_tandem b c, get_tandem (tandem a b) c, hmiddle]
      rcases hn : b.get n with ⟨_ | _ | row, n'⟩
      · rfl
      · rfl
      · dsimp only
        rcases c.put row k with ⟨_ | _ | out, k'⟩
        · rfl
        · have hlt : b.pending n' < kept := hkept ▸ pending_get_lt hn nofun
          have hnext := ih _ hlt n' k' rfl
          rw [get_tandem_of_dry h] at hnext
          exact hnext
        · rfl

theorem get_rebracket (m : a.Memory) (n : b.Memory) (k : c.Memory) :
    (tandem a (tandem b c)).get (m, (n, k)) =
      Prod.map id rebracket ((tandem (tandem a b) c).get ((m, n), k)) := by
  induction hkept : a.pending m using Nat.strongRecOn generalizing m n k with
  | ind kept ih =>
      rcases hm : a.get m with ⟨_ | _ | row, m'⟩
      · have hmiddle := get_tandem a b m n
        rw [hm] at hmiddle
        rw [get_tandem a, get_tandem (tandem a b), hm, hmiddle]
        rfl
      · -- the first turn finds the front dry, and so do all later ones
        have hagain := a.get_of_pending_eq_zero (pending_of_get_none hm)
        have hdry := get_rebracket_of_dry hagain n k
        have hmiddle := get_tandem a b m n
        have hmiddle' := get_tandem_of_dry hagain n
        rw [hm] at hmiddle
        rw [get_tandem_of_dry hagain, get_tandem (tandem a b), hmiddle'] at hdry
        rw [get_tandem a, get_tandem (tandem a b), hm, hmiddle]
        exact hdry
      · have hlt : a.pending m' < kept := hkept ▸ pending_get_lt hm nofun
        have hmiddle := get_tandem a b m n
        rw [hm] at hmiddle
        dsimp only at hmiddle
        rw [get_tandem a, get_tandem (tandem a b), hm]
        dsimp only
        rw [put]
        rcases hn : b.put row n with ⟨_ | _ | out, n'⟩
        · rw [hn] at hmiddle
          rw [hmiddle]
          rfl
        · -- the row stays in the middle, and the left loop goes on inside its front
          rw [hn] at hmiddle
          have hnext := ih _ hlt m' n' k rfl
          rw [get_tandem (tandem a b)] at hnext
          rw [hmiddle]
          exact hnext
        · rw [hn] at hmiddle
          rw [hmiddle]
          dsimp only
          rcases c.put out k with ⟨_ | _ | out', k'⟩
          · rfl
          · exact ih _ hlt m' n' k' rfl
          · rfl

end Plan

/-! ## Rigs -/

namespace Rig

/-- One rig behind another. -/
def tandem (front back : Rig) : Rig :=
  ⟨.tandem front.plan back.plan, (front.state, back.state)⟩

end Rig

namespace Pipeline

theorem call_rebracket {a b c : Plan} (memory : (Plan.tandem (Plan.tandem a b) c).Memory)
    (call : Call) :
    (⟨.tandem a (.tandem b c), Plan.rebracket memory⟩ : Pipeline).call call =
      (((⟨.tandem (.tandem a b) c, memory⟩ : Pipeline).call call).1,
        ⟨.tandem a (.tandem b c),
          Plan.rebracket ((Plan.tandem (.tandem a b) c).call memory call).2⟩) := by
  obtain ⟨⟨m, n⟩, k⟩ := memory
  cases call with
  | put row =>
      have hput := Plan.put_rebracket row m n k
      simp only [Pipeline.call, Pipeline.put, Plan.call, Plan.rebracket, hput, Prod.map, id]
  | get =>
      have hget := Plan.get_rebracket m n k
      simp only [Pipeline.call, Pipeline.get, Plan.call, Plan.rebracket, hget, Prod.map, id]

theorem answers_rebracket {a b c : Plan} (memory : (Plan.tandem (Plan.tandem a b) c).Memory)
    (calls : List Call) :
    ((⟨.tandem a (.tandem b c), Plan.rebracket memory⟩ : Pipeline).run calls).1 =
      ((⟨.tandem (.tandem a b) c, memory⟩ : Pipeline).run calls).1 := by
  induction calls generalizing memory with
  | nil => rfl
  | cons call calls ih =>
      simp only [run, call_rebracket, ih]
      cases call <;> rfl

end Pipeline

namespace Rig

/-- Whatever three rigs have seen, it makes no difference to the answers which
two of them are put in tandem first: rows and faults come out alike, whatever
calls are made and in whatever order. -/
theorem tandem_assoc (a b c : Rig) (calls : List Call) :
    (((a.tandem b).tandem c).run calls).1 = ((a.tandem (b.tandem c)).run calls).1 := by
  have hleft := ((a.tandem b).tandem c).run_pipeline calls
  have hright := (a.tandem (b.tandem c)).run_pipeline calls
  have hanswers := Pipeline.answers_rebracket ((a.tandem b).tandem c).pipeline.memory calls
  have hpipeline : (a.tandem (b.tandem c)).pipeline =
      ⟨.tandem a.plan (.tandem b.plan c.plan),
        Plan.rebracket ((a.tandem b).tandem c).pipeline.memory⟩ := rfl
  rw [← hpipeline, hright] at hanswers
  calc (((a.tandem b).tandem c).run calls).1
      = (((a.tandem b).tandem c).pipeline.run calls).1 := by rw [hleft]; rfl
    _ = ((a.tandem (b.tandem c)).run calls).1 := hanswers.symm

end Rig

end RowCode
