import RowCode.Proofs.Code.StageWord

/-!
# Rows that are refused

A row that a pipeline answers at once, with a row or with a fault, leaves
nothing behind (`Plan.put_keeps`). It is kept only if the answer is that
nothing comes out: then every stage in front of the one that took it has let
it through, and those hold nothing of it. So whichever stage of a pipeline
fails, none before it has absorbed the row, and a stage that fails absorbs
nothing of it either.

Of a rig the same is true of what it has kept, not of what its runners hold;
but the answers do not depend on that (`Rig.answers_congr`).
-/

namespace RowCode

section

variable [KeyMap]

namespace Stage

theorem put_keeps {s : Stage} {row out : Row} {m m' : s.Memory}
    (h : s.put row m = .ok (some out, m')) : m' = m := by
  cases s with
  | filter p => rfl
  | project p => rfl
  | aggregate aggs =>
      obtain ⟨accs, -, h⟩ := Code.bind_eq_ok.1 h
      cases h
  | groupBy columns aggs =>
      obtain ⟨key, -, h⟩ := Code.bind_eq_ok.1 h
      obtain ⟨groups, -, h⟩ := Code.bind_eq_ok.1 h
      cases h

end Stage

namespace Plan

theorem put_keeps : ∀ (p : Plan) (row : Row) (m : p.Memory),
    (p.put row m).1 ≠ .ok none → (p.put row m).2 = m
  | identity, _, _, _ => rfl
  | stage s, row, m, h => by
      rw [put] at h ⊢
      rcases hput : s.put row m with e | ⟨_ | out, m'⟩
      · rfl
      · rw [hput] at h
        exact absurd rfl h
      · exact Stage.put_keeps hput
  | tandem front back, row, (m, n), h => by
      have hfront := put_keeps front row m
      rw [put] at h ⊢
      rcases hput : front.put row m with ⟨_ | _ | out, m'⟩
      · rw [hput] at hfront
        obtain rfl : m' = m := hfront (by simp)
        rfl
      · rw [hput] at h
        exact absurd rfl h
      · rw [hput] at h hfront
        obtain rfl : m' = m := hfront (by simp)
        exact congrArg (Prod.mk m') (put_keeps back out n h)

end Plan

namespace Rig

theorem pipeline_put_of_fault {rig : Rig} {row : Row} {e : Fault}
    (h : (rig.put row).1 = .error e) : (rig.put row).2.pipeline = rig.pipeline := by
  have hput := rig.put_pipeline row
  have hfault : (rig.pipeline.put row).1 = .error e := by rw [hput]; exact h
  have hkeeps : (rig.pipeline.put row).2 = rig.pipeline := by
    have hmemory : (rig.plan.put row rig.pipeline.memory).2 = rig.pipeline.memory := by
      refine rig.plan.put_keeps row _ ?_
      intro hnone
      cases hnone.symm.trans hfault
    exact congrArg (Pipeline.mk rig.plan) hmemory
  rw [hput] at hkeeps
  exact hkeeps

/-- Whatever calls a decoded rig has answered, if putting a row in fails, then
all later calls are answered as if the row had not been put in. -/
theorem run_after_fault (old : Rig) (code : Bytes) (before : List Call) (row : Row) (e : Fault)
    (h : (((old.decode code).2.run before).2.put row).1 = .error e) (later : List Call) :
    ((((old.decode code).2.run before).2.put row).2.run later).1 =
      (((old.decode code).2.run before).2.run later).1 :=
  answers_congr (pipeline_put_of_fault h) later

end Rig

end

/-- `$0<INT32> + 1`, counted: the second row overflows, and is not counted. -/
theorem Rig.run_after_fault_overflow :
    let code : Bytes := [0x72, 0x31, 0x00, 0x11, 0x01, 0x83, 0x01, 0x00, 0x74, 0x01, 0x10]
    let rig := ((Rig.new.decode code).2.run [.put [some (.int32 1)]]).2
    let row : Row := [some (.int32 2147483647)]
    (rig.put row).1 = .error (.overflow .int32) ∧
      ∀ later, ((rig.put row).2.run later).1 = (rig.run later).1 := by
  intro code rig row
  let zero : Code.Varint := ⟨[], 0, nofun, by decide, by decide⟩
  let one : Code.Varint := ⟨[], 1, nofun, by decide, by decide⟩
  have hdecode : (Rig.new.decode code).2 = _ := congrArg Prod.snd <| Rig.new.decode_stages
    [.project [.column zero .int32, .const (.int32 false one), .op (.arith .add .int32)],
      .aggregate ⟨one, [.countAll], rfl⟩]
  have hfault : (rig.put row).1 = .error (.overflow .int32) := by
    simp only [rig, hdecode]
    rfl
  exact ⟨hfault, Rig.run_after_fault Rig.new code _ row _ hfault⟩

end RowCode
