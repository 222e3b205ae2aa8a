import Mathlib.Data.Fintype.EquivFin
import Mathlib.Data.Nat.ModEq
import Mathlib.Data.Nat.Prime.Basic
import Mathlib.Tactic.Ring
import RowCode.Hash.Table

/-!
# The way of a search

A search goes through windows until one has a position where it stops. `Leads`
says that it gets to the window of a position; then it finds something if the
position has what it looks for (`search_isSome`), and the place that `probe`
gives is one that a search gets to (`leads_of_probe`).

In a table whose size is a power of two the windows reach every position
(`exists_mem_windows`): the steps between them add up to triangular numbers, and
these leave every remainder once.
-/

namespace RowCode.HashTable

/-! ## Searches -/

/-- A search that ends after a window with a position of the property `stop` gets
to a window of position `i`. -/
inductive Leads (stop : Nat → Bool) (i : Nat) : List (List Nat) → Prop where
  | here {w : List Nat} {ws : List (List Nat)} (h : i ∈ w) : Leads stop i (w :: ws)
  | later {w : List Nat} {ws : List (List Nat)} (hw : w.any stop = false)
      (h : Leads stop i ws) : Leads stop i (w :: ws)

namespace Leads

variable {stop stop' : Nat → Bool} {i : Nat} {ws : List (List Nat)}

theorem mono (h : Leads stop i ws)
    (hstop : ∀ w ∈ ws, w.any stop = false → w.any stop' = false) : Leads stop' i ws := by
  induction h with
  | here h => exact .here h
  | later hw _ ih =>
      exact .later (hstop _ List.mem_cons_self hw)
        (ih fun w hmem => hstop w (List.mem_cons_of_mem _ hmem))

/-- With fewer positions to stop at, a search gets as far. -/
theorem of_imp (h : Leads stop i ws) (hstop : ∀ j, stop' j = true → stop j = true) :
    Leads stop' i ws := by
  refine h.mono fun w _ hw => ?_
  rw [List.any_eq_false] at hw ⊢
  exact fun j hj hstop' => hw j hj (hstop j hstop')

theorem exists_mem (h : Leads stop i ws) : ∃ w ∈ ws, i ∈ w := by
  induction h with
  | here h => exact ⟨_, List.mem_cons_self, h⟩
  | later _ _ ih =>
      obtain ⟨w, hmem, hi⟩ := ih
      exact ⟨w, List.mem_cons_of_mem _ hmem, hi⟩

end Leads

variable {p stop : Nat → Bool} {i : Nat}

theorem search_eq_some {ws : List (List Nat)} (h : search p stop ws = some i) :
    p i = true ∧ ∃ w ∈ ws, i ∈ w := by
  induction ws with
  | nil => cases h
  | cons w ws ih =>
      rw [search] at h
      split at h
      · next hfind =>
          cases h
          exact ⟨List.find?_some hfind, w, List.mem_cons_self, List.mem_of_find?_eq_some hfind⟩
      · split at h
        · cases h
        · obtain ⟨hp, w', hmem, hi⟩ := ih h
          exact ⟨hp, w', List.mem_cons_of_mem _ hmem, hi⟩

/-- A search that gets to a position with the property finds one, this or an
earlier one. -/
theorem search_isSome {ws : List (List Nat)} (h : Leads stop i ws) (hp : p i = true) :
    (search p stop ws).isSome := by
  induction h with
  | here h =>
      rw [search]
      split
      · rfl
      · next hfind => exact absurd hp (List.find?_eq_none.mp hfind i h)
  | later hw _ ih =>
      rw [search]
      split
      · rfl
      · rw [if_neg (by rw [hw]; exact Bool.false_ne_true)]
        exact ih

theorem probe_isSome {ws : List (List Nat)} (h : ∃ w ∈ ws, i ∈ w) (hp : p i = true) :
    (probe p ws).isSome := by
  induction ws with
  | nil => simp at h
  | cons w ws ih =>
      rw [probe]
      split
      · rfl
      · next hfind =>
          obtain ⟨w', hmem, hi⟩ := h
          rcases List.mem_cons.mp hmem with rfl | hmem
          · exact absurd hp (List.find?_eq_none.mp hfind i hi)
          · exact ih ⟨w', hmem, hi⟩

/-- No window before the one that `probe` gives has a position of the property. -/
theorem leads_of_probe {ws : List (List Nat)} {w : List Nat} (h : probe p ws = some (w, i)) :
    p i = true ∧ w ∈ ws ∧ ∀ j ∈ w, Leads p j ws := by
  induction ws with
  | nil => cases h
  | cons w' ws ih =>
      rw [probe] at h
      split at h
      · next hfind =>
          cases h
          exact ⟨List.find?_some hfind, List.mem_cons_self, fun j hj => .here hj⟩
      · next hfind =>
          obtain ⟨hp, hmem, hleads⟩ := ih h
          refine ⟨hp, List.mem_cons_of_mem _ hmem, fun j hj => .later ?_ (hleads j hj)⟩
          rw [List.any_eq_false]
          exact List.find?_eq_none.mp hfind

/-! ## Windows -/

theorem mem_window {size start : Nat} :
    i ∈ window size start ↔ ∃ d < min width size, (start + d) % size = i := by
  simp only [window, List.mem_map, List.mem_range]

theorem lt_of_mem_window {size start : Nat} (h : i ∈ window size start) : i < size := by
  obtain ⟨d, hd, rfl⟩ := mem_window.mp h
  exact Nat.mod_lt _ (by omega)

theorem lt_of_mem_windows {size digest : Nat} {w : List Nat} (hw : w ∈ windows size digest)
    (h : i ∈ w) : i < size := by
  obtain ⟨step, -, rfl⟩ := List.mem_map.mp hw
  exact lt_of_mem_window h

/-- A position by its distance from the start of a search. -/
theorem exists_offset {size : Nat} (start : Nat) (hi : i < size) :
    ∃ d < size, (start + d) % size = i := by
  have hpos := Nat.zero_lt_of_lt hi
  have hstart := Nat.mod_lt start hpos
  refine ⟨(i + (size - start % size)) % size, Nat.mod_lt _ hpos, ?_⟩
  rw [Nat.add_mod_mod, ← Nat.mod_add_mod]
  have hsum : start % size + (i + (size - start % size)) = i + size := by omega
  rw [hsum, Nat.add_mod_right, Nat.mod_eq_of_lt hi]

/-- A table with one window has all positions in it. -/
theorem windows_of_le {size : Nat} (digest : Nat) (h : size ≤ width) :
    ∃ w, windows size digest = [w] ∧ ∀ i < size, i ∈ w := by
  have hsteps : max 1 (size / width) = 1 := by
    have : size / width ≤ 1 := Nat.div_le_of_le_mul (by omega)
    omega
  refine ⟨window size digest, by rw [windows, hsteps]; rfl, fun i hi => mem_window.mpr ?_⟩
  rw [Nat.min_eq_right h]
  exact exists_offset _ hi

/-! ## Triangular steps -/

/-- The steps of a search up to the step `s`, all together. -/
def triangle (s : Nat) : Nat :=
  s * (s + 1) / 2

theorem two_mul_triangle (s : Nat) : 2 * triangle s = s * (s + 1) :=
  Nat.mul_div_cancel' (Nat.even_mul_succ_self s).two_dvd

theorem two_mul_triangle_sub {s t : Nat} (h : s ≤ t) :
    2 * (triangle t - triangle s) = (t - s) * (t + s + 1) := by
  obtain ⟨d, rfl⟩ := Nat.exists_eq_add_of_le h
  rw [Nat.mul_sub, two_mul_triangle, two_mul_triangle, Nat.add_sub_cancel_left]
  refine Nat.sub_eq_of_eq_add ?_
  ring

/-- Of the two factors of twice the difference one is odd, so that the power of
two divides the other, and both are too small for it. -/
theorem triangle_inj_of_le {m s t : Nat} (hle : s ≤ t) (ht : t < 2 ^ m)
    (h : triangle s % 2 ^ m = triangle t % 2 ^ m) : s = t := by
  have hmono : triangle s ≤ triangle t :=
    Nat.div_le_div_right (Nat.mul_le_mul hle (by omega))
  have hdvd : 2 ^ (m + 1) ∣ (t - s) * (t + s + 1) := by
    rw [← two_mul_triangle_sub hle, Nat.pow_succ']
    exact Nat.mul_dvd_mul_left 2 ((Nat.modEq_iff_dvd' hmono).mp h)
  have hpow : 2 ^ (m + 1) = 2 * 2 ^ m := Nat.pow_succ'
  rcases Nat.even_or_odd (t - s) with heven | hodd
  · have hodd : Odd (t + s + 1) := by
      obtain ⟨k, hk⟩ := heven
      exact ⟨k + s, by omega⟩
    have hfactor : 2 ^ (m + 1) ∣ t - s :=
      ((Nat.coprime_two_left.mpr hodd).pow_left _).dvd_of_dvd_mul_right hdvd
    have := Nat.eq_zero_of_dvd_of_lt hfactor (by omega)
    omega
  · have hfactor : 2 ^ (m + 1) ∣ t + s + 1 :=
      ((Nat.coprime_two_left.mpr hodd).pow_left _).dvd_of_dvd_mul_left hdvd
    have := Nat.eq_zero_of_dvd_of_lt hfactor (by omega)
    omega

theorem triangle_inj {m s t : Nat} (hs : s < 2 ^ m) (ht : t < 2 ^ m)
    (h : triangle s % 2 ^ m = triangle t % 2 ^ m) : s = t := by
  rcases Nat.le_total s t with hle | hle
  · exact triangle_inj_of_le hle ht h
  · exact (triangle_inj_of_le hle hs h.symm).symm

/-- Triangular numbers leave every remainder by a power of two. -/
theorem exists_triangle {m q : Nat} (hq : q < 2 ^ m) :
    ∃ s < 2 ^ m, triangle s % 2 ^ m = q := by
  have hpos := Nat.two_pow_pos m
  let f : Fin (2 ^ m) → Fin (2 ^ m) := fun s => ⟨triangle s % 2 ^ m, Nat.mod_lt _ hpos⟩
  have hinj : Function.Injective f := fun s t h =>
    Fin.ext (triangle_inj s.isLt t.isLt (congrArg Fin.val h))
  obtain ⟨s, hs⟩ := Finite.surjective_of_injective hinj ⟨q, hq⟩
  exact ⟨s, s.isLt, congrArg Fin.val hs⟩

/-- The windows of a search reach every position. -/
theorem exists_mem_windows {k : Nat} (digest : Nat) (hi : i < 2 ^ k) :
    ∃ w ∈ windows (2 ^ k) digest, i ∈ w := by
  rcases Nat.lt_or_ge 4 k with hk | hk
  · obtain ⟨m, rfl⟩ := Nat.exists_eq_add_of_le hk.le
    have hsize : 2 ^ (4 + m) = width * 2 ^ m := Nat.pow_add 2 4 m
    rw [hsize] at hi ⊢
    obtain ⟨d, hd, hi⟩ := exists_offset digest hi
    obtain ⟨s, hs, hstep⟩ := exists_triangle (Nat.div_lt_of_lt_mul hd)
    refine ⟨window (width * 2 ^ m) (digest + width * triangle s), ?_, ?_⟩
    · refine List.mem_map.mpr ⟨s, List.mem_range.mpr ?_, rfl⟩
      rw [Nat.mul_div_cancel_left (2 ^ m) (by decide : 0 < width)]
      omega
    · have hwidth : min width (width * 2 ^ m) = width :=
        Nat.min_eq_left (Nat.le_mul_of_pos_right width (Nat.two_pow_pos m))
      refine mem_window.mpr ⟨d % width, ?_, ?_⟩
      · rw [hwidth]
        exact Nat.mod_lt d (by decide)
      · rw [← hi, Nat.add_assoc, ← Nat.add_mod_mod, ← Nat.mod_add_mod (width * triangle s),
          Nat.mul_mod_mul_left, hstep, Nat.div_add_mod, Nat.add_mod_mod]
  · have hsize : 2 ^ k ≤ 2 ^ 4 := Nat.pow_le_pow_right (by decide) hk
    obtain ⟨w, hw, hmem⟩ := windows_of_le digest hsize
    exact ⟨w, by rw [hw]; exact List.mem_cons_self, hmem i hi⟩

end RowCode.HashTable
