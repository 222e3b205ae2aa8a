import RowCode.Proofs.Decimal.Value
import RowCode.Proofs.Operand.Equality

/-!
# The laws of order and equality

The order of operands is that of their places (`Operand.compare_eq_place`). The
place of an operand has the code of its type first, and then whatever orders the
values of that type: an integer, a number or bytes. Places are ordered
lexicographically, so operands and rows are totally ordered.

Equality is defined without the order, and the two agree but on rows that are
apart in some column (`Row.same_iff`): on those decimals whose scales differ by
ten and whose digits lose a carry. Where nothing is apart, equality is an
equivalence. Where something is, it need not be: of three decimals the outer
two may be told apart though each equals the one in the middle
(`Row.same_not_trans`).
-/

namespace RowCode

open Std (TransCmp)

/-! ## Places -/

/-- An order that is another one under a map has its laws. -/
theorem transCmp_of_eq {α β : Type} {cmp : α → α → Ordering} {cmp' : β → β → Ordering}
    [TransCmp cmp'] (f : α → β) (h : ∀ a b, cmp a b = cmp' (f a) (f b)) : TransCmp cmp where
  eq_swap := by
    simp only [h]
    exact Std.OrientedCmp.eq_swap
  isLE_trans := by
    simp only [h]
    exact TransCmp.isLE_trans

/-- The place of an operand in the order. -/
structure Place where
  code : Nat
  integer : Int
  number : ℚ
  bytes : List UInt8

namespace Place

def compare (p q : Place) : Ordering :=
  (Ord.compare p.code q.code).then <| (Ord.compare p.integer q.integer).then <|
    (Ord.compare p.number q.number).then (Ord.compare p.bytes q.bytes)

instance : TransCmp compare :=
  inferInstanceAs <| TransCmp <| compareLex (compareOn code) <| compareLex (compareOn integer) <|
    compareLex (compareOn number) (compareOn bytes)

end Place

namespace Scalar

/-- Each type orders its values in one component and leaves the others empty. -/
def place : Scalar → Place
  | int32 n => ⟨Ty.int32.code, n.toInt, 0, []⟩
  | int64 n => ⟨Ty.int64.code, n.toInt, 0, []⟩
  | bool b => ⟨Ty.bool.code, b.toInt, 0, []⟩
  | float32 x => ⟨Ty.float32.code, x.rank, 0, []⟩
  | float64 x => ⟨Ty.float64.code, x.rank, 0, []⟩
  | decimal d => ⟨Ty.decimal.code, 0, d.value, []⟩
  | string s => ⟨Ty.string.code, 0, 0, s.toUTF8.data.toList⟩

/-- A float of either format as a scalar. -/
def ofBinary : {f : Format} → Binary f → Scalar
  | .single, x => float32 x
  | .double, x => float64 x

theorem compare_ofBinary {f : Format} (x y : Binary f) :
    (ofBinary x).compare (ofBinary y) = x.totalCompare y := by
  cases f <;> rfl

theorem code_place (v : Scalar) : v.place.code = v.ty.code := by
  cases v <;> rfl

theorem compare_int32 (m n : Int32) : Ord.compare m n = Ord.compare m.toInt n.toInt := by
  simp only [Ord.compare, compareOfLessAndEq, Int32.lt_iff_toInt_lt, Int32.toInt_inj]

theorem compare_int64 (m n : Int64) : Ord.compare m n = Ord.compare m.toInt n.toInt := by
  simp only [Ord.compare, compareOfLessAndEq, Int64.lt_iff_toInt_lt, Int64.toInt_inj]

/-- Values of different types compare as their types do. -/
theorem compare_of_ty_ne {v w : Scalar} (h : v.ty ≠ w.ty) :
    v.compare w = Ord.compare v.ty.code w.ty.code := by
  cases v <;> cases w <;> first | rfl | exact absurd rfl h

theorem compare_place_of_ty_eq : ∀ {v w : Scalar}, v.ty = w.ty →
    v.compare w = v.place.compare w.place
  | int32 m, int32 n, _ => by simp [compare, place, Place.compare, compare_int32]
  | int64 m, int64 n, _ => by simp [compare, place, Place.compare, compare_int64]
  | bool a, bool b, _ => by cases a <;> cases b <;> simp [compare, place, Place.compare] <;> rfl
  | float32 x, float32 y, _ => by simp [compare, place, Place.compare, Binary.totalCompare]
  | float64 x, float64 y, _ => by simp [compare, place, Place.compare, Binary.totalCompare]
  | decimal a, decimal b, _ => by
      simp [compare, place, Place.compare, Decimal.compare_eq_compare_value]
  | string s, string t, _ => by simp [compare, place, Place.compare, compareText]

theorem compare_eq_place (v w : Scalar) : v.compare w = v.place.compare w.place := by
  by_cases h : v.ty = w.ty
  · exact compare_place_of_ty_eq h
  · have hcode : Ord.compare v.ty.code w.ty.code ≠ .eq := by
      intro heq
      exact h (Ty.code_injective (Std.compare_eq_iff_eq.mp heq))
    rw [compare_of_ty_ne h, Place.compare, code_place, code_place]
    cases hcmp : Ord.compare v.ty.code w.ty.code with
    | lt => rfl
    | eq => exact absurd hcmp hcode
    | gt => rfl

instance : TransCmp compare :=
  transCmp_of_eq place compare_eq_place

end Scalar

namespace Operand

/-- Null comes first: no type has its code. -/
def place : Operand → Place
  | none => ⟨Ty.null.code, 0, 0, []⟩
  | some v => v.place

theorem compare_eq_place : ∀ v w : Operand, v.compare w = v.place.compare w.place
  | none, none => rfl
  | none, some w => by cases w <;> rfl
  | some v, none => by cases v <;> rfl
  | some v, some w => v.compare_eq_place w

instance : TransCmp compare :=
  transCmp_of_eq place compare_eq_place

/-- Operands of different types, null among them, compare as the codes of their
types do. -/
theorem compare_of_ty_ne : ∀ {v w : Operand}, v.ty ≠ w.ty →
    v.compare w = Ord.compare v.ty.code w.ty.code
  | none, none, h => absurd rfl h
  | none, some w, _ => by cases w <;> rfl
  | some v, none, _ => by cases v <;> rfl
  | some _, some _, h => Scalar.compare_of_ty_ne h

end Operand

namespace Row

theorem compare_eq_compareLex : ∀ a b : Row, compare a b = List.compareLex Operand.compare a b
  | [], [] => rfl
  | [], _ :: _ => rfl
  | _ :: _, [] => rfl
  | v :: a, w :: b => by
      rw [compare, compare_eq_compareLex a b, List.compareLex_cons_cons]

instance : TransCmp compare :=
  transCmp_of_eq id compare_eq_compareLex

/-- A proper start of a row comes before it. -/
theorem compare_append {b : Row} (hb : b ≠ []) : ∀ a : Row, compare a (a ++ b) = .lt
  | [] => by
      cases b with
      | nil => exact absurd rfl hb
      | cons w b => rfl
  | v :: a => by
      rw [List.cons_append, compare, Operand.compare_self, compare_append hb a]
      rfl

end Row

/-! ## Equality -/

namespace Binary

variable {f : Format}

theorem same_comm (x y : Binary f) : x.same y = y.same x := by
  have hcompare : x.partialCompare y = some .eq ↔ y.partialCompare x = some .eq := by
    simp only [partialCompare, Bool.or_comm x.isNaN]
    split
    · exact Iff.rfl
    · rw [Option.some.injEq, Option.some.injEq, Std.compare_eq_iff_eq, Std.compare_eq_iff_eq,
        eq_comm]
  rw [Bool.eq_iff_iff]
  simp only [same, Bool.or_eq_true, beq_iff_eq, hcompare, Bool.and_comm x.isNaN]

theorem totalCompare_of_same {x y : Binary f} (h : x.same y = true) :
    x.totalCompare y = .eq := by
  rw [same, Bool.or_eq_true, Bool.and_eq_true, beq_iff_eq] at h
  rcases h with ⟨hx, hy⟩ | h
  · rw [totalCompare, rank, rank, if_pos hx, if_pos hy]
    exact Std.compare_self
  · rw [partialCompare] at h
    split at h
    · cases h
    · exact Option.some.inj h

/-- A NaN is equal to every NaN and above all else. -/
theorem totalCompare_of_isNaN {x y : Binary f} (hx : x.isNaN = true) :
    x.totalCompare y = if y.isNaN then .eq else .gt := by
  cases hy : y.isNaN with
  | true =>
      rw [totalCompare, rank, rank, if_pos hx, if_pos hy]
      exact Std.compare_self
  | false =>
      have hle := magnitude_le_of_not_isNaN hy
      have hlt : y.rank < x.rank := by
        rw [rank, rank, hy, if_pos hx]
        split
        · contradiction
        · split <;> omega
      rw [totalCompare]
      exact compare_gt_iff_gt.mpr hlt

/-- The two zeros are equal. -/
theorem totalCompare_of_isZero {x y : Binary f} (hx : x.isZero = true) (hy : y.isZero = true) :
    x.totalCompare y = .eq := by
  have hrank : ∀ z : Binary f, z.isZero = true → z.rank = 0 := by
    intro z hz
    have hmagnitude : z.magnitude = 0 := by simpa [isZero] using hz
    simp [rank, isNaN, hmagnitude]
  rw [totalCompare, hrank x hx, hrank y hy]
  exact Std.compare_self

end Binary

namespace Scalar

theorem same_comm (v w : Scalar) : v.same w = w.same v := by
  cases v <;> cases w <;> try rfl
  case int32.int32 m n => exact Bool.beq_comm
  case int64.int64 m n => exact Bool.beq_comm
  case bool.bool a b => exact Bool.beq_comm
  case float32.float32 x y => exact x.same_comm y
  case float64.float64 x y => exact x.same_comm y
  case decimal.decimal a b => exact a.same_comm b
  case string.string s t => exact Bool.beq_comm

theorem compare_of_same : ∀ {v w : Scalar}, ¬Apart v w → v.same w = true → v.compare w = .eq
  | int32 _, int32 _, _, h => Std.compare_eq_iff_eq.mpr (eq_of_beq h)
  | int64 _, int64 _, _, h => Std.compare_eq_iff_eq.mpr (eq_of_beq h)
  | bool _, bool _, _, h => Std.compare_eq_iff_eq.mpr (eq_of_beq h)
  | float32 _, float32 _, _, h => Binary.totalCompare_of_same h
  | float64 _, float64 _, _, h => Binary.totalCompare_of_same h
  | decimal _, decimal _, hapart, h => Decimal.compare_of_same hapart h
  | string _, string _, _, h => compareText_eq_iff.mpr (eq_of_beq h)

end Scalar

theorem Operand.same_comm : ∀ v w : Operand, v.same w = w.same v
  | none, none => rfl
  | none, some _ => rfl
  | some _, none => rfl
  | some v, some w => Scalar.same_comm v w

/-- Operands are equal if they are of one value, and only then, unless they are
apart. -/
theorem Operand.same_iff : ∀ {v w : Operand}, ¬Apart v w →
    (v.same w = true ↔ v.compare w = .eq)
  | none, none, _ => iff_of_true rfl rfl
  | none, some _, _ => iff_of_false nofun nofun
  | some _, none, _ => iff_of_false nofun nofun
  | some _, some _, h =>
      ⟨Scalar.compare_of_same h, fun heq => (Scalar.same_eq_true_iff heq).mpr h⟩

theorem Row.same_comm : ∀ a b : Row, a.same b = b.same a
  | [], [] => rfl
  | [], _ :: _ => rfl
  | _ :: _, [] => rfl
  | v :: a, w :: b => by rw [same, same, Operand.same_comm v w, same_comm a b]

theorem Row.same_iff : ∀ {a b : Row}, ¬Apart a b → (a.same b = true ↔ a.compare b = .eq)
  | [], [], _ => iff_of_true rfl rfl
  | [], _ :: _, _ => iff_of_false nofun nofun
  | _ :: _, [], _ => iff_of_false nofun nofun
  | v :: a, w :: b, h => by
      rw [apart_cons_iff, not_or] at h
      rw [same, Bool.and_eq_true, Operand.same_iff h.1, same_iff h.2, compare_cons_eq_iff]

/-! ## The laws -/

/-- An equality beside an order. The order is total, and equality is what the
order takes for equal, except where things are apart: there the order takes
things for equal that equality tells apart. -/
structure Lawful {α : Type} (apart : α → α → Prop) (same : α → α → Bool)
    (compare : α → α → Ordering) : Prop where
  swap : ∀ a b, compare b a = (compare a b).swap
  total : ∀ a b, (compare a b).isLE ∨ (compare b a).isLE
  trans : ∀ a b c, (compare a b).isLE → (compare b c).isLE → (compare a c).isLE
  agree : ∀ a b, ¬apart a b → (same a b = true ↔ compare a b = .eq)
  disagree : ∀ a b, apart a b → compare a b = .eq → same a b = false
  antisymm : ∀ a b, ¬apart a b → (compare a b).isLE → (compare b a).isLE → same a b = true
  same_refl : ∀ a, same a a = true
  same_symm : ∀ a b, same a b = true → same b a = true
  same_trans : ∀ a b c, ¬apart a b → ¬apart b c → ¬apart a c →
    same a b = true → same b c = true → same a c = true

/-- A transitive order makes the laws of an equality that agrees with it. -/
theorem Lawful.of_agree {α : Type} {apart : α → α → Prop} {same : α → α → Bool}
    {compare : α → α → Ordering} [TransCmp compare]
    (hrefl : ∀ a, same a a = true) (hcomm : ∀ a b, same a b = same b a)
    (hagree : ∀ a b, ¬apart a b → (same a b = true ↔ compare a b = .eq))
    (hapart : ∀ a b, compare a b = .eq → (same a b = true ↔ ¬apart a b)) :
    Lawful apart same compare where
  swap _ _ := Std.OrientedCmp.eq_swap
  total a b := by
    have hswap : compare b a = (compare a b).swap := Std.OrientedCmp.eq_swap
    rw [hswap]
    cases compare a b <;> simp
  trans _ _ _ := TransCmp.isLE_trans
  agree := hagree
  disagree a b h heq := by
    rw [Bool.eq_false_iff, ne_eq, hapart a b heq]
    exact not_not_intro h
  antisymm a b h hab hba := (hagree a b h).mpr (Std.OrientedCmp.isLE_antisymm hab hba)
  same_refl := hrefl
  same_symm a b h := by rwa [hcomm b a]
  same_trans a b c hab hbc hac h₁ h₂ :=
    (hagree a c hac).mpr <|
      TransCmp.eq_trans ((hagree a b hab).mp h₁) ((hagree b c hbc).mp h₂)

theorem Operand.lawful : Lawful Apart same compare :=
  .of_agree same_self same_comm (fun _ _ => same_iff) fun _ _ => same_eq_true_iff

theorem Row.lawful : Lawful Apart same compare :=
  .of_agree same_self same_comm (fun _ _ => same_iff) fun _ _ => same_eq_true_iff

/-- Operands and rows are lawfully compared, those aside that are apart.
Operands of different types compare as the codes of their types do. Every NaN
is equal to itself and above all other floats, and the zeros are equal; decimals
compare by value, and strings by the bytes of their UTF-8 form. Rows compare
column by column, a proper start of a row before it. -/
theorem order_lawful {f : Format} (x y : Binary f) (d d' : Decimal) (s t : String)
    (v w : Operand) (a b : Row) :
    Lawful Operand.Apart Operand.same Operand.compare ∧
      Lawful Row.Apart Row.same Row.compare ∧
      (v.ty ≠ w.ty → v.compare w = compare v.ty.code w.ty.code) ∧
      (x.isNaN = true →
        (Scalar.ofBinary x).compare (.ofBinary y) = if y.isNaN then .eq else .gt) ∧
      (x.isZero = true → y.isZero = true →
        (Scalar.ofBinary x).compare (.ofBinary y) = .eq) ∧
      (Scalar.decimal d).compare (.decimal d') =
        compare (d.unscaled * 10 ^ (-d.scale) : ℚ) (d'.unscaled * 10 ^ (-d'.scale)) ∧
      (Scalar.string s).compare (.string t) =
        compare s.toUTF8.data.toList t.toUTF8.data.toList ∧
      Row.compare (v :: a) (w :: b) = (v.compare w).then (a.compare b) ∧
      (b ≠ [] → Row.compare a (a ++ b) = .lt) := by
  rw [Scalar.compare_ofBinary]
  refine ⟨Operand.lawful, Row.lawful, Operand.compare_of_ty_ne, Binary.totalCompare_of_isNaN,
    Binary.totalCompare_of_isZero, ?_, rfl, rfl, fun hb => Row.compare_append hb a⟩
  exact Decimal.compare_eq_compare_value d d'

/-- One value with no zero, five zeros and ten zeros after the point. The rows
compare equal, and each is equal to the next, but the first and the last are
told apart. -/
theorem Row.same_not_trans :
    let a : Row := [some (.decimal ⟨7922816251533193472, 0⟩)]
    let b : Row := [some (.decimal ⟨792281625153319347200000, 5⟩)]
    let c : Row := [some (.decimal ⟨79228162515331934720000000000, 10⟩)]
    (a.compare b = .eq ∧ b.compare c = .eq ∧ a.compare c = .eq) ∧
      a.same b = true ∧ b.same c = true ∧ a.same c = false := by
  intro a b c
  have hab : a.compare b = .eq := by decide
  have hbc : b.compare c = .eq := by decide
  have hac : a.compare c = .eq := by decide
  refine ⟨⟨hab, hbc, hac⟩, ?_, ?_, ?_⟩
  · rw [Row.same_eq_true_iff hab]
    simp [a, b, Row.Apart, Operand.Apart, Scalar.Apart, Decimal.Apart]
  · rw [Row.same_eq_true_iff hbc]
    simp [b, c, Row.Apart, Operand.Apart, Scalar.Apart, Decimal.Apart]
  · rw [Bool.eq_false_iff, ne_eq, Row.same_eq_true_iff hac]
    refine not_not_intro ?_
    exact ⟨_, List.mem_singleton_self _, Or.inr ⟨rfl, Decimal.slips_carry⟩⟩

end RowCode
