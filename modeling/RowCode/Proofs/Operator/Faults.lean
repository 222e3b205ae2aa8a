import RowCode.Operator.Basic

/-!
# Faults of operators

A function of values fails because of the values it is given: a result is out
of the range of its type, or a text does not denote a value. `Fault.OfValue`
are the faults that say so, and `Operator.tame` says that an operator whose
arguments are of its types has no others. All other faults come from the
machine, which takes the arguments off the stack.

The lemmas follow the definitions, one for each function that can fail.
-/

namespace RowCode

/-- A fault that the values of arguments give rise to. -/
def Fault.OfValue : Fault → Prop
  | .overflow _ => True
  | .invalidCast _ _ => True
  | _ => False

/-- A computation that fails because of values only. -/
inductive Tame {α : Type} : Except Fault α → Prop where
  | ok (v : α) : Tame (.ok v)
  | error {e : Fault} (h : e.OfValue) : Tame (.error e)

theorem Tame.map {α β : Type} {x : Except Fault α} (f : α → β) (h : Tame x) :
    Tame (f <$> x) := by
  cases h with
  | ok v => exact .ok (f v)
  | error h => exact .error h

/-! ## Arithmetic -/

namespace Window

variable {α : Type} (w : Window α)

theorem tame_exact (n : Int) : Tame (w.exact n) := by
  rw [exact]
  split
  · exact .ok _
  · exact .error trivial

end Window

/-- The arithmetic of a type, all of it tame. -/
structure Arith.Tame {α : Type} (m : Arith α) : Prop where
  add : ∀ a b, RowCode.Tame (m.add a b)
  sub : ∀ a b, RowCode.Tame (m.sub a b)
  mul : ∀ a b, RowCode.Tame (m.mul a b)
  div : ∀ a b, RowCode.Tame (m.div a b)
  neg : ∀ a, RowCode.Tame (m.neg a)
  absChecked : ∀ a, RowCode.Tame (m.absChecked a)

namespace Arith

theorem tame_ofWindow {α : Type} (w : Window α) : (ofWindow w).Tame where
  add _ _ := w.tame_exact _
  sub _ _ := w.tame_exact _
  mul _ _ := w.tame_exact _
  div a b := by
    rw [ofWindow]
    dsimp only
    split
    · exact .ok none
    · exact (w.tame_exact _).map some
  neg _ := w.tame_exact _
  absChecked _ := w.tame_exact _

theorem tame_binary (f : Format) : (binary f).Tame where
  add _ _ := .ok _
  sub _ _ := .ok _
  mul _ _ := .ok _
  div _ _ := .ok _
  neg _ := .ok _
  absChecked _ := .ok _

theorem tame_decimal : decimal.Tame where
  add _ _ := .ok _
  sub _ _ := .ok _
  mul a b := by
    rw [decimal]
    dsimp only
    split
    · exact .ok _
    · exact .error trivial
  div _ _ := .ok _
  neg _ := .ok _
  absChecked _ := .ok _

end Arith

theorem NumTy.tame_arith : ∀ t : NumTy, t.arith.Tame
  | .int32 => Arith.tame_ofWindow _
  | .int64 => Arith.tame_ofWindow _
  | .float32 => Arith.tame_binary _
  | .float64 => Arith.tame_binary _
  | .decimal => Arith.tame_decimal

theorem SignFn.tame_apply {α : Type} {m : Arith α} (h : m.Tame) :
    ∀ (f : SignFn) (a : α), Tame (f.apply m a)
  | pos, _ => .ok _
  | neg, a => h.neg a
  | abs, _ => .ok _
  | absCheck, a => h.absChecked a

theorem ArithOp.tame_apply {α : Type} {m : Arith α} (h : m.Tame) :
    ∀ (op : ArithOp) (a b : α), Tame (op.apply m a b)
  | add, a, b => (h.add a b).map some
  | sub, a, b => (h.sub a b).map some
  | mul, a, b => (h.mul a b).map some
  | div, a, b => h.div a b

/-! ## Casts -/

theorem tame_readDecimal (s : String) : Tame (readDecimal s) := by
  rw [readDecimal]
  rcases Decimal.parse s with (_ | _) | d
  · exact .error trivial
  · exact .error trivial
  · exact .ok d

namespace Cast

variable {α : Type} {f : Format}

theorem tame_intoWindow (w : Window α) (checked : Bool) (n : Int) :
    Tame (intoWindow w checked n) := by
  cases checked with
  | true => exact w.tame_exact n
  | false => exact .ok _

theorem tame_roundInto (w : Window α) (x : Double) : Tame (roundInto w x) := by
  rw [roundInto]
  split
  · exact .ok _
  · exact .error trivial

theorem tame_roundInto64 (x : Double) : Tame (roundInto64 x) := by
  rw [roundInto64]
  split
  · exact .error trivial
  · exact tame_roundInto _ x

theorem tame_keepFinite (ty : Ty) (checked fromFinite : Bool) (x : Binary f) :
    Tame (keepFinite ty checked fromFinite x) := by
  rw [keepFinite]
  split
  · exact .error trivial
  · exact .ok x

theorem tame_readInto (w : Window α) (s : String) : Tame (readInto w s) := by
  rw [readInto]
  split
  · exact .ok _
  · exact .error trivial

theorem tame_readFloat (f : Format) (ty : Ty) (s : String) :
    Tame (readFloat ty s : Except Fault (Binary f)) := by
  rw [readFloat]
  split
  · exact .ok _
  · exact .error trivial

theorem tame_toDecimal (x : Binary f) : Tame (toDecimal x) := by
  rw [toDecimal]
  rcases Decimal.ofBinary x with (_ | _) | d
  · exact .error trivial
  · exact .error trivial
  · exact .ok d

theorem tame_ofInteger (checked : Bool) (n : Int) : ∀ dst : ValueTy,
    Tame (ofInteger checked n dst)
  | .int32 => by
      rw [ofInteger]
      split
      · exact Window.int32.tame_exact n
      · exact .ok _
  | .int64 => .ok _
  | .bool => .ok _
  | .float32 => .ok _
  | .float64 => .ok _
  | .decimal => .ok _
  | .string => .ok _

theorem tame_ofBool (b : Bool) : ∀ dst : ValueTy, Tame (ofBool b dst)
  | .int32 => tame_ofInteger true _ .int32
  | .int64 => tame_ofInteger true _ .int64
  | .bool => .ok _
  | .float32 => tame_ofInteger true _ .float32
  | .float64 => tame_ofInteger true _ .float64
  | .decimal => tame_ofInteger true _ .decimal
  | .string => .ok _

theorem tame_ofFloat (checked : Bool) (x : Binary f) : ∀ dst : ValueTy,
    Tame (ofFloat checked x dst)
  | .int32 => by
      rw [ofFloat]
      split
      · exact tame_roundInto _ _
      · exact .ok _
  | .int64 => by
      rw [ofFloat]
      split
      · exact tame_roundInto64 _
      · exact .ok _
  | .bool => .ok _
  | .float32 => tame_keepFinite _ checked _ _
  | .float64 => .ok _
  | .decimal => tame_toDecimal x
  | .string => .ok _

theorem tame_ofDecimal (checked : Bool) (d : Decimal) : ∀ dst : ValueTy,
    Tame (ofDecimal checked d dst)
  | .int32 => tame_intoWindow _ checked _
  | .int64 => tame_intoWindow _ checked _
  | .bool => .ok _
  | .float32 => tame_keepFinite _ checked _ _
  | .float64 => tame_keepFinite _ checked _ _
  | .decimal => .ok _
  | .string => .ok _

theorem tame_ofString (s : String) : ∀ dst : ValueTy, Tame (ofString s dst)
  | .int32 => tame_readInto _ s
  | .int64 => tame_readInto _ s
  | .bool => .error trivial
  | .float32 => tame_readFloat .single .float32 s
  | .float64 => tame_readFloat .double .float64 s
  | .decimal => tame_readDecimal s
  | .string => .ok _

theorem tame_convert (checked : Bool) : ∀ (src dst : ValueTy) (v : src.Carrier),
    Tame (convert checked src dst v)
  | .int32, dst, _ => tame_ofInteger checked _ dst
  | .int64, dst, _ => tame_ofInteger checked _ dst
  | .bool, dst, b => tame_ofBool b dst
  | .float32, dst, x => tame_ofFloat checked x dst
  | .float64, dst, x => tame_ofFloat checked x dst
  | .decimal, dst, d => tame_ofDecimal checked d dst
  | .string, dst, s => tame_ofString s dst

end Cast

/-! ## Operators -/

/-- A kernel whose function is tame, whatever values it is given. -/
def Kernel.Tame : Kernel → Prop
  | strict1 _ _ f => ∀ x, RowCode.Tame (f x)
  | strict2 _ _ _ f => ∀ x y, RowCode.Tame (f x y)
  | strict3 _ _ _ _ f => ∀ x y z, RowCode.Tame (f x y z)
  | lenient1 _ _ _ => True
  | lenient2 _ _ _ _ => True

theorem Operator.tame : ∀ op : Operator, op.kernel.Tame
  | sign f t => fun x => (f.tame_apply t.tame_arith x).map some
  | arith op t => op.tame_apply t.tame_arith
  | rem _ => fun _ _ => .ok _
  | join _ => fun _ _ => .ok _
  | relation _ _ => fun _ _ => .ok _
  | extreme _ _ => fun _ _ => .ok _
  | test _ _ => trivial
  | not => trivial
  | connective _ => trivial
  | cast checked src dst _ => fun x => (Cast.tame_convert checked src dst x).map some
  | math _ => fun _ => .ok _
  | text _ => fun _ => .ok _
  | cut _ => fun _ _ => .ok _
  | range _ => fun _ _ _ => .ok _

end RowCode
