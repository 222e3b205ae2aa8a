import RowCode.Operator.Cast
import RowCode.Operator.Comparison
import RowCode.Operator.TextFn
import RowCode.Operator.Truth
import RowCode.Binary.Function

/-!
# The operator catalog

Every operator of the language, as a closed type. An operator together with the type it is used
on is one `Operator`; a combination that the language leaves undefined has no constructor.

`Operator.kernel` gives each operator its meaning, as one of five shapes. A *strict* kernel works
on plain values and the result is null as soon as one argument is; a *lenient* kernel sees the
nulls. The types of arguments and result are part of a kernel, so that what it computes is of the
announced type by construction.
-/

namespace RowCode

/-- What an operator does with its arguments. -/
inductive Kernel where
  | strict1 (a r : Ty) (f : a.Carrier → Except Fault (Option r.Carrier))
  | strict2 (a b r : Ty) (f : a.Carrier → b.Carrier → Except Fault (Option r.Carrier))
  | strict3 (a b c r : Ty)
      (f : a.Carrier → b.Carrier → c.Carrier → Except Fault (Option r.Carrier))
  | lenient1 (a r : Ty) (f : Option a.Carrier → Option r.Carrier)
  | lenient2 (a b r : Ty) (f : Option a.Carrier → Option b.Carrier → Option r.Carrier)

namespace Kernel

/-- The types of the arguments, the last one first, as they lie on the stack. -/
def arguments : Kernel → List Ty
  | strict1 a _ _ => [a]
  | strict2 a b _ _ => [b, a]
  | strict3 a b c _ _ => [c, b, a]
  | lenient1 a _ _ => [a]
  | lenient2 a b _ _ => [b, a]

def result : Kernel → Ty
  | strict1 _ r _ => r
  | strict2 _ _ r _ => r
  | strict3 _ _ _ r _ => r
  | lenient1 _ r _ => r
  | lenient2 _ _ r _ => r

/-- A strict function of one argument that always has a value. -/
def total1 (a r : Ty) (f : a.Carrier → r.Carrier) : Kernel :=
  strict1 a r fun x => .ok (some (f x))

/-- A strict function of two arguments that always has a value. -/
def total2 (a b r : Ty) (f : a.Carrier → b.Carrier → r.Carrier) : Kernel :=
  strict2 a b r fun x y => .ok (some (f x y))

end Kernel

inductive Operator where
  | sign (f : SignFn) (t : NumTy)
  | arith (op : ArithOp) (t : NumTy)
  | rem (t : IntTy)
  | join (j : Join)
  | relation (r : Relation) (t : ValueTy)
  | extreme (e : Extreme) (t : ValueTy)
  | test (q : Test) (t : Ty)
  | not
  | connective (c : Connective)
  | cast (checked : Bool) (src dst : ValueTy) (defined : Cast.Defined src dst)
  | math (f : MathFn)
  | text (f : TextFn)
  | cut (f : CutFn)
  | range (f : RangeFn)
deriving Repr, DecidableEq

namespace Operator

def kernel : Operator → Kernel
  | sign f t => .strict1 t.ty t.ty fun x => some <$> f.apply t.arith x
  | arith op t => .strict2 t.ty t.ty t.ty (op.apply t.arith)
  | rem t => .strict2 t.ty t.ty t.ty fun x y => .ok (t.rem? x y)
  | join j => .total2 .string .string .string j.apply
  | relation r t => .total2 t.ty t.ty .bool (r.holds t)
  | extreme e t => .total2 t.ty t.ty t.ty (e.pick t)
  | test q t => .lenient1 t .bool fun x => some (q.apply t x)
  | not => .lenient1 .bool .bool Truth.not
  | connective c => .lenient2 .bool .bool .bool c.apply
  | cast checked src dst _ =>
    .strict1 src.ty dst.ty fun x => some <$> Cast.convert checked src dst x
  | math f => .total1 .float64 .float64 f.apply
  | text f => .total1 .string .string f.apply
  | cut f => .total2 .string .int32 .string f.apply
  | range f => .strict3 .string .int32 .int32 .string fun s m n => .ok (some (f.apply s m n))

def result (op : Operator) : Ty := op.kernel.result

end Operator

end RowCode
