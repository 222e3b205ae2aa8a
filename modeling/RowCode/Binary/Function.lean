import RowCode.Binary.Arith

/-!
# Elementary functions

Rounding up and down is exact and defined here. The trigonometric, hyperbolic and exponential
functions are those of the platform's mathematical library, reached through the bits; the logic
knows nothing of them but that they are functions.
-/

namespace RowCode

/-- The functions of one double. -/
inductive MathFn where
  | ceil
  | floor
  | sin
  | cos
  | tan
  | asin
  | acos
  | atan
  | sinh
  | cosh
  | tanh
  | exp
  | log
deriving Repr, DecidableEq

namespace MathFn

def name : MathFn → String
  | ceil => "ceil"
  | floor => "floor"
  | sin => "sin"
  | cos => "cos"
  | tan => "tan"
  | asin => "asin"
  | acos => "acos"
  | atan => "atan"
  | sinh => "sinh"
  | cosh => "cosh"
  | tanh => "tanh"
  | exp => "exp"
  | log => "log"

/-- Lifts a function of the platform to bits. -/
def onBits (g : Float → Float) (x : Double) : Double :=
  ⟨(g (Float.ofBits (UInt64.ofBitVec x.bits))).toBits.toBitVec⟩

def apply : MathFn → Double → Double
  | ceil => Binary.toIntegral true
  | floor => Binary.toIntegral false
  | sin => onBits Float.sin
  | cos => onBits Float.cos
  | tan => onBits Float.tan
  | asin => onBits Float.asin
  | acos => onBits Float.acos
  | atan => onBits Float.atan
  | sinh => onBits Float.sinh
  | cosh => onBits Float.cosh
  | tanh => onBits Float.tanh
  | exp => onBits Float.exp
  | log => onBits Float.log

end MathFn

end RowCode
