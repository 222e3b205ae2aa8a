import RowCode.Decimal.Basic
import RowCode.Operand.Basic
import RowCode.Text.Digits

/-!
# Digests of rows

A digest is a number below `2 ^ 64`, made from the bytes of a row one after the other (FNV-1a). It
depends on values alone: rows that compare equal have one digest. Each operand gives the code of
its type first. Floats of either format come in the layout of the wide one, all NaNs as one of
them and both zeros as the positive one; a decimal is written without its point, so that powers of
ten below one have the digest of one.
-/

namespace RowCode

namespace Digest

/-- The digest of no bytes. -/
def basis : Nat := 0xcbf29ce484222325

def prime : Nat := 0x100000001b3

/-- The digest with one more byte. -/
def stir (digest : Nat) (byte : UInt8) : Nat :=
  (digest ^^^ byte.toNat) * prime % 2 ^ 64

/-- The lowest bytes of a number, the lowest first. -/
def lowBytes : (count : Nat) → Nat → List UInt8
  | 0, _ => []
  | count + 1, n => UInt8.ofNat n :: lowBytes count (n / 256)

/-- The significand, the exponent and the sign of a float, in fields of 52, 11 and 1 bits. The
leading one of the significand falls out of its field. -/
def floatWord {f : Format} (x : Binary f) : Nat :=
  if x.isNaN then 0x7ff8000000000000
  else
    let field := x.magnitude / 2 ^ f.fractionBits
    let fraction := x.magnitude % 2 ^ f.fractionBits
    let significand := if field = 0 then 2 * fraction else 2 ^ f.fractionBits + fraction
    let exponent := ((field : Int) + f.minExponent - 1) % 2 ^ 11
    let sign := if x.negative && !x.isZero then 0 else 2 ^ 63
    significand % 2 ^ 52 + exponent.toNat * 2 ^ 52 + sign

/-- The digits of the value: all of an integer, otherwise those up to the last that is not zero. -/
def figures (d : Decimal) : List Char :=
  let d := d.normal
  Text.signed d.negative (Text.digits (d.unscaled.natAbs * 10 ^ (-d.scale).toNat))

/-- The bytes of a text, with one behind it that no text has. -/
def textBytes (s : String) : List UInt8 :=
  s.toUTF8.data.toList ++ [0xff]

end Digest

open Digest

def Scalar.bytes : Scalar → List UInt8
  | int32 n => lowBytes 4 n.toBitVec.toNat
  | int64 n => lowBytes 8 n.toBitVec.toNat
  | bool b => [if b then 1 else 0]
  | float32 x => lowBytes 8 (floatWord x)
  | float64 x => lowBytes 8 (floatWord x)
  | decimal d => textBytes (String.ofList (figures d))
  | string s => textBytes s

def Operand.bytes (v : Operand) : List UInt8 :=
  lowBytes 8 v.ty.code ++ v.elim [] Scalar.bytes

def Row.digest (row : Row) : Nat :=
  (lowBytes 8 row.length ++ row.flatMap Operand.bytes).foldl stir basis

end RowCode
