import Mathlib.Data.BitVec

/-! # The 32-bit operators of JavaScript

A number goes through a signed 32-bit integer and comes back as one. Seen as a bit vector nothing
else happens, so a chain of these operators is the chain on bit vectors.
-/

namespace Lib.JsInt32

/-- `ToInt32`. -/
def toInt32 (x : Int) : Int := (BitVec.ofInt 32 x).toInt

/-- `x ^ y`. -/
def bitXor (x y : Int) : Int := (BitVec.ofInt 32 x ^^^ BitVec.ofInt 32 y).toInt

/-- `Math.imul`. -/
def imul (x y : Int) : Int := toInt32 (toInt32 x * toInt32 y)

/-- `x >>> 0`. -/
def toUint32 (x : Int) : Nat := (BitVec.ofInt 32 x).toNat

theorem ofInt_toInt32 (x : Int) : BitVec.ofInt 32 (toInt32 x) = BitVec.ofInt 32 x :=
  BitVec.ofInt_toInt

theorem ofInt_bitXor (x y : Int) :
    BitVec.ofInt 32 (bitXor x y) = BitVec.ofInt 32 x ^^^ BitVec.ofInt 32 y :=
  BitVec.ofInt_toInt

theorem ofInt_imul (x y : Int) :
    BitVec.ofInt 32 (imul x y) = BitVec.ofInt 32 x * BitVec.ofInt 32 y := by
  unfold imul
  rw [ofInt_toInt32, BitVec.ofInt_mul, ofInt_toInt32, ofInt_toInt32]

end Lib.JsInt32
