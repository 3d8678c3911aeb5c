import ModuleLoader.Number.Binary

/-!
The remainder of two doubles: the exact remainder of the truncating division, with the sign of the
dividend. It is always a double itself, so no rounding takes place.
-/
namespace ModuleLoader.Number

/-- The bits of the double `count * 2 ^ exponent`; exact whenever that value is a double. The
significand is shifted to fifty-three bits, or to the least exponent there is. -/
def magnitudeBits (count : Nat) (exponent : Int) : Nat :=
  if count = 0 then 0
  else
    let target := max (exponent + count.log2 - 52) (-1074)
    let significand := count * twoTo (exponent - target).toNat / twoTo (target - exponent).toNat
    if significand < twoTo 52 then significand
    else (target + 1075).toNat * twoTo 52 + (significand - twoTo 52)

/-- The double `± count * 2 ^ exponent`. -/
def ofScaled (negative : Bool) (count : Nat) (exponent : Int) : Float :=
  Float.ofBits (UInt64.ofNat (magnitudeBits count exponent + if negative then twoTo 63 else 0))

/-- The remainder of finite values: both are multiples of a common power of two. -/
def Binary.remainder (a b : Binary) : Float :=
  let exponent := min a.exponent b.exponent
  let dividend := a.significand * twoTo (a.exponent - exponent).toNat
  let divisor := b.significand * twoTo (b.exponent - exponent).toNat
  ofScaled a.negative (dividend % divisor) exponent

/-- The remainder of `x` by `y`: not a number for a zero divisor or an infinite dividend, the
dividend itself for an infinite divisor. -/
def remainder (x y : Float) : Float :=
  match Reading.ofFloat x, Reading.ofFloat y with
  | .finite a, .finite b =>
    if b.significand = 0 then Float.ofBits 0x7ff8000000000000 else a.remainder b
  | .finite _, .infinite _ => x
  | _, _ => Float.ofBits 0x7ff8000000000000

end ModuleLoader.Number
