import ModuleLoader.Number.Power

/-!
A finite double as a signed significand times a power of two, read off its bits. The split is
exact, so questions about the value (is it an integer, which decimals read back as it) are
questions about natural numbers.
-/
namespace ModuleLoader.Number

/-- The value `± significand * 2 ^ exponent`. -/
structure Binary where
  negative : Bool
  significand : Nat
  exponent : Int
deriving Repr, DecidableEq

/-- What a double stands for. -/
inductive Reading where
  | nan
  | infinite (negative : Bool)
  | finite (value : Binary)
deriving Repr, DecidableEq

/-- The reading of a bit pattern: one sign bit, eleven of exponent, fifty-two of fraction. -/
def Reading.ofBits (bits : UInt64) : Reading :=
  let fraction := bits.toNat % twoTo 52
  let biased : Nat := bits.toNat / twoTo 52 % twoTo 11
  let negative := bits.toNat / twoTo 63 == 1
  if biased = 2047 then
    if fraction = 0 then .infinite negative else .nan
  else if biased = 0 then .finite ⟨negative, fraction, -1074⟩
  else .finite ⟨negative, twoTo 52 + fraction, (biased : Int) - 1075⟩

def Reading.ofFloat (x : Float) : Reading :=
  Reading.ofBits x.toBits

def Binary.magnitude? (b : Binary) : Option Nat :=
  if 0 ≤ b.exponent then some (b.significand * twoTo b.exponent.toNat)
  else
    let unit := twoTo (-b.exponent).toNat
    if b.significand % unit = 0 then some (b.significand / unit) else none

/-- The value as an integer, when it is one; both zeros give `0`. -/
def Binary.integer? (b : Binary) : Option Int :=
  b.magnitude?.map fun n => if b.negative then -(n : Int) else n

/-- Integers of a magnitude below this bound are told apart from all their neighbours. -/
def exactBound : Nat := twoTo 53

/-- The value of a double as an integer below `exactBound` in magnitude, when it is one. -/
def integer? (x : Float) : Option Int :=
  match Reading.ofFloat x with
  | .finite b => b.integer?.filter fun i => i.natAbs < exactBound
  | _ => none

end ModuleLoader.Number
