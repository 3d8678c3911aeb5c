/-!
Hexadecimal digits, in both cases when read and in lower case when written.
-/
namespace ModuleLoader.Text

def hexValue? (c : Char) : Option Nat :=
  if '0' ≤ c ∧ c ≤ '9' then some (c.toNat - '0'.toNat)
  else if 'a' ≤ c ∧ c ≤ 'f' then some (c.toNat - 'a'.toNat + 10)
  else if 'A' ≤ c ∧ c ≤ 'F' then some (c.toNat - 'A'.toNat + 10)
  else none

def isHexDigit (c : Char) : Bool :=
  (hexValue? c).isSome

/-- The number spelled by hexadecimal digits, most significant first. -/
def hexNumber? (ds : List Char) : Option Nat :=
  ds.foldl (fun n c => do return 16 * (← n) + (← hexValue? c)) (some 0)

/-- The lower-case hexadecimal digits of a number, without leading zeros. -/
def hexDigits (n : Nat) : List Char :=
  Nat.toDigits 16 n

end ModuleLoader.Text
