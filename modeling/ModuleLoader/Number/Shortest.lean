import ModuleLoader.Number.Binary

/-!
The shortest decimal that reads back as a given double. The doubles nearest to a real form an
interval around each double; the first decimal grid (one digit, two digits, …) with a point in
that interval is taken, and of two such points the nearer. Everything is exact arithmetic on
natural numbers.
-/
namespace ModuleLoader.Number

/-- The value `digits * 10 ^ exponent`; `digits` ends in no zero unless it is zero. -/
structure Decimal where
  digits : Nat
  exponent : Int
deriving Repr, DecidableEq

/-- Which of two equally near decimals is taken. -/
inductive Tie where
  | larger
  | even
deriving Repr, DecidableEq

/-- A positive rational with the interval that rounds to it: `low / unit ≤ value / unit ≤
high / unit`, the ends included when `closed`. -/
structure Interval where
  low : Nat
  value : Nat
  high : Nat
  unit : Nat
  closed : Bool

/-- The interval of a positive double. Halfway to the next double below is only a quarter of a
unit away when the significand is the least normal one and a smaller exponent exists. -/
def Binary.interval (b : Binary) : Interval :=
  let scale := twoTo (b.exponent - 2).toNat
  let below := if b.significand = twoTo 52 ∧ -1074 < b.exponent then 1 else 2
  { low := (4 * b.significand - below) * scale
    value := 4 * b.significand * scale
    high := (4 * b.significand + 2) * scale
    unit := twoTo (2 - b.exponent).toNat
    closed := b.significand % 2 = 0 }

def digitCount (n : Nat) : Nat :=
  (Nat.toDigits 10 n).length

/-- The exponent `e` with `10 ^ (e - 1) ≤ value < 10 ^ e`. Doubles are above `10 ^ -400`. -/
def Interval.magnitude (i : Interval) : Int :=
  (digitCount (i.value * tenTo 400 / i.unit) : Int) - 400

/-- The decimal point `count * 10 ^ place` lies in the interval. -/
def Interval.holds (i : Interval) (place : Int) (count : Nat) : Bool :=
  let point := count * tenTo place.toNat * i.unit
  let scale := tenTo (-place).toNat
  if i.closed then i.low * scale ≤ point && point ≤ i.high * scale
  else i.low * scale < point && point < i.high * scale

/-- The better of the two points next to the value on the grid of step `10 ^ place`, if any of
them lies in the interval. -/
def Interval.pick? (i : Interval) (tie : Tie) (place : Int) : Option Nat :=
  let scaled := i.value * tenTo (-place).toNat
  let step := i.unit * tenTo place.toNat
  let down := scaled / step
  let up := down + 1
  match i.holds place down, i.holds place up with
  | true, true =>
    let twice := 2 * (scaled % step)
    if twice < step then some down
    else if step < twice then some up
    else match tie with
      | .larger => some up
      | .even => some (if down % 2 = 0 then down else up)
  | true, false => some down
  | false, true => some up
  | false, false => none

def Decimal.normal : Nat → Nat → Int → Decimal
  | 0, digits, exponent => ⟨digits, exponent⟩
  | fuel + 1, digits, exponent =>
    if digits ≠ 0 ∧ digits % 10 = 0 then Decimal.normal fuel (digits / 10) (exponent + 1)
    else ⟨digits, exponent⟩

/-- Tries grids of more and more digits, `left` of them at most. -/
def Interval.search (i : Interval) (tie : Tie) (top : Int) : Nat → Nat → Decimal
  | 0, count => Decimal.normal 20 (i.value * tenTo (count - top).toNat /
      (i.unit * tenTo (top - count).toNat)) (top - count)
  | left + 1, count =>
    match i.pick? tie (top - count) with
    | some digits => Decimal.normal 20 digits (top - count)
    | none => i.search tie top left (count + 1)

/-- The shortest decimal that reads back as a finite double's magnitude; seventeen digits always
suffice. -/
def Binary.shortest (b : Binary) (tie : Tie) : Decimal :=
  if b.significand = 0 then ⟨0, 0⟩
  else
    let i := b.interval
    i.search tie i.magnitude 17 1

end ModuleLoader.Number
