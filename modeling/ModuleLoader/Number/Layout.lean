import ModuleLoader.Number.Shortest

/-!
How a decimal is laid out as text: positional, or with an exponent when a layout asks for it. The
two layouts of the library are records of the same type.
-/
namespace ModuleLoader.Number

/-- The decisions of a number format. The point's position `p` is the one for which the value is
`0.d₁d₂… * 10 ^ p`. -/
structure Layout where
  /-- Positions of the point that are written without an exponent. -/
  positional : Int → Bool
  /-- An integer still gets a point and a zero. -/
  keepsPoint : Bool
  /-- Which of two equally short and near decimals is written. -/
  tie : Tie

/-- Script text: never an exponent, a point only before a fraction. -/
def scriptLayout : Layout :=
  { positional := fun _ => true, keepsPoint := false, tie := .larger }

/-- JSON text: positional from `0.00001` up to below `10 ^ 16`, always with a point. -/
def jsonLayout : Layout :=
  { positional := fun p => -5 < p && p ≤ 16, keepsPoint := true, tie := .even }

def decimalDigits (n : Nat) : List Char :=
  Nat.toDigits 10 n

def Decimal.positional (d : Decimal) (keepsPoint : Bool) : List Char :=
  let ds := decimalDigits d.digits
  let point : Int := ds.length + d.exponent
  if point ≤ 0 then '0' :: '.' :: List.replicate (-point).toNat '0' ++ ds
  else if (ds.length : Int) ≤ point then
    ds ++ List.replicate (point - ds.length).toNat '0' ++ (if keepsPoint then ['.', '0'] else [])
  else ds.take point.toNat ++ '.' :: ds.drop point.toNat

/-- The decimal with one digit before the point and a signed exponent. -/
def Decimal.exponential (d : Decimal) : List Char :=
  let ds := decimalDigits d.digits
  let power : Int := ds.length + d.exponent - 1
  let mantissa := match ds with
    | first :: next :: rest => first :: '.' :: next :: rest
    | short => short
  mantissa ++ 'e' :: (if power < 0 then '-' else '+') :: decimalDigits power.natAbs

def Layout.text (layout : Layout) (b : Binary) : String :=
  let d := b.shortest layout.tie
  let point : Int := (decimalDigits d.digits).length + d.exponent
  let magnitude :=
    if layout.positional point then d.positional layout.keepsPoint else d.exponential
  String.ofList (if b.negative then '-' :: magnitude else magnitude)

def integerText (i : Int) : String :=
  String.ofList
    (if i < 0 then '-' :: decimalDigits i.natAbs else decimalDigits i.natAbs)

/-- The text of a number in scripts: integers below `exactBound` as such, the special values by
name, all else in the script layout. -/
def text (x : Float) : String :=
  match integer? x with
  | some i => integerText i
  | none =>
    match Reading.ofFloat x with
    | .nan => "NaN"
    | .infinite true => "-Infinity"
    | .infinite false => "Infinity"
    | .finite b => scriptLayout.text b

/-- The text of a number inside a diagnostic about tokens: as in scripts, with another name for
infinity. -/
def tokenText (x : Float) : String :=
  match Reading.ofFloat x with
  | .nan => "NaN"
  | .infinite true => "-inf"
  | .infinite false => "inf"
  | .finite b => scriptLayout.text b

end ModuleLoader.Number
