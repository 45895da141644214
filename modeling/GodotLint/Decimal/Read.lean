import GodotLint.Text.CharClass

/-!
# Reading decimal numbers

A sign, digits with or without a point, and an exponent. The double is the one nearest to the
number.
-/

namespace GodotLint.Decimal

open Text

/-- The number that some digits make. -/
def digitsNumber (digits : List Char) : Nat :=
  digits.foldl (fun n d => 10 * n + (d.toNat - '0'.toNat)) 0

/-- A sign and what follows it. -/
def cutSign : List Char → Bool × List Char
  | '-' :: rest => (true, rest)
  | '+' :: rest => (false, rest)
  | s => (false, s)

/-- The exponent that is written after a number, if that is all there is. -/
def exponent? : List Char → Option Int
  | [] => some 0
  | e :: rest =>
    if e != 'e' && e != 'E' then none
    else
      let (negative, digits) := cutSign rest
      if digits.isEmpty || !digits.all isAsciiDigit then none
      else some (if negative then -(digitsNumber digits : Int) else digitsNumber digits)

/-- The number of decimal places beyond which every double is zero or infinite. -/
def placeLimit : Int := 400

/-- The double nearest to `digits * 10 ^ exponent`. -/
def nearest (digits : List Char) (exponent : Int) : Float :=
  let digits := digits.dropWhile (· == '0')
  let size := exponent + digits.length
  if digits.isEmpty || size < -placeLimit then 0.0
  else if placeLimit < size then 1.0 / 0.0
  else if 0 ≤ exponent then Float.ofScientific (digitsNumber digits) false exponent.toNat
  else Float.ofScientific (digitsNumber digits) true (-exponent).toNat

/-- The double that a text writes as a decimal number. -/
def float? (s : List Char) : Option Float := do
  let (negative, s) := cutSign s
  let whole := s.takeWhile isAsciiDigit
  let (fraction, rest) :=
    match s.dropWhile isAsciiDigit with
    | '.' :: rest => (rest.takeWhile isAsciiDigit, rest.dropWhile isAsciiDigit)
    | rest => ([], rest)
  if whole.isEmpty && fraction.isEmpty then none
  else
    let exponent ← exponent? rest
    let x := nearest (whole ++ fraction) (exponent - fraction.length)
    return if negative then -x else x

end GodotLint.Decimal
