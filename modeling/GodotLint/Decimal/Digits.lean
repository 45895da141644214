/-!
# Decimal digits of floating-point numbers

A finite double is a natural number times a power of two, so its decimal forms are found in exact
arithmetic: the fewest digits that read back as the number, and the number rounded to a count of
places, a half going to the even neighbour.
-/

namespace GodotLint.Decimal

/-- What a double stands for. -/
inductive Parts where
  | nan
  | infinite (negative : Bool)
  /-- The number `mantissa * 2 ^ exponent`. `narrow` says that the next double below is only half
  as far away as the next above. -/
  | finite (negative : Bool) (mantissa : Nat) (exponent : Int) (narrow : Bool)
  deriving DecidableEq, Repr

/-- Takes a double apart. -/
def parts (x : Float) : Parts :=
  let bits : Nat := x.toBits.toNat
  let negative := bits / Nat.pow 2 63 == 1
  let exponent : Nat := bits / Nat.pow 2 52 % 2048
  let fraction : Nat := bits % Nat.pow 2 52
  if exponent = 2047 then if fraction = 0 then .infinite negative else .nan
  else if exponent = 0 then .finite negative fraction (-1074) false
  else
    .finite negative (fraction + Nat.pow 2 52) ((exponent : Int) - 1075)
      (fraction == 0 && exponent != 1)

/-- The decimal digits of a natural number, as characters. -/
def natDigits (n : Nat) : List Char := Nat.toDigits 10 n

/-- A decimal number `digits * 10 ^ exponent`. -/
structure Scaled where
  digits : Nat
  exponent : Int
  deriving DecidableEq, Repr

/-- Drops zeros at the end of the digits, at most `count`. -/
def Scaled.trimZeros (s : Scaled) : (count : Nat) → Scaled
  | 0 => s
  | count + 1 =>
    if s.digits % 10 = 0 && s.digits != 0 then trimZeros ⟨s.digits / 10, s.exponent + 1⟩ count
    else s

/-- A power with an exponent that may be negative, as numerator and denominator. -/
def ratioPow (base : Nat) (e : Int) : Nat × Nat := (Nat.pow base e.toNat, Nat.pow base (-e).toNat)

/-- The exponent of the first decimal digit of `num / den`. -/
def leadingExponent (num den : Nat) : Int :=
  (natDigits (num * Nat.pow 10 350 / den)).length - 351

/-- The number with `count` digits nearest to `mantissa * 2 ^ exponent` that still reads back as
it, if there is one. Of two that are equally near, the even one. -/
def withDigits? (mantissa : Nat) (exponent : Int) (narrow : Bool) (count : Nat) : Option Scaled :=
  let (up, down) := ratioPow 2 (exponent - 2)
  let value := 4 * mantissa
  let low := value - (if narrow then 1 else 2)
  let high := value + 2
  let power := leadingExponent (value * up) down - (count - 1 : Nat)
  let (tens, tenths) := ratioPow 10 power
  let grid (c : Nat) : Nat := c * tens * down
  let real (x : Nat) : Nat := x * up * tenths
  let fits (c : Nat) : Bool :=
    if mantissa % 2 = 0 then real low ≤ grid c && grid c ≤ real high
    else real low < grid c && grid c < real high
  let below := real value / (tens * down)
  let above := below + 1
  match fits below, fits above with
  | false, false => none
  | true, false => some ⟨below, power⟩
  | false, true => some ⟨above, power⟩
  | true, true =>
    let toBelow := real value - grid below
    let toAbove := grid above - real value
    if toBelow < toAbove || (toBelow == toAbove && below % 2 == 0) then some ⟨below, power⟩
    else some ⟨above, power⟩

/-- The fewest digits that read back as `mantissa * 2 ^ exponent`; seventeen always do. -/
def shortest (mantissa : Nat) (exponent : Int) (narrow : Bool) : Scaled :=
  if mantissa = 0 then ⟨0, 0⟩
  else
    match (List.range 17).findSome? fun n => withDigits? mantissa exponent narrow (n + 1) with
    | some s => s.trimZeros 20
    | none => ⟨0, 0⟩

/-- A quotient rounded to the nearest natural number, a half to the even neighbour. -/
def roundDiv (num den : Nat) : Nat :=
  let q := num / den
  let r := num % den
  if 2 * r < den || (2 * r == den && q % 2 == 0) then q else q + 1

/-- `mantissa * 2 ^ exponent` in units of `10 ^ -places`, rounded. -/
def fixed (mantissa : Nat) (exponent : Int) (places : Nat) : Nat :=
  let (up, down) := ratioPow 2 exponent
  roundDiv (mantissa * up * Nat.pow 10 places) down

/-- Digits with zeros in front up to a count. -/
def padZeros (count : Nat) (digits : List Char) : List Char :=
  List.replicate (count - digits.length) '0' ++ digits

/-- A natural number of units of `10 ^ -places`, written with a point before the last `places`
digits. -/
def withPoint (units places : Nat) : List Char :=
  let digits := padZeros (places + 1) (natDigits units)
  digits.take (digits.length - places) ++ '.' :: digits.drop (digits.length - places)

/-- A decimal number without exponent mark, with at least one digit after the point. -/
def positional (s : Scaled) : List Char :=
  if 0 ≤ s.exponent then natDigits (s.digits * Nat.pow 10 s.exponent.toNat) ++ ['.', '0']
  else withPoint s.digits (-s.exponent).toNat

/-- A minus sign where it is due. -/
def signed (negative : Bool) (s : List Char) : List Char := if negative then '-' :: s else s

/-- A double with the fewest digits that read back as it, positional at every size. -/
def plain (x : Float) : List Char :=
  match parts x with
  | .nan => "NaN".toList
  | .infinite negative => signed negative "inf".toList
  | .finite negative mantissa exponent narrow =>
    signed negative (positional (shortest mantissa exponent narrow))

/-- Integers without a fraction, everything else with up to three places. -/
def compact (x : Float) : List Char :=
  match parts x with
  | .nan => "NaN".toList
  | .infinite negative => signed negative "inf".toList
  | .finite negative mantissa exponent _ =>
    let (up, down) := ratioPow 2 exponent
    if (mantissa * up) % down = 0 && mantissa * up / down < Nat.pow 10 15 then
      let n := mantissa * up / down
      signed (negative && n != 0) (natDigits n)
    else
      let text := withPoint (fixed mantissa exponent 3) 3
      signed negative (((text.reverse.dropWhile (· == '0')).dropWhile (· == '.')).reverse)

end GodotLint.Decimal
