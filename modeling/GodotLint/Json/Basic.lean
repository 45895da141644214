import GodotLint.Decimal.Digits
import GodotLint.Ordering
import GodotLint.Text.Basic

/-!
# JSON documents

Values as they are read from data files and written into reports. An object is a list of members
in the order in which they are written; a document that was read has them in rising order of their
keys.
-/

namespace GodotLint

/-- A JSON number: whole where it was written so and is small enough, a double otherwise. -/
inductive JsonNumber where
  | whole (n : Int)
  | real (x : Float)

/-- A JSON value. -/
inductive Json where
  | null
  | bool (b : Bool)
  | num (n : JsonNumber)
  | str (s : String)
  | arr (items : List Json)
  | obj (members : List (String × Json))

namespace JsonNumber

/-- The number as a double. -/
def toFloat : JsonNumber → Float
  | .whole n => Float.ofInt n
  | .real x => x

/-- The exponents that are written positionally are those of the first digit from -5 to 15. -/
def positionalExponents (leading : Int) : Bool := -5 ≤ leading && leading < 16

/-- A double with the fewest digits, a fraction part, and an exponent mark where it is very large
or very small. -/
def writeReal (x : Float) : List Char :=
  match Decimal.parts x with
  | .nan => "null".toList
  | .infinite _ => "null".toList
  | .finite negative mantissa exponent narrow =>
    let s := Decimal.shortest mantissa exponent narrow
    let digits := Decimal.natDigits s.digits
    let leading := s.exponent + (digits.length - 1 : Nat)
    Decimal.signed negative <|
      if positionalExponents leading then Decimal.positional s
      else
        let fraction := digits.drop 1
        digits.take 1 ++ (if fraction.isEmpty then [] else '.' :: fraction) ++ 'e' ::
          (toString leading).toList

/-- The text of a number. -/
def write : JsonNumber → List Char
  | .whole n => (toString n).toList
  | .real x => writeReal x

end JsonNumber

namespace Json

/-- A natural number. -/
def nat (n : Nat) : Json := .num (.whole n)

/-- A double. -/
def float (x : Float) : Json := .num (.real x)

/-- A string or nothing. -/
def optStr : Option String → Json
  | none => .null
  | some s => .str s

/-- A natural number or nothing. -/
def optNat : Option Nat → Json
  | none => .null
  | some n => nat n

/-- A list of strings. -/
def strs (xs : List String) : Json := .arr (xs.map .str)

/-- A map as an object. -/
def ofMap (f : α → Json) (m : SortedMap α) : Json := .obj (m.entries.map fun (k, v) => (k, f v))

/-- A map of counts. -/
def counts (m : SortedMap Nat) : Json := ofMap nat m

/-- The member of an object. -/
def member? (v : Json) (key : String) : Option Json :=
  match v with
  | .obj members => members.lookup key
  | _ => none

/-- The text of a string value. -/
def str? : Json → Option String
  | .str s => some s
  | _ => none

/-- Neither an array nor an object. -/
def isScalar : Json → Bool
  | .arr _ => false
  | .obj _ => false
  | _ => true

end Json

end GodotLint
