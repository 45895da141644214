import GodotLint.Decimal.Read
import GodotLint.Yaml.Node

/-!
# Meaning of plain scalars

A plain scalar stands for nothing, a truth value, a number or a text, as its form tells.
-/

namespace GodotLint.Yaml

open Text

/-- What a plain scalar stands for. -/
inductive Meaning where
  | null
  | bool (b : Bool)
  | integer (n : Int)
  | real (x : Float)
  | text

namespace Meaning

/-- The ways to write nothing. -/
def nulls : List String := ["null", "Null", "NULL", "~"]

/-- The ways to write truth values. -/
def bools : List (String × Bool) :=
  [("true", true), ("True", true), ("TRUE", true), ("false", false), ("False", false),
    ("FALSE", false)]

/-- The value of a digit of any base up to sixteen. -/
def digit? (base : Nat) (c : Char) : Option Nat := (hexDigit? c).filter (· < base)

/-- The number that digits of a base make. -/
def natural? (base : Nat) (digits : List Char) : Option Nat :=
  if digits.isEmpty then none
  else digits.foldlM (fun n c => (digit? base c).map (base * n + ·)) 0

/-- The number after a mark of its base. -/
def marked? (s : List Char) : Option Nat :=
  match s with
  | '0' :: 'x' :: digits => natural? 16 digits
  | '0' :: 'o' :: digits => natural? 8 digits
  | '0' :: 'b' :: digits => natural? 2 digits
  | _ => none

/-- Digits that are no number, as they start with a zero. -/
def isPadded (digits : List Char) : Bool :=
  match digits with
  | '0' :: rest => !rest.isEmpty && rest.all isAsciiDigit
  | _ => false

/-- A natural number without a sign. -/
def unsigned? (s : List Char) : Option Nat :=
  marked? s <|> if isPadded s then none else natural? 10 s

/-- A natural number that may have a plus sign. -/
def natural (s : List Char) : Option Nat :=
  match s with
  | '+' :: rest => unsigned? rest
  | _ => unsigned? s

/-- The largest number of 64 bits. -/
def maxNatural : Nat := Nat.pow 2 64 - 1

/-- An integer of up to 128 bits. -/
def integer? (s : List Char) : Option Int :=
  match s with
  | '-' :: rest => ((unsigned? rest).filter (· ≤ Nat.pow 2 127)).map fun n => -(n : Int)
  | _ => ((natural s).filter (· < Nat.pow 2 128)).map fun n => (n : Int)

/-- Whether an integer takes more than 64 bits. -/
def isWide (n : Int) : Bool := (maxNatural : Int) < n || n < -(Nat.pow 2 63 : Nat)

/-- A number that may have a fraction. -/
def real? (s : List Char) : Option Float :=
  let unmarked := match s with
    | '+' :: rest => rest
    | _ => s
  match str unmarked with
  | ".inf" => some (1.0 / 0.0)
  | ".Inf" => some (1.0 / 0.0)
  | ".INF" => some (1.0 / 0.0)
  | _ =>
    match str s with
    | "-.inf" => some (-1.0 / 0.0)
    | "-.Inf" => some (-1.0 / 0.0)
    | "-.INF" => some (-1.0 / 0.0)
    | ".nan" => some (0.0 / 0.0)
    | ".NaN" => some (0.0 / 0.0)
    | ".NAN" => some (0.0 / 0.0)
    | _ =>
      if s.head? == some '+' && unmarked.head?.any fun c => c == '+' || c == '-' then none
      else (Decimal.float? unmarked).filter (·.isFinite)

/-- Whether a plain scalar stands for nothing. -/
def isNull (s : String) : Bool := s.isEmpty || nulls.contains s

/-- Whether digits after a sign are no number, as they start with a zero. -/
def isPaddedInteger (s : List Char) : Bool :=
  match s with
  | '-' :: rest => isPadded rest
  | '+' :: rest => isPadded rest
  | _ => isPadded s

/-- What a plain scalar stands for. -/
def ofPlain (s : String) : Meaning :=
  if isNull s then .null
  else
    match bools.lookup s, integer? s.toList with
    | some b, _ => .bool b
    | none, some n => .integer n
    | none, none =>
      if isPaddedInteger s.toList then .text
      else
        match real? s.toList with
        | some x => .real x
        | none => .text

end Meaning

end GodotLint.Yaml
