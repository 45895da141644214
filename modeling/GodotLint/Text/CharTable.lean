/-!
# Tables of characters

A set of characters is kept as an array of disjoint ranges of code points in rising order, and
membership is a binary search. Tables are written as text, the way the character database writes
them: hexadecimal code points, `lo-hi` for a range, blanks between the entries.
-/

namespace GodotLint.Text

/-- The value of a hexadecimal digit. -/
def hexDigit? (c : Char) : Option Nat :=
  if '0' ≤ c && c ≤ '9' then some (c.toNat - '0'.toNat)
  else if 'a' ≤ c && c ≤ 'f' then some (c.toNat - 'a'.toNat + 10)
  else if 'A' ≤ c && c ≤ 'F' then some (c.toNat - 'A'.toNat + 10)
  else none

/-- A set of code points, as disjoint ranges in rising order. -/
structure CharTable where
  /-- First and last code point of each range. -/
  ranges : Array (Nat × Nat)

namespace CharTable

/-- The text of a table, read as far as some character. -/
structure Reading where
  /-- The start of a range whose end is being read. -/
  first : Option Nat := none
  /-- The number being read. -/
  number : Option Nat := none
  /-- The ranges read so far. -/
  ranges : Array (Nat × Nat) := #[]

/-- Ends the range being read. -/
def Reading.close (r : Reading) : Reading :=
  match r.number with
  | none => { r with first := none }
  | some n => { ranges := r.ranges.push (r.first.getD n, n) }

/-- Takes one more character of the text. -/
def Reading.feed (r : Reading) (c : Char) : Reading :=
  match hexDigit? c with
  | some d => { r with number := some (16 * r.number.getD 0 + d) }
  | none => if c == '-' then { r with first := r.number, number := none } else r.close

/-- The table that a text describes. -/
def ofText (text : String) : CharTable :=
  ⟨(text.toList.foldl Reading.feed {}).close.ranges⟩

/-- Binary search for `n` among the ranges from `lo` up to and without `hi`; `steps` bounds the
number of halvings. -/
def search (ranges : Array (Nat × Nat)) (n : Nat) : (steps lo hi : Nat) → Bool
  | 0, _, _ => false
  | steps + 1, lo, hi =>
    if lo < hi then
      let middle := (lo + hi) / 2
      match ranges[middle]? with
      | none => false
      | some (first, last) =>
        if n < first then search ranges n steps lo middle
        else if last < n then search ranges n steps (middle + 1) hi
        else true
    else false

/-- Whether a character is in the table. -/
def contains (t : CharTable) (c : Char) : Bool :=
  search t.ranges c.toNat (t.ranges.size.log2 + 1) 0 t.ranges.size

end CharTable

end GodotLint.Text
