/-!
# Sorting, sums and sorted maps

A stable sort by a comparison, sums over lists, and maps from strings kept as lists of entries in
rising order of their keys, which is the order in which every report lists them.
-/

namespace GodotLint

/-! ## Sorting -/

/-- Puts `x` before the first element that it may precede. -/
def insertBefore (le : α → α → Bool) (x : α) : List α → List α
  | [] => [x]
  | y :: rest => if le x y then x :: y :: rest else y :: insertBefore le x rest

/-- Sorts by `le`. Elements that may precede each other keep their order. -/
def stableSort (le : α → α → Bool) (xs : List α) : List α := xs.foldr (insertBefore le) []

/-- Sorts by a natural number. -/
def sortByNat (key : α → Nat) (xs : List α) : List α := stableSort (fun a b => key a ≤ key b) xs

/-- Strings in order of their code points, each once. -/
def sortedSet (xs : List String) : List String :=
  (stableSort (fun a b => a ≤ b) xs).foldr
    (fun x acc => if acc.head? == some x then acc else x :: acc) []

/-- Drops each element that equals the one before it. -/
def dropRepeats [BEq α] : List α → List α
  | [] => []
  | [x] => [x]
  | x :: y :: rest => if x == y then dropRepeats (x :: rest) else x :: dropRepeats (y :: rest)

/-- Comparison by a first key, then by what `next` says. -/
def thenBy (first next : Ordering) : Ordering := first.then next

/-- The element with the largest key, the last of several. -/
def lastMax? (key : α → Nat) (xs : List α) : Option α :=
  xs.foldl (fun best x =>
    match best with
    | none => some x
    | some b => if key b ≤ key x then some x else some b) none

/-- The sum of a number over a list. -/
def sumOf (number : α → Nat) (xs : List α) : Nat := xs.foldr (fun x n => number x + n) 0

/-! ## Maps -/

/-- A map from strings, its entries in rising order of their keys. -/
structure SortedMap (α : Type) where
  entries : List (String × α) := []
  deriving Repr, DecidableEq

namespace SortedMap

/-- The map without entries. -/
def empty : SortedMap α := ⟨[]⟩

instance : Inhabited (SortedMap α) := ⟨empty⟩

/-- Changes the value at `key`, which `f` computes from the present one. -/
def alterEntries (key : String) (f : Option α → α) : List (String × α) → List (String × α)
  | [] => [(key, f none)]
  | (k, v) :: rest =>
    if key < k then (key, f none) :: (k, v) :: rest
    else if key = k then (k, f (some v)) :: rest
    else (k, v) :: alterEntries key f rest

/-- Changes the value at `key`, which `f` computes from the present one. -/
def alter (m : SortedMap α) (key : String) (f : Option α → α) : SortedMap α :=
  ⟨alterEntries key f m.entries⟩

/-- Sets the value at `key`. -/
def insert (m : SortedMap α) (key : String) (value : α) : SortedMap α :=
  m.alter key fun _ => value

/-- Sets the value at `key` unless there is one. -/
def insertIfNew (m : SortedMap α) (key : String) (value : α) : SortedMap α :=
  m.alter key fun old => old.getD value

/-- The value at `key`. -/
def get? (m : SortedMap α) (key : String) : Option α := m.entries.lookup key

/-- Whether there is a value at `key`. -/
def contains (m : SortedMap α) (key : String) : Bool := m.entries.any (·.1 == key)

/-- The keys in rising order. -/
def keys (m : SortedMap α) : List String := m.entries.map (·.1)

/-- The values in the order of their keys. -/
def values (m : SortedMap α) : List α := m.entries.map (·.2)

/-- The number of entries. -/
def size (m : SortedMap α) : Nat := m.entries.length

/-- Adds an element to the end of the list at `key`. -/
def append (m : SortedMap (List α)) (key : String) (x : α) : SortedMap (List α) :=
  m.alter key fun old => old.getD [] ++ [x]

/-- Adds one to the number at `key`. -/
def count (m : SortedMap Nat) (key : String) : SortedMap Nat :=
  m.alter key fun old => old.getD 0 + 1

/-- The map with the given entries, a later one replacing an earlier one of the same key. -/
def ofList (xs : List (String × α)) : SortedMap α :=
  xs.foldl (fun m (k, v) => m.insert k v) empty

end SortedMap

end GodotLint
