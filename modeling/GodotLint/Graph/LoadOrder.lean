import GodotLint.Ordering

/-!
# Load order

Names are placed one by one: each time the first whose dependencies are all placed. Names that a
cycle keeps from being placed follow at the end in their given order.
-/

namespace GodotLint.LoadOrder

/-- What a name depends on. -/
abbrev Dependencies := SortedMap (List String)

/-- Whether a name can be placed after the names in `placed`. Dependencies on unknown names do not
count. -/
def isReady (order : List String) (deps : Dependencies) (placed : List String) (name : String) :
    Bool :=
  !placed.contains name &&
    ((deps.get? name).getD []).all fun dep => !order.contains dep || placed.contains dep

/-- Places names until none is ready, at most `count`. The names placed so far are given the last
one first. -/
def place (order : List String) (deps : Dependencies) : (count : Nat) → (placed : List String) →
    List String
  | 0, placed => placed
  | count + 1, placed =>
    match order.find? (isReady order deps placed) with
    | some name => place order deps count (name :: placed)
    | none => placed

/-- Adds the names that are still missing, in their given order. -/
def addMissing (placed : List String) (order : List String) : List String :=
  placed ++ order.filter (!placed.contains ·)

/-- The order in which names are loaded, and whether every name follows what it depends on. -/
def compute (order : List String) (deps : Dependencies) : List String × Bool :=
  let placed := (place order deps order.length []).reverse
  (addMissing placed order, placed.length == order.length)

end GodotLint.LoadOrder
