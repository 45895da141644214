import GodotLint.Check.Assets
import GodotLint.Check.Autoloads
import GodotLint.Check.Branches
import GodotLint.Check.Comments
import GodotLint.Check.Dependencies
import GodotLint.Check.Dictionaries
import GodotLint.Check.FrameCost
import GodotLint.Check.Hierarchy
import GodotLint.Check.Loading
import GodotLint.Check.Names
import GodotLint.Check.Nodes
import GodotLint.Check.Pitfalls
import GodotLint.Check.Printing
import GodotLint.Check.Repetition
import GodotLint.Check.Size
import GodotLint.Check.State
import GodotLint.Check.Usage
import GodotLint.Check.Wiring

/-!
# The checks
-/

namespace GodotLint.Check

/-- Every check, in the order in which they run. -/
def all : List Check :=
  [naming, classNames, inheritance, coupling, cyclicImports, autoloads, complexity, exports,
    dictAccess, matchStatements, awaitPatterns, nodeRefs, signals, inputActions, jsonRefs,
    pitfalls, stateMutation, duplicates, todos, printStatements, preloadPatterns, tweens,
    methodVisibility, commentQuality, deadCode, sceneHealth, magicNumbers, dictKeys]

/-- The checks of quick runs. -/
def quick : List Check := all.filter (·.isQuick)

/-- The check of an id, in which a dash stands for an underscore. -/
def find? (id : String) : Option Check :=
  let wanted := str (Text.replaceChar '-' ['_'] id.toList)
  all.find? (·.id == wanted)

end GodotLint.Check
