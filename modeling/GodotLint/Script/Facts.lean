import GodotLint.Script.Access
import GodotLint.Script.Branch
import GodotLint.Script.Declaration
import GodotLint.Script.Literal
import GodotLint.Script.Marker
import GodotLint.Script.Mention
import GodotLint.Script.Resource

/-!
# Facts of a script

Everything that the checks ask of one script, read from its lines. Each reader works line by
line: a string that spans lines is read as code, and so is an expression that does.
-/

namespace GodotLint

/-- The facts of one script. -/
structure Facts where
  functions : List Function
  declarations : List Declaration
  /-- The class of the script and the line that names it. -/
  className : Option (String × Nat)
  base : Option Extends
  loads : List Load
  nodeRefs : List NodeRef
  awaits : List Await
  matchBlocks : List MatchBlock
  accesses : List Access
  strings : List StringLiteral
  numbers : List NumberLiteral
  markers : List Marker
  mentions : List Mention
  deriving DecidableEq, Repr

namespace Facts

/-- The facts of a script with the given lines. -/
def ofLines (lines : List (List Char)) : Facts :=
  let functions := Function.ofLines lines
  let declared := Script.declared lines functions
  { functions
    declarations := declared.declarations
    className := declared.className
    base := declared.base
    loads := Script.loads lines functions declared.base
    nodeRefs := Script.nodeRefs lines functions
    awaits := Script.awaits lines functions
    matchBlocks := Script.matchBlocks lines functions
    accesses := Script.accesses lines
    strings := Script.strings lines
    numbers := Script.numbers lines functions
    markers := Marker.ofLines lines
    mentions := Mention.ofLines lines functions }

/-- The declarations of one kind. -/
def declarationsOf (f : Facts) (kind : DeclarationKind) : List Declaration :=
  f.declarations.filter (·.kind = kind)

/-- Some function is static. -/
def hasStaticFunctions (f : Facts) : Bool := f.functions.any (·.isStatic)

end Facts

end GodotLint
