import GodotLint.Text.Utf8
import GodotLint.Yaml.Scalar

/-!
# Tokens of YAML

The smallest parts of a document that mean something, and the scans of those that are not scalars.
-/

namespace GodotLint.Yaml

open Text

/-- How a scalar is written. -/
inductive ScalarStyle where
  | plain
  | quoted
  | literal
  | folded
  deriving DecidableEq, Repr

/-- A token. -/
inductive Token where
  | streamEnd
  | versionDirective (major minor : Nat)
  | tagDirective (handle address : String)
  | documentStart
  | documentEnd
  | blockSequenceStart
  | blockMappingStart
  | blockEnd
  | flowSequenceStart
  | flowSequenceEnd
  | flowMappingStart
  | flowMappingEnd
  | blockEntry
  | flowEntry
  | key
  | value
  | alias (name : String)
  | anchor (name : String)
  | tag (handle rest : String)
  | scalar (text : String) (style : ScalarStyle)
  deriving DecidableEq, Repr

/-- A token and where it starts. -/
structure Lexeme where
  token : Token
  start : Mark
  deriving DecidableEq, Repr

/-! ## Anchors -/

/-- Whether a character may follow the name of an anchor. -/
def endsAnchor (c : Option Char) : Bool :=
  isGap c || c.any "?:,]\x7d%@\x60".toList.contains

/-- The name of an anchor or alias, after its mark. -/
def anchorName (activity : Activity) : Scan String := do
  let start := (← get).mark
  Scan.move (·.skip)
  let name ← Scan.takeRun isNameChar
  if name.isEmpty || !endsAnchor (← get).head then Scan.fail .badAnchor activity start
  else return str name

/-! ## Tags -/

/-- Characters of a tag. -/
def isTagChar (verbatim : Bool) (c : Char) : Bool :=
  isNameChar c || ";/?:@&=+$.%!~*\x27()".toList.contains c || (verbatim && ",[]".toList.contains c)

/-- The number of bytes of a character, told by the first of them. -/
def octetCount (octet : Nat) : Nat :=
  if octet < 0x80 then 1
  else if octet / 0x20 = 6 then 2
  else if octet / 0x10 = 14 then 3
  else if octet / 0x08 = 30 then 4
  else 0

/-- Takes the escaped bytes of a character: `owed` more of them, or as many as the first one tells.
-/
def escapedOctets (activity : Activity) (start : Mark) : (count : Nat) → (owed : Option Nat) →
    Scan (List UInt8)
  | 0, _ => pure []
  | count + 1, owed => do
    let c ← get
    match c.rest.take 3 with
    | ['%', high, low] =>
      match hexNumber? [high, low] with
      | none => Scan.fail .noAddressOctet activity start
      | some octet =>
        let owed ← match owed with
          | some n =>
            if octet / 0x40 = 2 then pure n else Scan.fail .badTrailingOctet activity start
          | none =>
            if octetCount octet = 0 then Scan.fail .badLeadingOctet activity start
            else pure (octetCount octet)
        Scan.move (·.skipMany 3)
        if owed ≤ 1 then return [UInt8.ofNat octet]
        else return UInt8.ofNat octet :: (← escapedOctets activity start count (some (owed - 1)))
    | _ => Scan.fail .noAddressOctet activity start

/-- Takes the characters of a tag, at most `count`. -/
def tagChars (verbatim : Bool) (activity : Activity) (start : Mark) : (count : Nat) →
    Scan (List Char)
  | 0 => pure []
  | count + 1 => do
    match (← get).head with
    | some '%' =>
      let bytes ← escapedOctets activity start 4 none
      return decodeFrom none bytes ++ (← tagChars verbatim activity start count)
    | some c =>
      if isTagChar verbatim c then
        Scan.move (·.skip)
        return c :: (← tagChars verbatim activity start count)
      else return []
    | none => return []

/-- Takes the characters of a tag, at least one of them or of those that stand before. -/
def tagAddress (verbatim : Bool) (activity : Activity) (before : List Char) (start : Mark) :
    Scan (List Char) := do
  let more ← tagChars verbatim activity start (← get).rest.length
  if before.isEmpty && more.isEmpty then Scan.fail .noAddress activity start
  else return before.drop 1 ++ more

/-- Takes the handle of a tag. -/
def tagHandle (inDirective : Bool) (start : Mark) : Scan (List Char) := do
  if !(← get).sees '!' then
    Scan.fail .noTagMark (if inDirective then .directiveHandle else .tag) start
  else
    Scan.move (·.skip)
    let name ← Scan.takeRun isNameChar
    if (← get).sees '!' then
      Scan.move (·.skip)
      return '!' :: name ++ ['!']
    else if inDirective && !name.isEmpty then Scan.fail .noTagMark .openDirectiveHandle start
    else return '!' :: name

/-- A handle that stands for more than itself: the mark `!` at both ends. -/
def isNamedHandle (handle : List Char) : Bool := 2 ≤ handle.length && handle.getLast? == some '!'

/-- The handle and the rest of a tag. A tag that is no more than its mark has no handle. -/
def tagParts (inFlow : Bool) : Scan (String × String) := do
  let c ← get
  let start := c.mark
  let parts ←
    if c.ahead 1 == some '<' then do
      Scan.move (·.skipMany 2)
      let address ← tagAddress true .tagAddress [] start
      if (← get).sees '>' then
        Scan.move (·.skip)
        pure ([], address)
      else Scan.fail .openTag .tag start
    else do
      let handle ← tagHandle false start
      if isNamedHandle handle then
        pure (handle, ← tagAddress false .tagAddress [] start)
      else
        let rest ← tagAddress false .tagAddress handle start
        pure (if rest.isEmpty then ([], ['!']) else (['!'], rest))
  let c ← get
  if isGap c.head || (inFlow && c.sees ',') then return (str parts.1, str parts.2)
  else Scan.fail .noBlankAfterTag .tag start

/-! ## Directives -/

/-- A number of a version. -/
def versionNumber (start : Mark) : Scan Nat := do
  let digits := (← get).run isAsciiDigit
  if 9 < digits.length then
    Scan.move (·.skipMany 9)
    Scan.fail .longVersion .versionDirective start
  else if digits.isEmpty then Scan.fail .noVersionNumber .versionDirective start
  else
    Scan.move (·.skipMany digits.length)
    return digits.foldl (fun n d => 10 * n + (d.toNat - '0'.toNat)) 0

/-- The version that a directive names. -/
def versionDirective (start : Mark) : Scan Token := do
  Scan.move (·.skipRun isSpaceOrTab)
  let major ← versionNumber start
  if (← get).sees '.' then
    Scan.move (·.skip)
    return .versionDirective major (← versionNumber start)
  else Scan.fail .noVersionPoint .versionDirective start

/-- The handle that a directive declares, and what it stands for. -/
def tagDirective (start : Mark) : Scan Token := do
  Scan.move (·.skipRun isSpaceOrTab)
  let handle ← tagHandle true start
  if !(← get).head.any isSpaceOrTab then Scan.fail .noBlank .tagDirective start
  else
    Scan.move (·.skipRun isSpaceOrTab)
    let address ← tagAddress true .directiveAddress [] start
    if isGap (← get).head then return .tagDirective (str handle) (str address)
    else Scan.fail .noBlankAfterTag .tagDirective start

/-- A directive with its line. -/
def directive : Scan Token := do
  let start := (← get).mark
  Scan.move (·.skip)
  let name ← Scan.takeRun isNameChar
  if name.isEmpty then Scan.fail .noDirectiveName .directive start
  else if !isGap (← get).head then Scan.fail .badDirectiveName .directive start
  else
    let token ←
      if name == "YAML".toList then versionDirective start
      else if name == "TAG".toList then tagDirective start
      else Scan.fail .unknownDirective .directive start
    Scan.finishLine .directive start
    return token

end GodotLint.Yaml
