import GodotLint.Text.CharTable
import GodotLint.Yaml.Cursor

/-!
# Scalars of YAML

The three ways to write a text: plainly, between quotation marks, and as a block of lines. In the
first two, line breaks within the text are folded: one becomes a blank, and of more the first one
is dropped.
-/

namespace GodotLint.Yaml

open Text

/-! ## Folding -/

/-- A text and the gap that follows it, of which it is not known yet whether more text comes. -/
structure Folding where
  text : List Char := []
  /-- Blanks of a gap within a line. -/
  blanks : List Char := []
  /-- The gap holds a line break. -/
  broken : Bool := false
  /-- The first line break of the gap, unless it is escaped. -/
  leading : List Char := []
  /-- The line breaks after the first one. -/
  trailing : List Char := []
  deriving DecidableEq, Repr

namespace Folding

/-- What a gap becomes within a text. -/
def gap (f : Folding) : List Char :=
  if !f.broken then f.blanks
  else if f.leading == ['\n'] then if f.trailing.isEmpty then [' '] else f.trailing
  else f.leading ++ f.trailing

/-- The text with the gap and more text at its end. -/
def add (f : Folding) (more : List Char) : Folding := { text := f.text ++ f.gap ++ more }

/-- The text with a blank in its gap. -/
def addBlank (f : Folding) (c : Char) : Folding :=
  if f.broken then f else { f with blanks := f.blanks ++ [c] }

/-- The text with a line break in its gap. -/
def addBreak (f : Folding) (lineBreak : List Char) : Folding :=
  if f.broken then { f with trailing := f.trailing ++ lineBreak }
  else { f with blanks := [], broken := true, leading := lineBreak }

end Folding

/-- Takes the blanks and line breaks of a gap, at most `count`. `isRefused` tells of which tabs the
caller does not approve, given the column. -/
def foldGap (isRefused : Nat → Bool) (start : Mark) : (count : Nat) → Folding → Scan Folding
  | 0, f => pure f
  | count + 1, f => do
    let c ← get
    match c.head with
    | none => return f
    | some x =>
      if isSpaceOrTab x then
        if f.broken && x == '\t' && isRefused c.mark.column then
          Scan.fail .tabInPlain .plainScalar start
        else
          Scan.move (·.skip)
          foldGap isRefused start count (f.addBlank x)
      else if isBreak x then foldGap isRefused start count (f.addBreak (← Scan.takeBreak))
      else return f

/-! ## Plain scalars -/

/-- Marks that structure flow collections. -/
def isFlowMark (c : Char) : Bool :=
  c == ',' || c == '[' || c == ']' || c == '\x7b' || c == '\x7d'

/-- Takes characters up to a gap or a mark that ends a plain scalar, at most `count`. -/
def plainWord (inFlow : Bool) (start : Mark) : (count : Nat) → Scan (List Char)
  | 0 => pure []
  | count + 1 => do
    let c ← get
    match c.head with
    | none => return []
    | some x =>
      let next := c.ahead 1
      if isGap (some x) then return []
      else if inFlow && x == ':' && next.any fun y => isFlowMark y || y == '?' then
        Scan.fail .unexpectedColon .plainScalar start
      else if (x == ':' && isGap next) || (inFlow && isFlowMark x) then return []
      else
        Scan.move (·.skip)
        return x :: (← plainWord inFlow start count)

/-- Takes the rest of a plain scalar, at most `count` words of it. Its lines are indented by
`indent` at least, unless it stands in a flow collection. -/
def plainRest (inFlow : Bool) (indent : Int) (start : Mark) : (count : Nat) → Folding → Scan Folding
  | 0, f => pure f
  | count + 1, f => do
    let c ← get
    if c.atDocumentMark || c.sees '#' then return f
    let more ← plainWord inFlow start c.rest.length
    let f := if more.isEmpty then f else f.add more
    let c ← get
    if c.head.isNone || !isGap c.head then return f
    let f ← foldGap (fun column => column < indent) start c.rest.length f
    if !inFlow && (← get).mark.column < indent then return f
    plainRest inFlow indent start count f

/-- A plain scalar, and whether line breaks follow it. -/
def plainScalar (inFlow : Bool) (indent : Int) : Scan (List Char × Bool) := do
  let c ← get
  let f ← plainRest inFlow indent c.mark (c.rest.length + 1) {}
  return (f.text, f.broken)

/-! ## Quoted scalars -/

/-- Characters that an escape of one character stands for. -/
def simpleEscapes : List (Char × Char) :=
  [('0', '\x00'), ('a', '\x07'), ('b', '\x08'), ('t', '\t'), ('\t', '\t'), ('n', '\n'),
    ('v', '\x0b'), ('f', '\x0c'), ('r', '\r'), ('e', '\x1b'), (' ', ' '), ('"', '"'), ('/', '/'),
    ('\\', '\\'), ('N', '\u0085'), ('_', '\u00a0'), ('L', '\u2028'), ('P', '\u2029')]

/-- How many digits follow the mark of an escape by number. -/
def numericEscapes : List (Char × Nat) := [('x', 2), ('u', 4), ('U', 8)]

/-- The number of hexadecimal digits, if all are such. -/
def hexNumber? (digits : List Char) : Option Nat :=
  digits.foldlM (fun n d => (hexDigit? d).map (16 * n + ·)) 0

/-- Takes an escape, which starts with a backslash. -/
def escapedChar (start : Mark) : Scan Char := do
  let c ← get
  match c.ahead 1 with
  | none => Scan.fail .unknownEscape .escapeSequence start
  | some x =>
    match simpleEscapes.lookup x, numericEscapes.lookup x with
    | some y, _ =>
      Scan.move (·.skipMany 2)
      return y
    | none, none => Scan.fail .unknownEscape .escapeSequence start
    | none, some count =>
      Scan.move (·.skipMany 2)
      let digits := (← get).rest.take count
      match hexNumber? digits with
      | some n =>
        if digits.length < count then Scan.fail .badHexNumber .escapeSequence start
        else if n.isValidChar then
          Scan.move (·.skipMany count)
          return Char.ofNat n
        else Scan.fail .badCodePoint .escapeSequence start
      | none => Scan.fail .badHexNumber .escapeSequence start

/-- The quotation mark of a scalar. -/
def quoteOf (single : Bool) : Char := if single then '\x27' else '"'

/-- Takes characters up to a gap or the closing quotation mark, at most `count`, and tells whether
an escaped line break ends them. -/
def quotedWord (single : Bool) (start : Mark) : (count : Nat) → Scan (List Char × Bool)
  | 0 => pure ([], false)
  | count + 1 => do
    let c ← get
    match c.head with
    | none => return ([], false)
    | some x =>
      let next := c.ahead 1
      if isGap (some x) then return ([], false)
      else if single && x == '\x27' && next == some '\x27' then
        Scan.move (·.skipMany 2)
        let (more, broken) ← quotedWord single start count
        return ('\x27' :: more, broken)
      else if x == quoteOf single then return ([], false)
      else if !single && x == '\\' then
        if next.any isBreak then
          Scan.move (·.skip)
          let _ ← Scan.takeBreak
          return ([], true)
        else
          let y ← escapedChar start
          let (more, broken) ← quotedWord single start count
          return (y :: more, broken)
      else
        Scan.move (·.skip)
        let (more, broken) ← quotedWord single start count
        return (x :: more, broken)

/-- Takes the rest of a quoted scalar, at most `count` words of it. -/
def quotedRest (single : Bool) (start : Mark) : (count : Nat) → (text : List Char) →
    Scan (List Char)
  | 0, text => pure text
  | count + 1, text => do
    let c ← get
    if c.atDocumentMark then Scan.fail .documentMark .quotedScalar start
    else if c.head.isNone then Scan.fail .endInQuotes .quotedScalar start
    else
      let (more, broken) ← quotedWord single start c.rest.length
      let c ← get
      if c.head == some (quoteOf single) then
        Scan.move (·.skip)
        return text ++ more
      else
        let f ← foldGap (fun _ => false) start c.rest.length { text := text ++ more, broken }
        quotedRest single start count (f.text ++ f.gap)

/-- A quoted scalar. -/
def quotedScalar (single : Bool) : Scan (List Char) := do
  let c ← get
  Scan.move (·.skip)
  quotedRest single c.mark (c.rest.length + 1) []

/-! ## Block scalars -/

/-- What happens to the line breaks at the end of a block. -/
inductive Chomping where
  /-- All are dropped. -/
  | strip
  /-- The first one is kept. -/
  | clip
  /-- All are kept. -/
  | keep
  deriving DecidableEq, Repr

/-- A mark of chomping. -/
def chomping? (c : Option Char) : Option Chomping :=
  match c with
  | some '-' => some .strip
  | some '+' => some .keep
  | _ => none

/-- Takes a mark of chomping. -/
def takeChomping : Scan (Option Chomping) := do
  match chomping? (← get).head with
  | some x =>
    Scan.move (·.skip)
    return some x
  | none => return none

/-- Takes a digit that tells the indentation. -/
def takeIndentation (start : Mark) : Scan (Option Nat) := do
  match (← get).head with
  | some d =>
    if !isAsciiDigit d then return none
    else if d == '0' then Scan.fail .zeroIndentation .blockScalar start
    else
      Scan.move (·.skip)
      return some (d.toNat - '0'.toNat)
  | none => return none

/-- Takes the marks after the one that starts a block. -/
def blockHeader (start : Mark) : Scan (Chomping × Option Nat) := do
  match ← takeChomping with
  | some chomping => return (chomping, ← takeIndentation start)
  | none =>
    let indentation ← takeIndentation start
    let chomping ← if indentation.isSome then takeChomping else pure none
    return (chomping.getD .clip, indentation)

/-- Takes empty lines, at most `count`, and the indentation of the line after them. `indent` is the
indentation of the block if it is known. The answer is the line breaks and the widest
indentation. -/
def emptyLines (indent : Option Nat) (start : Mark) : (count : Nat) → (breaks : List Char) →
    (widest : Nat) → Scan (List Char × Nat)
  | 0, breaks, widest => pure (breaks, widest)
  | count + 1, breaks, widest => do
    let c ← get
    let spaces := (c.run (· == ' ')).length
    let skipped := match indent with
      | some n => min spaces (n - c.mark.column)
      | none => spaces
    Scan.move (·.skipMany skipped)
    let c ← get
    let widest := max widest c.mark.column
    if c.sees '\t' && indent.all (c.mark.column < ·) then
      Scan.fail .tabInBlock .blockScalar start
    else if c.head.any isBreak then
      emptyLines indent start count (breaks ++ (← Scan.takeBreak)) widest
    else return (breaks, widest)

/-- A block that is partly read. -/
structure BlockLines where
  text : List Char := []
  /-- The line break after the last line. -/
  leading : List Char := []
  /-- The empty lines after that. -/
  trailing : List Char := []
  /-- The last line starts with a blank. -/
  indented : Bool := false
  deriving DecidableEq, Repr

/-- The text of a block up to its next line. A folded block joins lines by blanks, except those that
start with a blank. -/
def BlockLines.joined (b : BlockLines) (folded nextIndented : Bool) : List Char :=
  if folded && b.leading == ['\n'] && !b.indented && !nextIndented then
    b.text ++ (if b.trailing.isEmpty then [' '] else []) ++ b.trailing
  else b.text ++ b.leading ++ b.trailing

/-- Takes the lines of a block, at most `count`. -/
def blockLines (folded : Bool) (indent : Nat) (start : Mark) : (count : Nat) → BlockLines →
    Scan BlockLines
  | 0, b => pure b
  | count + 1, b => do
    let c ← get
    if c.mark.column != indent || c.head.isNone then return b
    let indented := c.head.any isSpaceOrTab
    let text := b.joined folded indented
    let line ← Scan.takeRun (!isBreak ·)
    let leading ← Scan.takeBreak
    let (trailing, _) ← emptyLines (some indent) start (c.rest.length + 1) [] 0
    blockLines folded indent start count { text := text ++ line, leading, trailing, indented }

/-- A block scalar inside a block that is indented by `indent`, which is -1 at the top. -/
def blockScalar (folded : Bool) (indent : Int) : Scan (List Char) := do
  let c ← get
  let start := c.mark
  Scan.move (·.skip)
  let (chomping, indentation) ← blockHeader start
  Scan.finishLine .blockScalar start
  let known := indentation.map fun n => if 0 ≤ indent then indent.toNat + n else n
  let (breaks, widest) ← emptyLines known start (c.rest.length + 1) [] 0
  let width := known.getD (max (max widest (indent + 1).toNat) 1)
  let b ← blockLines folded width start (c.rest.length + 1) { trailing := breaks }
  return b.text ++ (if chomping == .strip then [] else b.leading) ++
    if chomping == .keep then b.trailing else []

end GodotLint.Yaml
