import GodotLint.Yaml.Token

/-!
# Streams of tokens

Tokens are made one by one as they are asked for. A node may turn out to be a key only when the
colon after it is met: until then it is kept as a candidate, and no token from it on is handed out.
The candidate is then preceded by a token of its own, and by the start of a mapping where the
indentation grows.
-/

namespace GodotLint.Yaml

open Text

/-- A node that may be a key. -/
structure KeyCandidate where
  /-- The line is indented as its block is, so that it has to be a key. -/
  required : Bool
  /-- The number of tokens before it. -/
  number : Nat
  mark : Mark
  deriving DecidableEq, Repr

/-- How many characters a key may have. -/
def maxKeyLength : Nat := 1024

/-- A text that is being cut into tokens. -/
structure Stream where
  cursor : Cursor
  /-- Tokens that are made and not yet handed out. -/
  queue : List Lexeme := []
  /-- The number of tokens that were handed out. -/
  taken : Nat := 0
  /-- The indentation of the innermost block, -1 outside blocks. -/
  indent : Int := -1
  /-- The indentations of the blocks around it. -/
  outer : List Int := []
  /-- The candidate of the innermost flow collection, or of the blocks. -/
  candidate : Option KeyCandidate := none
  /-- The candidates around it, one for each flow collection. -/
  around : List (Option KeyCandidate) := []
  /-- A node that starts here may be a key. -/
  mayStartKey : Bool := true
  deriving Repr

namespace Stream

/-- Whether the place is within a flow collection. -/
def inFlow (s : Stream) : Bool := !s.around.isEmpty

/-- The place. -/
def mark (s : Stream) : Mark := s.cursor.mark

/-- The column. -/
def column (s : Stream) : Int := s.mark.column

/-- Adds a token that starts at a place. -/
def push (s : Stream) (token : Token) (start : Mark) : Stream :=
  { s with queue := s.queue ++ [⟨token, start⟩] }

/-- Puts a token before the one that has the given number. -/
def pushAt (s : Stream) (number : Nat) (token : Token) (start : Mark) : Stream :=
  let n := number - s.taken
  { s with queue := s.queue.take n ++ ⟨token, start⟩ :: s.queue.drop n }

/-- A problem at the place that needs no more words. -/
def fail (s : Stream) (problem : Problem) : Except Fault α := .error (s.cursor.fault problem none)

/-- Runs a scan. -/
def scan (s : Stream) (x : Scan α) : Except Fault (α × Stream) := do
  let (a, cursor) ← x.run s.cursor
  return (a, { s with cursor })

/-! ## Candidates -/

/-- The fault of a node that has to be a key and is none. -/
def missingColon (s : Stream) (k : KeyCandidate) : Fault :=
  s.cursor.fault .noColon (some (.simpleKey, k.mark))

/-- Whether a candidate is out of reach: a key is on one line, and short. -/
def isStale (s : Stream) (k : KeyCandidate) : Bool :=
  k.mark.line < s.mark.line || k.mark.index + maxKeyLength < s.mark.index

/-- Drops a candidate that is out of reach. -/
def refresh (s : Stream) (k : Option KeyCandidate) : Except Fault (Option KeyCandidate) :=
  match k with
  | none => .ok none
  | some k =>
    if !s.isStale k then .ok (some k)
    else if k.required then .error (s.missingColon k)
    else .ok none

/-- Drops all candidates that are out of reach, the outermost first. -/
def dropStale (s : Stream) : Except Fault Stream := do
  let around ← s.around.reverse.mapM s.refresh
  let candidate ← s.refresh s.candidate
  return { s with candidate, around := around.reverse }

/-- Drops the innermost candidate. -/
def dropCandidate (s : Stream) : Except Fault Stream :=
  match s.candidate with
  | some k => if k.required then .error (s.missingColon k) else .ok { s with candidate := none }
  | none => .ok s

/-- Makes the node that starts here the candidate, where it may be a key. -/
def offerKey (s : Stream) : Except Fault Stream := do
  if s.mayStartKey then
    let k : KeyCandidate :=
      { required := !s.inFlow && s.indent = s.column
        number := s.taken + s.queue.length
        mark := s.mark }
    let s ← s.dropCandidate
    return { s with candidate := some k }
  else return s

/-! ## Indentation -/

/-- Starts a block that is indented by `column`, if the innermost one is indented less. The token
goes before the one that has the given number, or at the end. -/
def openBlock (s : Stream) (column : Int) (number : Option Nat) (token : Token) (start : Mark) :
    Stream :=
  if s.inFlow || column ≤ s.indent then s
  else
    let s := { s with indent := column, outer := s.indent :: s.outer }
    match number with
    | some n => s.pushAt n token start
    | none => s.push token start

/-- Ends the blocks that are indented by more than `column`. -/
def closeBlocksFrom (column : Int) : (outer : List Int) → Stream → Stream
  | [], s => s
  | indent :: outer, s =>
    if s.indent ≤ column then s
    else closeBlocksFrom column outer { s.push .blockEnd s.mark with indent, outer }

/-- Ends the blocks that are indented by more than `column`. -/
def closeBlocks (s : Stream) (column : Int) : Stream :=
  if s.inFlow then s else closeBlocksFrom column s.outer s

/-! ## Tokens -/

/-- Skips blanks, comments and line breaks, at most `count` lines of them. Tabs do not indent. -/
def skipGaps : (count : Nat) → Stream → Stream
  | 0, s => s
  | count + 1, s =>
    let c := s.cursor
    let c := if c.mark.index = 0 && c.sees '\ufeff' then c.skip else c
    let c := c.skipRun fun x => x == ' ' || (x == '\t' && (s.inFlow || !s.mayStartKey))
    let c := if c.sees '#' then c.skipToBreak else c
    if c.head.any isBreak then
      skipGaps count { s with cursor := c.takeBreak.2, mayStartKey := s.mayStartKey || !s.inFlow }
    else { s with cursor := c }

/-- Adds a token of `n` characters. -/
def pushMark (s : Stream) (token : Token) (n : Nat) : Stream :=
  { s.push token s.mark with cursor := s.cursor.skipMany n }

/-- Adds the end of the text. -/
def pushEnd (s : Stream) : Except Fault Stream := do
  let c := s.cursor
  let cursor := if c.mark.column = 0 then c else c.newLine 0
  let s ← ({ s with cursor }.closeBlocks (-1)).dropCandidate
  return { s.push .streamEnd s.mark with mayStartKey := false }

/-- Adds a directive. -/
def pushDirective (s : Stream) : Except Fault Stream := do
  let s ← (s.closeBlocks (-1)).dropCandidate
  let start := s.mark
  let (token, s) ← { s with mayStartKey := false }.scan directive
  return s.push token start

/-- Adds a mark between documents. -/
def pushDocumentMark (s : Stream) (token : Token) : Except Fault Stream := do
  let s ← (s.closeBlocks (-1)).dropCandidate
  return { s with mayStartKey := false }.pushMark token 3

/-- Adds the start of a flow collection. -/
def pushFlowStart (s : Stream) (token : Token) : Except Fault Stream := do
  let s ← s.offerKey
  let s := { s with candidate := none, around := s.candidate :: s.around, mayStartKey := true }
  return s.pushMark token 1

/-- Adds the end of a flow collection. -/
def pushFlowEnd (s : Stream) (token : Token) : Except Fault Stream := do
  let s ← s.dropCandidate
  let s := match s.around with
    | k :: around => { s with candidate := k, around }
    | [] => s
  return { s with mayStartKey := false }.pushMark token 1

/-- Adds a comma. -/
def pushFlowEntry (s : Stream) : Except Fault Stream := do
  let s ← s.dropCandidate
  return { s with mayStartKey := true }.pushMark .flowEntry 1

/-- Adds the mark of an entry of a block sequence. -/
def pushBlockEntry (s : Stream) : Except Fault Stream := do
  if !s.inFlow && !s.mayStartKey then s.fail .misplacedEntry
  else
    let s ← (s.openBlock s.column none .blockSequenceStart s.mark).dropCandidate
    return { s with mayStartKey := true }.pushMark .blockEntry 1

/-- Adds the mark of a key. -/
def pushKey (s : Stream) : Except Fault Stream := do
  if !s.inFlow && !s.mayStartKey then s.fail .misplacedKey
  else
    let s ← (s.openBlock s.column none .blockMappingStart s.mark).dropCandidate
    return { s with mayStartKey := !s.inFlow }.pushMark .key 1

/-- Adds the mark of a value. If there is a candidate, it becomes a key. -/
def pushValue (s : Stream) : Except Fault Stream :=
  match s.candidate with
  | some k =>
    let s := s.pushAt k.number .key k.mark
    let s := s.openBlock k.mark.column (some k.number) .blockMappingStart k.mark
    .ok ({ s with candidate := none, mayStartKey := false }.pushMark .value 1)
  | none =>
    if !s.inFlow && !s.mayStartKey then s.fail .misplacedValue
    else
      let s := s.openBlock s.column none .blockMappingStart s.mark
      .ok ({ s with mayStartKey := !s.inFlow }.pushMark .value 1)

/-- Adds a token that starts a node and may be a key. -/
def pushNodeStart (s : Stream) (x : Scan Token) : Except Fault Stream := do
  let s ← s.offerKey
  let start := s.mark
  let (token, s) ← { s with mayStartKey := false }.scan x
  return s.push token start

/-- Adds a block scalar. -/
def pushBlockScalar (s : Stream) (style : ScalarStyle) : Except Fault Stream := do
  let s ← s.dropCandidate
  let start := s.mark
  let (text, s) ←
    { s with mayStartKey := true }.scan (blockScalar (style == ScalarStyle.folded) s.indent)
  return s.push (.scalar (str text) style) start

/-- Adds a plain scalar. A node after its line may be a key again. -/
def pushPlain (s : Stream) : Except Fault Stream := do
  let s ← s.offerKey
  let start := s.mark
  let ((text, broken), s) ← s.scan (plainScalar s.inFlow (s.indent + 1))
  return { s with mayStartKey := broken }.push (.scalar (str text) .plain) start

/-- Whether a plain scalar starts here. Most marks cannot start one, and three only do where no gap
follows. -/
def startsPlain (s : Stream) : Bool :=
  let next := s.cursor.ahead 1
  match s.cursor.head with
  | none => false
  | some c =>
    if c == '-' then !next.any isSpaceOrTab
    else if c == '?' || c == ':' then !s.inFlow && !isGap next
    else !isGap (some c) && !",[]\x7b\x7d#&*!|>\x27\"%@\x60".toList.contains c

/-- Adds the next token. -/
def pushNext (s : Stream) : Except Fault Stream := do
  let s ← (skipGaps (s.cursor.rest.length + 1) s).dropStale
  let s := s.closeBlocks s.column
  let c := s.cursor
  let stands := isGap (c.ahead 1)
  match c.head with
  | none => s.pushEnd
  | some x =>
    if c.mark.column = 0 && x == '%' then s.pushDirective
    else if c.atDocumentMark then
      s.pushDocumentMark (if x == '-' then .documentStart else .documentEnd)
    else if x == '[' then s.pushFlowStart .flowSequenceStart
    else if x == '\x7b' then s.pushFlowStart .flowMappingStart
    else if x == ']' then s.pushFlowEnd .flowSequenceEnd
    else if x == '\x7d' then s.pushFlowEnd .flowMappingEnd
    else if x == ',' then s.pushFlowEntry
    else if x == '-' && stands then s.pushBlockEntry
    else if x == '?' && (s.inFlow || stands) then s.pushKey
    else if x == ':' && (s.inFlow || stands) then s.pushValue
    else if x == '*' then s.pushNodeStart (Token.alias <$> anchorName .alias)
    else if x == '&' then s.pushNodeStart (Token.anchor <$> anchorName .anchor)
    else if x == '!' then
      s.pushNodeStart (tagParts s.inFlow >>= fun (handle, rest) => pure (.tag handle rest))
    else if x == '|' && !s.inFlow then s.pushBlockScalar .literal
    else if x == '>' && !s.inFlow then s.pushBlockScalar .folded
    else if x == '\x27' || x == '"' then
      s.pushNodeStart (quotedScalar (x == '\x27') >>= fun text =>
        pure (.scalar (str text) .quoted))
    else if s.startsPlain then s.pushPlain
    else .error (c.fault .strangeStart (some (.nextToken, c.mark)))

/-- Whether the token at the head of the queue may still be preceded by others. -/
def isHeadOpen (s : Stream) : Bool :=
  (s.candidate :: s.around).any fun k => k.any (·.number = s.taken)

/-- Makes tokens until the first one can be handed out, at most `count`. -/
def fill : (count : Nat) → Stream → Except Fault Stream
  | 0, s => .ok s
  | count + 1, s => do
    match s.queue with
    | [] => fill count (← s.pushNext)
    | _ :: _ =>
      let s ← s.dropStale
      if s.isHeadOpen then fill count (← s.pushNext) else return s

/-- The next token, left in place. Each step makes a token of the text, and the last two find its
end. -/
def peek (s : Stream) : Except Fault (Lexeme × Stream) := do
  let s ← fill (s.cursor.rest.length + 3) s
  return (s.queue.headD ⟨.streamEnd, s.mark⟩, s)

/-- Hands out the next token. -/
def drop (s : Stream) : Stream := { s with queue := s.queue.tail, taken := s.taken + 1 }

/-- The number of bytes before the first character that no text may hold. -/
def controlAt? (s : List Char) : Option Nat :=
  if s.all isAllowed then none else some (width (s.takeWhile isAllowed))

/-- The stream of a text. -/
def ofText (text : List Char) : Except Fault Stream :=
  match controlAt? text with
  | some bytes => .error (.controlCharacter bytes)
  | none => .ok { cursor := ⟨text, {}⟩ }

end Stream

end GodotLint.Yaml
