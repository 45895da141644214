import GodotLint.Json.Basic

/-!
# Reading JSON

A strict reader. A fault names its cause and its place: the line, and the bytes of that line up to
and with the character at which reading stopped. Values may be nested 127 deep. A number is whole
if it is written without point and exponent and fits 64 bits; any other is computed from its
leading digits, as many as fit 64 bits, and a power of ten.
-/

namespace GodotLint.Json

open Text

/-- Why a text is no document. -/
inductive Cause where
  | endInList
  | endInObject
  | endInString
  | endInValue
  | expectedColon
  | expectedListEnd
  | expectedObjectEnd
  | expectedIdent
  | expectedValue
  | invalidEscape
  | invalidNumber
  | numberOutOfRange
  | controlCharacter
  | keyNotString
  | loneSurrogate
  | trailingComma
  | trailingCharacters
  | endOfHexEscape
  | tooDeep
  deriving DecidableEq, Repr

/-- The words for a cause. -/
def Cause.message : Cause → String
  | .endInList => "EOF while parsing a list"
  | .endInObject => "EOF while parsing an object"
  | .endInString => "EOF while parsing a string"
  | .endInValue => "EOF while parsing a value"
  | .expectedColon => "expected `:`"
  | .expectedListEnd => "expected `,` or `]`"
  | .expectedObjectEnd => "expected `,` or `\x7d`"
  | .expectedIdent => "expected ident"
  | .expectedValue => "expected value"
  | .invalidEscape => "invalid escape"
  | .invalidNumber => "invalid number"
  | .numberOutOfRange => "number out of range"
  | .controlCharacter => "control character (\\u0000-\\u001F) found while parsing a string"
  | .keyNotString => "key must be a string"
  | .loneSurrogate => "lone leading surrogate in hex escape"
  | .trailingComma => "trailing comma"
  | .trailingCharacters => "trailing characters"
  | .endOfHexEscape => "unexpected end of hex escape"
  | .tooDeep => "recursion limit exceeded"

/-- A cause and its place. -/
structure Fault where
  cause : Cause
  line : Nat
  column : Nat
  deriving DecidableEq, Repr

/-- The words for a fault. -/
def Fault.message (f : Fault) : String :=
  f.cause.message ++ " at line " ++ toString f.line ++ " column " ++ toString f.column

/-- The text that is still to be read and the place where it starts. -/
structure Input where
  rest : List Char
  line : Nat := 1
  /-- Bytes since the start of the line. -/
  column : Nat := 0

/-- Line and column after some more bytes of a text. -/
def placeAfter : List Char → (bytes line column : Nat) → Nat × Nat
  | [], _, line, column => (line, column)
  | c :: rest, bytes, line, column =>
    if bytes = 0 then (line, column)
    else if c == '\n' then placeAfter rest (bytes - 1) (line + 1) 0
    else
      let taken := min c.utf8Size bytes
      placeAfter rest (bytes - taken) line (column + taken)

/-- A part of the reader. -/
abbrev Reader := StateT Input (Except Fault)

namespace Reader

/-- Stops as if the next bytes were read. -/
def failAfter (bytes : Nat) (cause : Cause) : Reader α := fun s =>
  let (line, column) := placeAfter s.rest bytes s.line s.column
  .error ⟨cause, line, column⟩

/-- Stops because of what was read last. -/
def fail (cause : Cause) : Reader α := failAfter 0 cause

/-- Stops because of what comes next: its first byte counts as read. -/
def failAhead (cause : Cause) : Reader α := failAfter 1 cause

/-- The next character, left in place. -/
def peek : Reader (Option Char) := fun s => .ok (s.rest.head?, s)

/-- Takes the next character. -/
def next : Reader (Option Char) := fun s =>
  match s.rest with
  | [] => .ok (none, s)
  | c :: rest =>
    .ok (some c, if c == '\n' then ⟨rest, s.line + 1, 0⟩ else ⟨rest, s.line, s.column + c.utf8Size⟩)

/-- The number of characters that are still to be read. -/
def remaining : Reader Nat := fun s => .ok (s.rest.length, s)

/-- White space of JSON. -/
def isSpace (c : Char) : Bool := c == ' ' || c == '\n' || c == '\t' || c == '\r'

/-- Takes characters as long as they satisfy `p`, at most `count`. -/
def takeChars (p : Char → Bool) : (count : Nat) → Reader (List Char)
  | 0 => pure []
  | count + 1 => do
    match ← peek with
    | some c =>
      if p c then
        let _ ← next
        return c :: (← takeChars p count)
      else return []
    | none => return []

/-- Takes all characters that satisfy `p`. -/
def takeWhile (p : Char → Bool) : Reader (List Char) := do takeChars p (← remaining)

/-- Skips white space and looks at what follows. -/
def peekPastSpace : Reader (Option Char) := do
  let _ ← takeWhile isSpace
  peek

/-- Takes the characters of a word. -/
def expectChars : List Char → Reader Unit
  | [] => pure ()
  | expected :: rest => do
    match ← next with
    | none => fail .endInValue
    | some c => if c == expected then expectChars rest else fail .expectedIdent

/-! ## Strings -/

/-- Takes four hexadecimal digits. -/
def hexEscape : Reader Nat := fun s =>
  match s.rest.take 4, (s.rest.take 4).mapM hexDigit? with
  | [_, _, _, _], some digits =>
    .ok (digits.foldl (16 * · + ·) 0, { s with rest := s.rest.drop 4, column := s.column + 4 })
  | _, _ =>
    if width s.rest < 4 then failAfter (width s.rest) .endInString s
    else failAfter 4 .invalidEscape s

/-- Takes the character that the second half of a surrogate pair must start with. -/
def expectInPair (expected : Char) : Reader Unit := do
  match ← peek with
  | none => fail .endInString
  | some c => if c == expected then let _ ← next else failAhead .endOfHexEscape

/-- Takes a character written as `\u` and hexadecimal digits, two such for one above U+FFFF. -/
def unicodeEscape : Reader Char := do
  let n ← hexEscape
  if 0xDC00 ≤ n && n ≤ 0xDFFF then fail .loneSurrogate
  else if n < 0xD800 || 0xDBFF < n then return Char.ofNat n
  else
    expectInPair '\\'
    expectInPair 'u'
    let m ← hexEscape
    if m < 0xDC00 || 0xDFFF < m then fail .loneSurrogate
    else return Char.ofNat ((n - 0xD800) * 0x400 + (m - 0xDC00) + 0x10000)

/-- Takes the rest of an escape after its backslash. -/
def escape : Reader Char := do
  match ← next with
  | none => fail .endInString
  | some 'u' => unicodeEscape
  | some '"' => return '"'
  | some '\\' => return '\\'
  | some '/' => return '/'
  | some 'b' => return '\x08'
  | some 'f' => return '\x0c'
  | some 'n' => return '\n'
  | some 'r' => return '\r'
  | some 't' => return '\t'
  | some _ => fail .invalidEscape

/-- Takes the rest of a string after its opening mark, at most `count` characters. -/
def stringChars : (count : Nat) → Reader (List Char)
  | 0 => fail .endInString
  | count + 1 => do
    match ← next with
    | none => fail .endInString
    | some c =>
      if c == '"' then return []
      else if c == '\\' then
        let e ← escape
        return e :: (← stringChars count)
      else if c.toNat < 0x20 then fail .controlCharacter
      else return c :: (← stringChars count)

/-- Takes the rest of a string after its opening mark. -/
def string : Reader String := do return String.ofList (← stringChars ((← remaining) + 1))

/-! ## Numbers -/

/-- The largest whole number above zero that is kept as such. -/
def maxWhole : Nat := Nat.pow 2 64 - 1

/-- The value of a list of decimal digits. -/
def digitsValue (digits : List Char) : Nat :=
  digits.foldl (fun n c => 10 * n + (c.toNat - '0'.toNat)) 0

/-- As many digits as fit below `maxWhole` after a number, and how many are left. -/
def absorb (n : Nat) : List Char → Nat × List Char
  | [] => (n, [])
  | c :: rest =>
    let m := 10 * n + (c.toNat - '0'.toNat)
    if maxWhole < m then (n, c :: rest) else absorb m rest

/-- The powers of ten that are applied in one step. -/
def largestStep : Nat := 308

/-- A double times ten to the power `exponent`, in steps of at most `largestStep`, or none where it
overflows. `count` bounds the steps. -/
def scale (x : Float) (exponent : Int) : (count : Nat) → Option Float
  | 0 => some x
  | count + 1 =>
    if exponent.natAbs ≤ largestStep then
      let power := Float.ofScientific 1 false exponent.natAbs
      if 0 ≤ exponent then
        let y := x * power
        if y.isInf then none else some y
      else some (x / power)
    else if x == 0.0 then some x
    else if 0 ≤ exponent then none
    else scale (x / Float.ofScientific 1 false largestStep) (exponent + largestStep) count

/-- The number `significand * 10 ^ exponent`. -/
def real (negative : Bool) (significand : Nat) (exponent : Int) : Reader JsonNumber :=
  match scale (Float.ofNat significand) exponent (exponent.natAbs + 1) with
  | none => fail .numberOutOfRange
  | some x => return .real (if negative then -x else x)

/-- The largest exponent that is counted. -/
def maxExponent : Nat := Nat.pow 2 31 - 1

/-- Takes an exponent after the digits of a number. -/
def exponent (negative : Bool) (significand : Nat) (start : Int) : Reader JsonNumber := do
  let _ ← next
  let below ← do
    match ← peek with
    | some '+' => let _ ← next; pure false
    | some '-' => let _ ← next; pure true
    | _ => pure false
  match ← next with
  | none => fail .endInValue
  | some c =>
    if !isAsciiDigit c then fail .invalidNumber
    else
      let rest ← exponentDigits (c.toNat - '0'.toNat) (← remaining)
      match rest with
      | some n =>
        real negative significand (if below then start - n else start + n)
      | none =>
        if significand != 0 && !below then fail .numberOutOfRange
        else
          let _ ← takeWhile isAsciiDigit
          return .real (if negative then -0.0 else 0.0)
where
  /-- Takes the digits of an exponent, or none of the rest once it grows too large. -/
  exponentDigits (n : Nat) : (count : Nat) → Reader (Option Nat)
    | 0 => pure (some n)
    | count + 1 => do
      match ← peek with
      | some c =>
        if isAsciiDigit c then
          let _ ← next
          let m := 10 * n + (c.toNat - '0'.toNat)
          if maxExponent < m then return none else exponentDigits m count
        else return some n
      | none => return some n

/-- Takes an exponent if there is one. -/
def exponentIfAny (negative : Bool) (significand : Nat) (start : Int) : Reader JsonNumber := do
  match ← peek with
  | some 'e' => exponent negative significand start
  | some 'E' => exponent negative significand start
  | _ => real negative significand start

/-- Takes a fraction and what follows it. Digits that the significand has no room for are
dropped. -/
def fraction (negative : Bool) (significand : Nat) (start : Int) : Reader JsonNumber := do
  let _ ← next
  let digits ← takeWhile isAsciiDigit
  if digits.isEmpty then
    match ← peek with
    | some _ => failAhead .invalidNumber
    | none => failAhead .endInValue
  else
    let (significand, left) := absorb significand digits
    exponentIfAny negative significand (start - (digits.length - left.length : Nat))

/-- Takes what follows the whole part of a number that fits 64 bits. -/
def afterWhole (negative : Bool) (n : Nat) : Reader JsonNumber := do
  match ← peek with
  | some '.' => fraction negative n 0
  | some 'e' => exponent negative n 0
  | some 'E' => exponent negative n 0
  | _ =>
    if !negative then return .whole n
    else if n = 0 || Nat.pow 2 63 < n then return .real (-(Float.ofNat n))
    else return .whole (-n)

/-- Takes a number after its sign. -/
def number (negative : Bool) : Reader JsonNumber := do
  match ← next with
  | none => fail .endInValue
  | some c =>
    if c == '0' then
      match ← peek with
      | some d => if isAsciiDigit d then failAhead .invalidNumber else afterWhole negative 0
      | none => afterWhole negative 0
    else if !isAsciiDigit c then fail .invalidNumber
    else
      let digits ← takeWhile isAsciiDigit
      let (significand, left) := absorb 0 (c :: digits)
      if left.isEmpty then afterWhole negative significand
      else
        match ← peek with
        | some '.' => fraction negative significand left.length
        | _ => exponentIfAny negative significand left.length

/-! ## Values -/

/-- How deep values may be nested. -/
def maxDepth : Nat := 127

mutual

/-- Takes a value, `depth` levels of nesting being left; `fuel` bounds the parts of the value. -/
def value : (fuel depth : Nat) → Reader Json
  | 0, _ => fail .endInValue
  | fuel + 1, depth => do
    match ← peekPastSpace with
    | none => failAhead .endInValue
    | some c =>
      if c == 'n' then
        let _ ← next
        expectChars ['u', 'l', 'l']
        return .null
      else if c == 't' then
        let _ ← next
        expectChars ['r', 'u', 'e']
        return .bool true
      else if c == 'f' then
        let _ ← next
        expectChars ['a', 'l', 's', 'e']
        return .bool false
      else if c == '-' then
        let _ ← next
        return .num (← number true)
      else if isAsciiDigit c then return .num (← number false)
      else if c == '"' then
        let _ ← next
        return .str (← string)
      else if c == '[' then
        match depth with
        | 0 => failAhead .tooDeep
        | depth + 1 =>
          let _ ← next
          return .arr (← items fuel depth true)
      else if c == '\x7b' then
        match depth with
        | 0 => failAhead .tooDeep
        | depth + 1 =>
          let _ ← next
          return .obj (← members fuel depth true .empty).entries
      else failAhead .expectedValue

/-- Takes the items of an array and its closing bracket. -/
def items : (fuel depth : Nat) → (first : Bool) → Reader (List Json)
  | 0, _, _ => fail .endInList
  | fuel + 1, depth, first => do
    match ← peekPastSpace with
    | none => failAhead .endInList
    | some c =>
      if c == ']' then
        let _ ← next
        return []
      else if first then
        let v ← value fuel depth
        return v :: (← items fuel depth false)
      else if c == ',' then
        let _ ← next
        match ← peekPastSpace with
        | none => failAhead .endInValue
        | some ']' => failAhead .trailingComma
        | some _ =>
          let v ← value fuel depth
          return v :: (← items fuel depth false)
      else failAhead .expectedListEnd

/-- Takes the members of an object and its closing brace, the ones before it given. -/
def members : (fuel depth : Nat) → (first : Bool) → SortedMap Json → Reader (SortedMap Json)
  | 0, _, _, _ => fail .endInObject
  | fuel + 1, depth, first, before => do
    match ← peekPastSpace with
    | none => failAhead .endInObject
    | some c =>
      if c == '\x7d' then
        let _ ← next
        return before
      else if first then
        if c == '"' then member fuel depth before else failAhead .keyNotString
      else if c == ',' then
        let _ ← next
        match ← peekPastSpace with
        | none => failAhead .endInValue
        | some '"' => member fuel depth before
        | some '\x7d' => failAhead .trailingComma
        | some _ => failAhead .keyNotString
      else failAhead .expectedObjectEnd

/-- Takes one member, whose key comes next, and those after it. -/
def member : (fuel depth : Nat) → SortedMap Json → Reader (SortedMap Json)
  | 0, _, _ => fail .endInObject
  | fuel + 1, depth, before => do
    let _ ← next
    let key ← string
    match ← peekPastSpace with
    | none => failAhead .endInObject
    | some c =>
      if c == ':' then
        let _ ← next
        let v ← value fuel depth
        members fuel depth false (before.insert key v)
      else failAhead .expectedColon

end

/-- Takes a document and makes sure that nothing follows. -/
def document : Reader Json := do
  let v ← value (2 * (← remaining) + 2) maxDepth
  match ← peekPastSpace with
  | none => return v
  | some _ => failAhead .trailingCharacters

end Reader

/-- Reads a document. -/
def read (s : List Char) : Except Fault Json :=
  match Reader.document { rest := s } with
  | .ok (v, _) => .ok v
  | .error fault => .error fault

end GodotLint.Json
