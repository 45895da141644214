import GodotLint.Script.Function
import GodotLint.Text.CaseMap

/-!
# Literals of a script

String literals outside constants, and the numbers in function bodies that may deserve a name. A
string is read on one line, with backslash escapes.
-/

namespace GodotLint

open Text

/-- A string literal. -/
structure StringLiteral where
  /-- The text between the quotation marks, as written. -/
  value : String
  line : Nat
  deriving DecidableEq, Repr

/-- What a number seems to measure. -/
inductive NumberCategory where
  | timing
  | geometry
  | color
  | gameplay
  | generic
  deriving DecidableEq, Repr

/-- The name of the category in reports. -/
def NumberCategory.name : NumberCategory → String
  | .timing => "timing"
  | .geometry => "geometry"
  | .color => "color"
  | .gameplay => "gameplay"
  | .generic => "generic"

/-- A number in a function body. -/
structure NumberLiteral where
  /-- The number as written, with its sign. -/
  value : String
  line : Nat
  category : NumberCategory
  function : String
  deriving DecidableEq, Repr

namespace Script

open Pattern

/-! ## Strings -/

/-- The inside of a literal that `mark` encloses: backslash escapes and other characters. -/
def literalBody (mark : Char) : Pattern :=
  .star (.noneOf [.only mark, .only '\\'] <|> .char '\\' ++ .any)

/-- A string literal, its inside as group 1 or 2. -/
def stringLiteral : Pattern :=
  .char '"' ++ .group 1 (literalBody '"') ++ .char '"' <|>
    .char '\x27' ++ .group 2 (literalBody '\x27') ++ .char '\x27'

/-- A string literal of which nothing is remembered. -/
def stringShape : Pattern :=
  .char '"' ++ literalBody '"' ++ .char '"' <|> .char '\x27' ++ literalBody '\x27' ++ .char '\x27'

/-- The string literals on one line, none on a line that defines a constant. -/
def stringsOfLine (raw : List Char) (line : Nat) : List StringLiteral :=
  let code := Line.code raw
  if startsWith "const ".toList (trimStart code) then []
  else (stringLiteral.findAll code).map fun m => { value := str (m.group 1 ++ m.group 2), line }

/-- The string literals of a script. -/
def strings (lines : List (List Char)) : List StringLiteral :=
  (lines.zipIdx 1).flatMap fun (raw, line) => stringsOfLine raw line

/-! ## Numbers -/

/-- The words that tell a category, in the order in which the categories are tried. -/
def categoryWords : List (NumberCategory × List String) :=
  [(.timing, ["timer", "wait", "delay", "duration", "seconds", "interval", "cooldown"]),
   (.color, ["color(", "modulate", "alpha"]),
   (.geometry, ["vector2", "vector3", "position", "size", "offset", "scale", "rect2", "margin"]),
   (.gameplay, ["hp", "health", "damage", "gold", "score", "speed", "cost", "xp", "wave"])]

/-- What the numbers on a line of code seem to measure. -/
def categoryOfLine (code : List Char) : NumberCategory :=
  let lowered := lower code
  match categoryWords.find? fun (_, words) => words.any (contains ·.toList lowered) with
  | some (category, _) => category
  | none => .generic

/-- Digits and underscores. -/
def isDigitOrUnderscore (c : Char) : Bool := isAsciiDigit c || c == '_'

/-- Hexadecimal digits and underscores. -/
def isHexOrUnderscore (c : Char) : Bool :=
  isAsciiDigit c || ('a' ≤ c && c ≤ 'f') || ('A' ≤ c && c ≤ 'F') || c == '_'

/-- How many characters at the start of a text are a fraction: a point and digits. -/
def fractionLength : List Char → Nat
  | '.' :: d :: rest => if isAsciiDigit d then 2 + (rest.takeWhile isAsciiDigit).length else 0
  | _ => 0

/-- How many characters at the start of a text are an exponent. -/
def exponentLength : List Char → Nat
  | e :: rest =>
    if e == 'e' || e == 'E' then
      let signed := match rest with
        | s :: _ => if s == '-' || s == '+' then 1 else 0
        | [] => 0
      let digits := ((rest.drop signed).takeWhile isAsciiDigit).length
      if digits = 0 then 0 else 1 + signed + digits
    else 0
  | [] => 0

/-- How many characters of a text that starts with a digit are a number. -/
def numberLength (s : List Char) : Nat :=
  match s with
  | '0' :: c :: rest =>
    if c == 'x' || c == 'b' then 2 + (rest.takeWhile isHexOrUnderscore).length
    else decimalLength s
  | _ => decimalLength s
where
  /-- The same for a decimal number. -/
  decimalLength (s : List Char) : Nat :=
    let whole := (s.takeWhile isDigitOrUnderscore).length
    let fraction := fractionLength (s.drop whole)
    whole + fraction + exponentLength (s.drop (whole + fraction))

/-- A piece of a line, its byte offset, and the text before and after it. -/
structure NumberToken where
  /-- The characters before the token, the nearest first. -/
  passed : List Char
  chars : List Char
  rest : List Char
  deriving DecidableEq, Repr

/-- The byte offset of a token. -/
def NumberToken.start (t : NumberToken) : Nat := width t.passed

/-- Characters after which a minus is a sign and no subtraction. -/
def beforeSign : List Char := ['(', ',', '=', '[', ':', '<', '>', '+', '*', '/']

/-- White space of ASCII, without the vertical tab. -/
def isAsciiBlank (c : Char) : Bool :=
  c == ' ' || c == '\t' || c == '\n' || c == '\x0c' || c == '\r'

/-- Takes a minus before a number into the token if it is a sign. -/
def NumberToken.withSign (t : NumberToken) : NumberToken :=
  match t.passed with
  | '-' :: before =>
    let isSign := match before.dropWhile isAsciiBlank with
      | [] => true
      | c :: _ => beforeSign.contains c
    if isSign then { t with passed := before, chars := '-' :: t.chars } else t
  | _ => t

/-- The numbers in a text of which `passed`, the nearest first, was read, at most `count` of its
pieces. A digit that continues a word or follows a point starts no number, and a number that a
letter or an underscore continues is none. -/
def numberTokensFrom : (count : Nat) → (passed rest : List Char) → List NumberToken
  | 0, _, _ => []
  | _ + 1, _, [] => []
  | count + 1, passed, c :: rest =>
    if !isAsciiDigit c then numberTokensFrom count (c :: passed) rest
    else
      let skip (n : Nat) : List Char × List Char :=
        (((c :: rest).take n).reverse ++ passed, (c :: rest).drop n)
      let continues := match passed with
        | p :: _ => isIdentChar p || p == '.'
        | [] => false
      if continues then
        let (passed, rest) := skip (((c :: rest).takeWhile isIdentChar).length)
        numberTokensFrom count passed rest
      else
        let length := numberLength (c :: rest)
        let (passed', rest') := skip length
        match rest' with
        | d :: _ =>
          if isAsciiLetter d || d == '_' then
            let (passed, rest) := skip (length + (rest'.takeWhile isIdentChar).length)
            numberTokensFrom count passed rest
          else
            NumberToken.withSign ⟨passed, (c :: rest).take length, rest'⟩ ::
              numberTokensFrom count passed' rest'
        | [] => [NumberToken.withSign ⟨passed, (c :: rest).take length, []⟩]

/-- The numbers in a text. -/
def numberTokens (s : List Char) : List NumberToken := numberTokensFrom s.length [] s

/-- A number that is the whole of a subscript. -/
def NumberToken.isSubscript (t : NumberToken) : Bool :=
  (t.passed.dropWhile isBlank).head? == some '[' && (trimStart t.rest).head? == some ']'

/-- Numbers that need no name. -/
def acceptableNumbers : List String :=
  ["0", "1", "2", "-1", "0.0", "1.0", "-1.0", "0.5", "2.0", "10", "100"]

/-- Lines whose numbers are named or annotated. -/
def namesNumbers : Pattern :=
  .atStart ++ blanks ++ choice [lit "const" ++ .wordEdge, lit "enum" ++ .wordEdge, .char '@',
    lit "static" ++ blanks1 ++ lit "const" ++ .wordEdge]

/-- The numbers on one line of a function body. -/
def numbersOfLine (functions : List Function) (raw : List Char) (line : Nat) :
    List NumberLiteral :=
  match Function.enclosingBody? functions line with
  | none => []
  | some function =>
    let code := Line.code raw
    if namesNumbers.occursIn code then []
    else
      let category := categoryOfLine code
      (numberTokens (Line.mask code)).filterMap fun t =>
        if acceptableNumbers.contains (str t.chars) || t.isSubscript then none
        else some { value := str t.chars, line, category, function }

/-- The numbers of a script. -/
def numbers (lines : List (List Char)) (functions : List Function) : List NumberLiteral :=
  (lines.zipIdx 1).flatMap fun (raw, line) => numbersOfLine functions raw line

end Script

end GodotLint
