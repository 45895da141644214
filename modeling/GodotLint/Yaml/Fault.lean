/-!
# Faults of YAML documents

What is wrong with a document, where, and what the reader was about when it found out.
-/

namespace GodotLint.Yaml

/-- A place in a text, counted in characters from zero. -/
structure Mark where
  index : Nat := 0
  line : Nat := 0
  column : Nat := 0
  deriving DecidableEq, Repr

namespace Mark

/-- The place of the next character on the same line. -/
def next (m : Mark) : Mark := { m with index := m.index + 1, column := m.column + 1 }

/-- Whether a place is the first of its text. -/
def isStart (m : Mark) : Bool := m.line = 0 && m.column = 0

/-- Where a place is, in words; the first place of a text needs none. -/
def words (m : Mark) : String :=
  if m.isStart then ""
  else " at line " ++ toString (m.line + 1) ++ " column " ++ toString (m.column + 1)

end Mark

/-- What a reader is about. -/
inductive Activity where
  | simpleKey
  | nextToken
  | directive
  | versionDirective
  | tagDirective
  | directiveHandle
  | openDirectiveHandle
  | directiveAddress
  | anchor
  | alias
  | tag
  | tagAddress
  | blockScalar
  | quotedScalar
  | escapeSequence
  | plainScalar
  | node
  | blockNode
  | flowNode
  | blockSequence
  | blockMapping
  | flowSequence
  | flowMapping
  deriving DecidableEq, Repr

/-- The words for what a reader is about. -/
def Activity.words : Activity → String
  | .simpleKey => "while scanning a simple key"
  | .nextToken => "while scanning for the next token"
  | .directive => "while scanning a directive"
  | .versionDirective => "while scanning a %YAML directive"
  | .tagDirective => "while scanning a %TAG directive"
  | .directiveHandle => "while scanning a tag directive"
  | .openDirectiveHandle => "while parsing a tag directive"
  | .directiveAddress => "while parsing a %TAG directive"
  | .anchor => "while scanning an anchor"
  | .alias => "while scanning an alias"
  | .tag => "while scanning a tag"
  | .tagAddress => "while parsing a tag"
  | .blockScalar => "while scanning a block scalar"
  | .quotedScalar => "while scanning a quoted scalar"
  | .escapeSequence => "while parsing a quoted scalar"
  | .plainScalar => "while scanning a plain scalar"
  | .node => "while parsing a node"
  | .blockNode => "while parsing a block node"
  | .flowNode => "while parsing a flow node"
  | .blockSequence => "while parsing a block collection"
  | .blockMapping => "while parsing a block mapping"
  | .flowSequence => "while parsing a flow sequence"
  | .flowMapping => "while parsing a flow mapping"

/-- What a reader stumbles over. -/
inductive Problem where
  | noColon
  | strangeStart
  | misplacedEntry
  | misplacedKey
  | misplacedValue
  | noDirectiveName
  | unknownDirective
  | badDirectiveName
  | trailingText
  | noVersionPoint
  | longVersion
  | noVersionNumber
  | noBlank
  | noBlankAfterTag
  | badAnchor
  | openTag
  | noTagMark
  | noAddress
  | noAddressOctet
  | badLeadingOctet
  | badTrailingOctet
  | zeroIndentation
  | tabInBlock
  | tabInPlain
  | documentMark
  | endInQuotes
  | unknownEscape
  | badHexNumber
  | badCodePoint
  | unexpectedColon
  | noDocumentStart
  | repeatedVersion
  | strangeVersion
  | repeatedTagDirective
  | unknownTagHandle
  | noContent
  | noEntryMark
  | noKey
  | noCommaOrBracket
  | noCommaOrBrace
  deriving DecidableEq, Repr

/-- The words for a problem. -/
def Problem.words : Problem → String
  | .noColon => "could not find expected ':'"
  | .strangeStart => "found character that cannot start any token"
  | .misplacedEntry => "block sequence entries are not allowed in this context"
  | .misplacedKey => "mapping keys are not allowed in this context"
  | .misplacedValue => "mapping values are not allowed in this context"
  | .noDirectiveName => "could not find expected directive name"
  | .unknownDirective => "found unknown directive name"
  | .badDirectiveName => "found unexpected non-alphabetical character"
  | .trailingText => "did not find expected comment or line break"
  | .noVersionPoint => "did not find expected digit or '.' character"
  | .longVersion => "found extremely long version number"
  | .noVersionNumber => "did not find expected version number"
  | .noBlank => "did not find expected whitespace"
  | .noBlankAfterTag => "did not find expected whitespace or line break"
  | .badAnchor => "did not find expected alphabetic or numeric character"
  | .openTag => "did not find the expected '>'"
  | .noTagMark => "did not find expected '!'"
  | .noAddress => "did not find expected tag URI"
  | .noAddressOctet => "did not find URI escaped octet"
  | .badLeadingOctet => "found an incorrect leading UTF-8 octet"
  | .badTrailingOctet => "found an incorrect trailing UTF-8 octet"
  | .zeroIndentation => "found an indentation indicator equal to 0"
  | .tabInBlock => "found a tab character where an indentation space is expected"
  | .tabInPlain => "found a tab character that violates indentation"
  | .documentMark => "found unexpected document indicator"
  | .endInQuotes => "found unexpected end of stream"
  | .unknownEscape => "found unknown escape character"
  | .badHexNumber => "did not find expected hexdecimal number"
  | .badCodePoint => "found invalid Unicode character escape code"
  | .unexpectedColon => "found unexpected ':'"
  | .noDocumentStart => "did not find expected <document start>"
  | .repeatedVersion => "found duplicate %YAML directive"
  | .strangeVersion => "found incompatible YAML document"
  | .repeatedTagDirective => "found duplicate %TAG directive"
  | .unknownTagHandle => "found undefined tag handle"
  | .noContent => "did not find expected node content"
  | .noEntryMark => "did not find expected '-' indicator"
  | .noKey => "did not find expected key"
  | .noCommaOrBracket => "did not find expected ',' or ']'"
  | .noCommaOrBrace => "did not find expected ',' or '\x7d'"

/-- Why a document cannot be read. -/
inductive Fault where
  /-- A control character after so many bytes. -/
  | controlCharacter (bytes : Nat)
  /-- A problem, and what was being read from where on. -/
  | problem (found : Problem) (mark : Mark) (during : Option (Activity × Mark))
  /-- An alias of no node. -/
  | unknownAnchor (mark : Mark)
  deriving DecidableEq, Repr

/-- The words for a fault. The place from which on something was being read is named where it is
not that of the problem. -/
def Fault.message : Fault → String
  | .controlCharacter bytes =>
    "control characters are not allowed" ++
      if bytes = 0 then "" else " at position " ++ toString bytes
  | .problem found mark during =>
    found.words ++ mark.words ++
      match during with
      | none => ""
      | some (activity, start) =>
        let elsewhere := start.line != mark.line || start.column != mark.column
        ", " ++ activity.words ++ if elsewhere then start.words else ""
  | .unknownAnchor mark => "unknown anchor" ++ mark.words

end GodotLint.Yaml
