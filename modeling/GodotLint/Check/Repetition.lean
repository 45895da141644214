import GodotLint.Check.Basic
import GodotLint.Digest.Blake3
import GodotLint.Pattern.Basic

/-!
# Checks of repetition

Bodies of functions that are equal up to names and literals, tables outside functions that are
equal, and numbers that are used again and again.
-/

namespace GodotLint.Check

open Text

/-! ## Normal form of a line -/

namespace Repetition

open Pattern

/-- A string, a number or a word, as groups 1, 2 and 3. -/
def token : Pattern :=
  choice [
    .group 1 Script.stringShape,
    .group 2 (choice [
      .wordEdge ++ lit "0x" ++
        .plus (.oneOf [.range '0' '9', .range 'A' 'F', .range 'a' 'f', .only '_']) ++ .wordEdge,
      .wordEdge ++ .oneOf [.digit] ++ .star (.oneOf [.digit, .only '_']) ++
        .opt (.char '.' ++ .plus (.oneOf [.digit])) ++
        .opt (.char 'e' ++ .opt (charOf "+-") ++ .plus (.oneOf [.digit])) ++ .wordEdge]),
    .group 3 ident]

/-- Words of the language. -/
def keywords : List String :=
  ["if", "elif", "else", "for", "while", "match", "return", "pass", "break", "continue", "func",
    "var", "const", "in", "and", "or", "not", "is", "as", "self", "true", "false", "null",
    "await", "static", "super", "when"]

/-- What stands for a token. -/
def normalToken (m : Match) : List Char :=
  if (m.group? 1).isSome then "\"STR\"".toList
  else if (m.group? 2).isSome then "NUM".toList
  else if keywords.contains m.whole.text then m.whole.chars
  else "VAR".toList

/-- The code of a line with names, strings and numbers replaced by what they are. -/
def normalLine (line : List Char) : List Char :=
  token.replaceAll normalToken (trim (Line.code line))

/-- The beginning of the hash of a text. -/
def fingerprint (s : List Char) : String := str ((Blake3.hex (encode s)).take 16)

end Repetition

/-! ## Blocks -/

/-- Consecutive lines of code outside every function. -/
structure Run where
  first : Nat
  last : Nat
  /-- The code of the lines, without blanks around it. -/
  code : List (List Char)
  deriving DecidableEq, Repr

/-- The runs among the lines from `number` on; the code of the run that is open before them is
given the last line first. -/
def runsFrom (functions : List Function) (run : List (List Char)) (number : Nat) :
    List (List Char) → List Run
  | [] => close run number
  | raw :: rest =>
    let code := trim (Line.code raw)
    if code.isEmpty || functions.any (·.contains number) then
      close run number ++ runsFrom functions [] (number + 1) rest
    else runsFrom functions (code :: run) (number + 1) rest
where
  /-- The open run, which ends before line `number`. -/
  close (run : List (List Char)) (number : Nat) : List Run :=
    if run.isEmpty then []
    else [{ first := number - run.length, last := number - 1, code := run.reverse }]

/-- The runs of lines of code outside every function. -/
def topLevelRuns (lines : List (List Char)) (functions : List Function) : List Run :=
  runsFrom functions [] 1 lines

/-- Code that may occur again. -/
structure Block where
  file : String
  /-- The function whose body it is. -/
  function : Option String
  first : Nat
  last : Nat
  /-- The lines in their normal form. -/
  lines : List (List Char)
  deriving DecidableEq, Repr

namespace Block

/-- How a block is called. -/
def label (b : Block) : String :=
  match b.function with
  | some name => name ++ "()"
  | none => "top-level block"

/-- What equal blocks have in common. -/
def key (b : Block) : List Char :=
  (if b.function.isSome then "func\n" else "top\n").toList ++ join ['\n'] b.lines

/-- The block that the body of a function is. -/
def ofFunction (s : Script) (f : Function) : Block :=
  let body := ((s.source.lines.drop f.line).take f.bodyLines).map Repetition.normalLine
  { file := s.path, function := some f.name, first := f.line, last := f.endLine
    lines := body.filter (!·.isEmpty) }

/-- The block that a run of lines is. -/
def ofRun (s : Script) (r : Run) : Block :=
  { file := s.path, function := none, first := r.first, last := r.last, lines := r.code }

/-- The blocks of a script that are long enough. -/
def ofScript (minLines : Nat) (s : Script) : List Block :=
  (s.facts.functions.map (ofFunction s) ++
      (topLevelRuns s.source.lines s.facts.functions).map (ofRun s)).filter
    fun b => minLines ≤ b.lines.length

end Block

/-- Blocks with the same key, by their keys. -/
def groupBlocks (blocks : List Block) : SortedMap (List Block) :=
  blocks.foldl (fun m b => m.append (str b.key) b) .empty

/-- The groups of at least two equal blocks. -/
def repeatedGroups (blocks : List Block) : List (String × Block × List Block) :=
  (groupBlocks blocks).entries.filterMap fun (key, group) =>
    match group with
    | first :: second :: more => some (key, first, second :: more)
    | _ => none

/-- The issue of a block that repeats another. -/
def repeatedBlockIssue (first b : Block) : Issue :=
  { check := "duplicates", file := b.file, line := b.first, kind := "duplicate_block"
    message := b.label ++ " (" ++ toString b.lines.length ++ " lines) duplicates " ++
      first.label ++ " at " ++ first.file ++ ":" ++ toString first.first
    severity := .warning
    suggestion := some (if b.function.isSome then "extract the shared body into one function"
      else "move the shared table into one script or resource") }

/-- A block as a summary value. -/
def blockSummary (b : Block) : Json :=
  .obj [("end", .nat b.last), ("file", .str b.file), ("function", .optStr b.function),
    ("start", .nat b.first)]

/-- A group of equal blocks as a summary value. -/
def groupSummary (key : String) (first : Block) (others : List Block) : Json :=
  .obj [("hash", .str (Repetition.fingerprint key.toList)), ("lines", .nat first.lines.length),
    ("locations", .arr ((first :: others).map blockSummary))]

/-- Order of groups by their first block: by file, then by line. -/
def groupLe (a b : String × Block × List Block) : Bool :=
  (thenBy (compare a.2.1.file b.2.1.file) (compare a.2.1.first b.2.1.first)).isLE

/-- Code is not repeated. -/
def duplicates : Check where
  id := "duplicates"
  name := "Duplicate code"
  category := .maintenance
  threshold := { metric := "summary.duplicate_groups" }
  run c :=
    let minLines := c.limit c.config.duplicateLines
    let blocks := c.scripts.flatMap (Block.ofScript minLines)
    let groups := repeatedGroups blocks
    let copies := groups.flatMap fun (_, _, others) => others
    .finished
      { summary := .ofList [
          ("min_lines", .nat minLines),
          ("blocks", .nat blocks.length),
          ("duplicate_groups", .nat groups.length),
          ("duplicated_lines", .nat (sumOf (·.lines.length) copies)),
          ("groups", .arr ((stableSort groupLe groups).map fun (key, first, others) =>
            groupSummary key first others))]
        issues := groups.flatMap fun (_, first, others) => others.map (repeatedBlockIssue first) }

/-! ## Numbers -/

/-- Order of sites by file, then by line. -/
def siteLe (a b : Site) : Bool := (thenBy (compare a.file b.file) (compare a.line b.line)).isLE

/-- The issue of a number that is used again and again. -/
def numberIssue? (minUses : Nat) (value : String) (sites : List Site) : Option Issue :=
  if sites.length < minUses then none
  else
    (stableSort siteLe sites).head?.map fun first =>
      { check := "magic_numbers", file := first.file, line := first.line, kind := "magic_number"
        message := value ++ " appears " ++ toString sites.length ++ " times across " ++
          toString (sortedSet (sites.map (·.file))).length ++ " file(s)"
        severity := .info
        suggestion := some ("const NAME = " ++ value) }

/-- Numbers that are used often have names. -/
def magicNumbers : Check where
  id := "magic_numbers"
  name := "Magic numbers"
  category := .maintenance
  threshold := { metric := "summary.repeated_values" }
  run c :=
    let minUses := max (c.limit c.config.magicOccurrences) 2
    let numbers := c.scripts.flatMap (·.facts.numbers)
    let values := c.index.magicNumbers
    let often := values.entries.filter fun (_, sites) => minUses ≤ sites.length
    .finished
      { summary := .ofList [
          ("min_occurrences", .nat minUses),
          ("literals", .nat numbers.length),
          ("distinct_values", .nat values.size),
          ("repeated_values", .nat often.length),
          ("by_category", .counts (tally (numbers.map (·.category.name)))),
          ("values", .arr (often.map fun (value, sites) =>
            .obj [("count", .nat sites.length), ("value", .str value)]))]
        issues := often.filterMap fun (value, sites) => numberIssue? minUses value sites }

end GodotLint.Check
