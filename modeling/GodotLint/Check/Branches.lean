import GodotLint.Check.Basic

/-!
# Check of match blocks

Blocks over constants without a catch-all branch, very large blocks, and patterns that an earlier
branch has matched.
-/

namespace GodotLint.Check

open Pattern in
/-- A constant: a capitalised path that ends in capitals, a string or a whole number. -/
def constantPattern : Pattern :=
  .atStart ++ choice [
    .star (.oneOf [.range 'A' 'Z'] ++ .star identPart ++ .char '.') ++
      .oneOf [.range 'A' 'Z'] ++ .star (.oneOf [.range 'A' 'Z', .range '0' '9', .only '_']),
    .char '"' ++ .star (charNotOf "\"") ++ .char '"',
    .char '\x27' ++ .star (charNotOf "'") ++ .char '\x27',
    .opt (.char '-') ++ .plus (.oneOf [.digit])] ++ .atEnd

/-- Whether a pattern of a branch is a constant. -/
def isConstant (pattern : String) : Bool := constantPattern.occursIn pattern.toList

/-- The number of branches above which a block is reported. -/
def maxBranches : Nat := 10

/-- The issue of a block over constants that leaves values out. -/
def missingDefaultIssue? (file : String) (b : MatchBlock) : Option Issue :=
  if !b.hasDefault && !b.patterns.isEmpty && b.patterns.all (isConstant ·.1) then
    some (.rated "match_statements" file b.line "missing_default"
      ("match on '" ++ b.subject ++ "' has no \x60_\x60 branch") .medium
      (some "add \x60_:\x60 to handle unexpected values"))
  else none

/-- The issue of a very large block. -/
def largeBlockIssue? (file : String) (b : MatchBlock) : Option Issue :=
  if maxBranches < b.branches.length then
    some (.rated "match_statements" file b.line "large_match"
      ("match on '" ++ b.subject ++ "' has " ++ toString b.branches.length ++ " cases") .low
      (some "consider a lookup table or polymorphism"))
  else none

/-- The issues of patterns that an earlier branch has matched; `seen` lists the patterns so far. -/
def repeatedPatternIssues (file : String) (seen : List (String × Nat)) :
    List (String × Nat) → List Issue
  | [] => []
  | (pattern, line) :: rest =>
    match seen.lookup pattern with
    | some first =>
      .rated "match_statements" file line "duplicate_pattern"
          ("pattern " ++ pattern ++ " already matched on line " ++ toString first) .high ::
        repeatedPatternIssues file seen rest
    | none => repeatedPatternIssues file ((pattern, line) :: seen) rest

/-- The issues of a block. -/
def matchIssues (file : String) (b : MatchBlock) : List Issue :=
  (missingDefaultIssue? file b).toList ++ (largeBlockIssue? file b).toList ++
    repeatedPatternIssues file [] b.patterns

/-- Match blocks are complete, of moderate size and without repetition. -/
def matchStatements : Check where
  id := "match_statements"
  name := "Match statements"
  category := .codeStructure
  isQuick := true
  threshold := { metric := "summary.by_rating.high" }
  run c :=
    let blocks := c.scripts.flatMap fun s => s.facts.matchBlocks.map fun b => (s.path, b)
    let issues := blocks.flatMap fun (file, b) => matchIssues file b
    .finished
      { summary := .ofList [
          ("matches", .nat blocks.length),
          ("cases", .nat (sumOf (·.2.branches.length) blocks)),
          ("with_default", countOf (·.2.hasDefault) blocks),
          ("by_rating", ratingCounts issues)]
        issues }

end GodotLint.Check
