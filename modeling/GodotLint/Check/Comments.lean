import GodotLint.Check.Basic
import GodotLint.Naming.Words
import GodotLint.Pattern.Basic

/-!
# Checks of comments

Markers of open work and those that do not say what is open, code that was commented out, empty
comments, and long functions without documentation.
-/

namespace GodotLint.Check

open Text

/-! ## Markers -/

namespace Vague

open Pattern

/-- One of the given words in either case, after blanks, or nothing. -/
def optionalWord (texts : List String) : Pattern := .opt (blanks1 ++ foldedWord texts)

/-- Words that ask for work without saying which. -/
def shapes : List Pattern :=
  [foldedWord ["implement", "finish", "complete", "add", "write"] ++
      optionalWord ["this", "here", "later", "the", "it"] ++
      optionalWord ["function", "method", "code", "logic", "feature", "implementation"],
   foldedWord ["finish", "complete"] ++ blanks1 ++ foldedWord ["implementation", "later"],
   folded "add" ++ blanks1 ++ foldedWord ["code", "implementation", "logic"],
   folded "fix" ++ optionalWord ["this", "here", "it", "later", "the"] ++
      optionalWord ["bug", "issue", "error", "problem"],
   folded "fix" ++ blanks1 ++ foldedWord ["bug", "issue", "error", "problem"],
   folded "do" ++ optionalWord ["this", "something", "later"],
   folded "handle" ++ optionalWord ["this", "here", "it", "the"] ++
      optionalWord ["error", "case", "exception"],
   folded "handle" ++ blanks1 ++ foldedWord ["error", "case", "exception"],
   folded "write" ++ blanks1 ++ foldedWord ["code", "implementation"],
   folded "fill" ++ blanks ++ .opt (folded "this" ++ blanks) ++ folded "in" ++ blanks ++
      .opt (foldedWord ["later", "here"]),
   foldedWord ["placeholder", "stub", "tbd", "wip"],
   folded "not" ++ blanks1 ++ folded "implemented" ++ .opt (blanks1 ++ folded "yet"),
   folded "need" ++ .opt (folded "s") ++ blanks1 ++
      choice [folded "implementation", folded "work",
        folded "to" ++ blanks1 ++ folded "be" ++ blanks1 ++ folded "done"],
   choice [folded "change", folded "update", folded "refactor", folded "cleanup",
      folded "clean" ++ blanks1 ++ folded "up", folded "remove", folded "delete"] ++ blanks1 ++
      foldedWord ["this", "here", "me", "later"]]

end Vague

/-- Whether the text of a marker says nothing about the work. -/
def isVague (content : String) : Bool :=
  let text := dropEndWhile (fun c => c == '.' || c == '!') (trim content.toList)
  text.isEmpty ||
    Vague.shapes.any fun shape => (.atStart ++ shape ++ .atEnd : Pattern).occursIn text

/-- Tags of open work. -/
def actionTags : List String := ["TODO", "FIXME", "HACK", "XXX", "BUG"]

/-- The severity of a marker. -/
def markerSeverity (m : Marker) : Severity :=
  if m.priority == .high || m.tag == "FIXME" || m.tag == "BUG" then .warning else .info

/-- The issue that a marker is. -/
def markerIssue (file : String) (m : Marker) : Issue :=
  { check := "todos", file, line := m.line, kind := str (lower m.tag.toList)
    message := m.tag ++ ": " ++ m.content ++ (m.context.map fun x => " (in " ++ x ++ ")").getD ""
    severity := markerSeverity m
    category := some m.priority.name }

/-- The issue of a marker of open work that does not say what is open. -/
def vagueIssue? (file : String) (m : Marker) : Option Issue :=
  if actionTags.contains m.tag && isVague m.content then some
    { check := "todos", file, line := m.line, kind := "vague_marker"
      message := m.tag ++ " without actionable context"
      severity := .info
      suggestion := some "say what is missing and when it matters"
      category := some m.priority.name }
  else none

/-- A marker as a summary value. -/
def markerSummary (file : String) (m : Marker) : Json :=
  .obj [("content", .str m.content), ("context", .optStr m.context), ("file", .str file),
    ("line", .nat m.line), ("owner", .optStr m.owner), ("priority", .str m.priority.name),
    ("tag", .str m.tag)]

/-- How often each name occurs, the given ones at least with zero. -/
def tallyWith (names : List String) (xs : List String) : SortedMap Nat :=
  xs.foldl (·.count ·) (.ofList (names.map fun n => (n, 0)))

/-- Markers of open work are listed. -/
def todos : Check where
  id := "todos"
  name := "TODO tracker"
  category := .maintenance
  isQuick := true
  threshold := { metric := "summary.by_priority.high" }
  run c :=
    let markers := c.scripts.flatMap fun s => s.facts.markers.map fun m => (s.path, m)
    let issues := markers.flatMap fun (file, m) => markerIssue file m :: (vagueIssue? file m).toList
    .finished
      { summary := .ofList [
          ("total", .nat markers.length),
          ("by_tag", .counts (tallyWith Marker.tags (markers.map (·.2.tag)))),
          ("by_priority",
            .counts (tallyWith ["high", "normal", "low"] (markers.map (·.2.priority.name)))),
          ("by_owner", .counts (tally (markers.filterMap (·.2.owner)))),
          ("vague", countKind "vague_marker" issues),
          ("markers", .arr (markers.map fun (file, m) => markerSummary file m))]
        issues }

/-! ## Quality of comments -/

namespace Commentary

open Pattern

/-- The rest of a line, with at least one character. -/
def rest1 : Pattern := .plus .any

/-- Something between brackets. -/
def enclosed (left right : Char) : Pattern := .char left ++ .star .any ++ .char right

/-- What starts like code. -/
def codeShape : Pattern :=
  .atStart ++ choice [
    word ["var", "const", "func", "static func", "class_name", "@onready", "@export"] ++ blanks1 ++
      .oneOf [.range 'A' 'Z', .range 'a' 'z', .only '_'],
    lit "extends" ++ blanks1 ++ .oneOf [.range 'A' 'Z', .range 'a' 'z', .only '"'],
    word ["if", "elif", "while", "match"] ++ .oneOf [.blank] ++ .star .any ++ .char ':' ++ .atEnd,
    lit "for" ++ blanks1 ++ ident ++ blanks1 ++ lit "in" ++ .oneOf [.blank] ++ rest1 ++
      .char ':' ++ .atEnd,
    lit "else:" ++ .atEnd,
    lit "signal" ++ blanks1 ++ ident ++ .opt (enclosed '(' ')') ++ .atEnd,
    lit "await" ++ blanks1 ++ .plus (.noneOf [.blank]) ++ .atEnd,
    Script.dottedName ++ choice [
      enclosed '(' ')',
      blanks ++ enclosed '[' ']' ++ blanks ++ .char '=' ++ rest1,
      blanks ++ .opt (charOf "-+*/") ++ .char '=' ++ blanks ++ .noneOf [.only '=', .blank] ++
        .star .any] ++ .atEnd,
    .char '$' ++ .oneOf [.range 'A' 'Z', .range 'a' 'z']]

/-- Whether the text of a comment reads like code. -/
def looksLikeCode (body : List Char) : Bool :=
  let body := trim body
  !body.isEmpty && !startsWith "gdscan:".toList body && codeShape.occursIn body

/-- What a line is. -/
inductive Kind where
  | blank
  | code
  | comment
  /-- A comment that starts with two marks. -/
  | doc
  deriving DecidableEq, Repr

/-- What a line is. -/
def kindOf (line : List Char) : Kind :=
  match trim line with
  | [] => .blank
  | '#' :: '#' :: _ => .doc
  | '#' :: _ => .comment
  | _ => .code

/-- A comment of either sort. -/
def Kind.isComment (k : Kind) : Bool := k == .comment || k == .doc

/-- Whether a line is code that was commented out. -/
def isCommentedCode (line : List Char) : Bool :=
  kindOf line == .comment && looksLikeCode ((trim line).dropWhile (· == '#'))

/-- The first line and the length of every run of lines that satisfy `p`, from line `number` on;
`length` lines before it belong to an open run. -/
def runsWhere (p : List Char → Bool) (length number : Nat) : List (List Char) → List (Nat × Nat)
  | [] => if length = 0 then [] else [(number - length, length)]
  | line :: rest =>
    if p line then runsWhere p (length + 1) (number + 1) rest
    else
      (if length = 0 then [] else [(number - length, length)]) ++ runsWhere p 0 (number + 1) rest

/-- The issue of a run of code that was commented out. -/
def commentedCodeIssue (file : String) (run : Nat × Nat) : Issue :=
  { check := "comment_quality", file, line := run.1, kind := "commented_code"
    message := toString run.2 ++ " line(s) of commented-out code"
    severity := .info
    suggestion := some "delete it; version control keeps the history" }

/-- The numbers of the lines from `number` on that are empty comments with no comment next to them;
`above` is what the line before is. -/
def emptyComments (above : Kind) (number : Nat) : List (List Char) → List Nat
  | [] => []
  | line :: rest =>
    let alone := !above.isComment && !(rest.head?.any fun below => (kindOf below).isComment)
    (if trim line == ['#'] && alone then [number] else []) ++
      emptyComments (kindOf line) (number + 1) rest

/-- The issue of an empty comment. -/
def emptyCommentIssue (file : String) (line : Nat) : Issue :=
  { check := "comment_quality", file, line, kind := "empty_comment", message := "empty comment"
    severity := .info }

/-- The lines of a body above which a public function is to be documented. -/
def documentedFrom : Nat := 20

/-- The issue of a long public function without documentation. -/
def undocumentedIssue? (file : String) (f : Function) : Option Issue :=
  if f.isPrivate || f.hasDocComment || f.bodyLines ≤ documentedFrom ||
      Naming.lifecycleHooks.contains f.name then none
  else some
    { check := "comment_quality", file, line := f.line, kind := "missing_doc_comment"
      message := "public function " ++ f.name ++ "() has " ++ toString f.bodyLines ++
        " lines and no ## doc comment"
      severity := .info
      suggestion := some ("## Describe what " ++ f.name ++ "() does.") }

/-- The issues of a script. -/
def issues (s : Script) : List Issue :=
  let lines := s.source.lines
  (runsWhere isCommentedCode 0 1 lines).map (commentedCodeIssue s.path) ++
    (emptyComments .blank 1 lines).map (emptyCommentIssue s.path) ++
    s.facts.functions.filterMap (undocumentedIssue? s.path)

end Commentary

open Commentary in
/-- Comments hold no code, say something, and document what is public. -/
def commentQuality : Check where
  id := "comment_quality"
  name := "Comment quality"
  category := .maintenance
  threshold := { metric := "summary.commented_code" }
  run c :=
    let issues := c.scripts.flatMap Commentary.issues
    let kinds := (c.scripts.flatMap (·.source.lines)).map kindOf
    let code := kinds.countP (· == .code)
    let comments := kinds.countP (· == .comment)
    let docs := kinds.countP (· == .doc)
    .finished
      { summary := .ofList [
          ("code_lines", .nat code),
          ("comment_lines", .nat comments),
          ("doc_lines", .nat docs),
          ("comment_ratio", .float (share (comments + docs) (code + comments + docs) 1000.0)),
          ("commented_code", countKind "commented_code" issues),
          ("undocumented_functions", countKind "missing_doc_comment" issues)]
        issues }

end GodotLint.Check
