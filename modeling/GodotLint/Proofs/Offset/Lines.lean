import GodotLint.Proofs.Offset.Slice
import GodotLint.Proofs.Script.Comments

/-!
# Lines by index

The readers of this library go over the lines of a script with the lines above and below at hand. A
reader by index has the whole script and the number of a line, and takes what it needs above and below by
index: the body of a function (`functions_eq`), the branches of a match block (`matchBlocks_eq`) and the
lines above a marker (`markers_eq`). What such a reader does at each line, it does in the whole script
(`ScansBy.readEach_eq`).
-/

namespace GodotLint.Offset

open Text

/-! ## Reading every line -/

section scan

variable {α : Type}

/-- A reader that goes over the lines, given the lines above, the nearest first, and the number of the
first line, reads at each line what another one finds there. -/
structure ScansBy (scan : List (List Char) → Nat → List (List Char) → List α)
    (read : List (List Char) → List Char → List (List Char) → Option α) : Prop where
  nil : ∀ above number, scan above number [] = []
  cons : ∀ above line below, scan above (above.length + 1) (line :: below) =
    (read above line below).toList ++ scan (line :: above) (above.length + 1 + 1) below

/-- What is read at the lines of a script, each with its index. -/
def readEach (lines : List (List Char)) (read : Nat → List Char → Checked (Option α)) :
    Checked (List α) := do
  let found ← lines.zipIdx.mapM fun (line, index) => read index line
  return found.reduceOption

variable {scan : List (List Char) → Nat → List (List Char) → List α}
  {read : List (List Char) → List Char → List (List Char) → Option α}
  {lines : List (List Char)} {byIndex : Nat → List Char → Checked (Option α)}

theorem ScansBy.exists_mapM (hscan : ScansBy scan read)
    (h : ∀ above line below, lines = above.reverse ++ line :: below →
      byIndex above.length line = .ok (read above line below))
    {above rest : List (List Char)} (hlines : lines = above.reverse ++ rest) :
    ∃ found, (rest.zipIdx above.length).mapM (fun (line, index) => byIndex index line) = .ok found ∧
      found.reduceOption = scan above (above.length + 1) rest := by
  induction rest generalizing above with
  | nil => exact ⟨[], rfl, (hscan.nil ..).symm⟩
  | cons line below ih =>
      obtain ⟨found, hfound, hlater⟩ := @ih (line :: above) (by simpa using hlines)
      refine ⟨read above line below :: found, ?_, ?_⟩
      · rw [List.length_cons] at hfound
        rw [List.zipIdx_cons, List.mapM_cons, hfound]
        dsimp only
        rw [h above line below hlines]
        rfl
      · rw [hscan.cons, ← List.length_cons, ← hlater]
        cases read above line below <;> rfl

/-- What a reader finds by index at each line, it finds in all of them by index. -/
theorem ScansBy.readEach_eq (hscan : ScansBy scan read)
    (h : ∀ above line below, lines = above.reverse ++ line :: below →
      byIndex above.length line = .ok (read above line below)) :
    readEach lines byIndex = .ok (scan [] 1 lines) := by
  have hlines : lines = ([] : List (List Char)).reverse ++ lines := rfl
  obtain ⟨found, hfound, hall⟩ := hscan.exists_mapM h hlines
  rw [readEach, show lines.zipIdx.mapM _ = _ from hfound, ok_bind, hall]
  rfl

end scan

theorem length_reverse_append {α : Type} (above : List α) (line : α) (below : List α) :
    (above.reverse ++ line :: below).length = above.length + 1 + below.length := by
  simp only [List.length_append, List.length_reverse, List.length_cons]
  omega

section surroundings

variable {α : Type} (above : List α) (line : α) (below : List α)

/-- The rows behind an index are those below. -/
theorem rows_below : rows (above.reverse ++ line :: below) (above.length + 1)
    (above.reverse ++ line :: below).length = .ok below := by
  have h := rows_append_right (above.reverse ++ [line]) below
  simpa using h

/-- The first rows behind an index are the first ones below. -/
theorem rows_take {n : Nat} (h : n ≤ below.length) :
    rows (above.reverse ++ line :: below) (above.length + 1) (above.length + 1 + n) =
      .ok (below.take n) := by
  rw [rows, length_reverse_append, if_pos ⟨by omega, by omega⟩]
  have hcut : above.reverse ++ line :: below = (above.reverse ++ [line]) ++ below := by simp
  have hlength : (above.reverse ++ [line]).length = above.length + 1 := by simp
  rw [hcut, ← hlength, List.take_length_add_append, List.drop_left]

/-- The rows up to an index are the one there and those above. -/
theorem rows_above : rows (above.reverse ++ line :: below) 0 (above.length + 1) =
    .ok (line :: above).reverse := by
  rw [rows, length_reverse_append, if_pos ⟨by omega, by omega⟩, List.drop_zero]
  have hcut : above.reverse ++ line :: below = (line :: above).reverse ++ below := by simp
  have hlength : above.length + 1 = (line :: above).reverse.length := by simp
  rw [hcut, hlength, List.take_left]

end surroundings

/-! ## Functions -/

/-- The last line of a body among the lines from an index on, if there is one, and otherwise `last`. -/
def lastOfBody (headerIndent last index : Nat) : List (List Char) → Checked Nat
  | [] => return last
  | line :: below => do
    if isAllBlank (← code line) then lastOfBody headerIndent last (index + 1) below
    else if Line.indent line ≤ headerIndent then return last
    else lastOfBody headerIndent index (index + 1) below

/-- The index of the last line of the body below a header, or that of the header if there is none. -/
def bodyEnd (lines : List (List Char)) (header headerIndent : Nat) : Checked Nat := do
  let below ← rows lines (header + 1) lines.length
  lastOfBody headerIndent header (header + 1) below

/-- Whether the lines above an index document it. -/
def isDocumented (lines : List (List Char)) : (index : Nat) → Checked Bool
  | 0 => return false
  | index + 1 => do
    let text := trim (← row lines index)
    if startsWith ['@'] text then isDocumented lines index else return startsWith ['#', '#'] text

/-- The function whose header is the line at an index. -/
def functionAt (lines : List (List Char)) (index : Nat) (line : List Char) :
    Checked (Option Function) := do
  match Function.header.find? (← code line) with
  | none => return none
  | some m =>
    let indent := Line.indent (m.group 1)
    let last ← bodyEnd lines index indent
    let body ← rows lines (min (index + 1) lines.length) (max (last + 1) (index + 1))
    let codes ← body.mapM code
    let documented ← isDocumented lines index
    return some
      { name := str (m.group 3)
        line := index + 1
        endLine := last + 1
        indent
        isStatic := (m.group? 2).isSome
        params := Function.parameterNames (m.group 4)
        returnType := (m.group? 5).map (·.text)
        statements := codes.countP Function.isStatement
        maxNesting := Function.nesting [] codes
        hasDocComment := documented }

/-- The functions of a script in the order of their headers. -/
def functions (lines : List (List Char)) : Checked (List Function) :=
  readEach lines (functionAt lines)

theorem codes_eq (lines : List (List Char)) : lines.mapM code = .ok (lines.map Line.code) :=
  mapM_eq_ok fun line _ => code_eq line

theorem bodyLength_le_length (headerIndent : Nat) (below : List (List Char)) :
    Function.bodyLength headerIndent below ≤ below.length := by
  induction below with
  | nil => exact le_rfl
  | cons line below ih =>
      rw [Function.bodyLength, List.length_cons]
      split_ifs
      · split <;> omega
      · omega
      · omega

/-- A line that holds no code counts as one of the body only if a line of the body follows. -/
theorem bodyLength_cons (headerIndent : Nat) (line : List Char) (below : List (List Char)) :
    Function.bodyLength headerIndent (line :: below) =
      let n := Function.bodyLength headerIndent below
      if isAllBlank (Line.code line) then if n = 0 then 0 else n + 1
      else if Line.indent line ≤ headerIndent then 0 else n + 1 := by
  rw [Function.bodyLength, Line.isBlankOrComment]
  cases Function.bodyLength headerIndent below <;> rfl

theorem lastOfBody_eq (headerIndent last index : Nat) (below : List (List Char)) :
    lastOfBody headerIndent last index below =
      .ok (if Function.bodyLength headerIndent below = 0 then last
        else index + Function.bodyLength headerIndent below - 1) := by
  induction below generalizing last index with
  | nil => rfl
  | cons line below ih =>
      rw [lastOfBody, code_eq, ok_bind, bodyLength_cons]
      simp only [ih]
      generalize Function.bodyLength headerIndent below = n
      split_ifs <;> first | contradiction | exact congrArg Except.ok (by omega)

theorem bodyEnd_eq (above : List (List Char)) (line : List Char) (below : List (List Char))
    (headerIndent : Nat) : bodyEnd (above.reverse ++ line :: below) above.length headerIndent =
      .ok (above.length + Function.bodyLength headerIndent below) := by
  rw [bodyEnd, rows_below, ok_bind, lastOfBody_eq]
  split_ifs with hbody
  · rw [hbody, Nat.add_zero]
  · exact congrArg Except.ok (by omega)

theorem isDocumented_eq (above rest : List (List Char)) :
    isDocumented (above.reverse ++ rest) above.length = .ok (Function.isDocumented above) := by
  induction above generalizing rest with
  | nil => rfl
  | cons line above ih =>
      have hrow := row_append_cons above.reverse line rest
      rw [List.length_reverse] at hrow
      rw [List.reverse_cons, List.append_assoc, List.singleton_append, List.length_cons, isDocumented,
        hrow, ok_bind, Function.isDocumented, List.dropWhile_cons]
      dsimp only
      split_ifs
      · exact ih _
      · rfl

theorem functionAt_eq (above : List (List Char)) (line : List Char) (below : List (List Char)) :
    functionAt (above.reverse ++ line :: below) above.length line =
      .ok (Function.ofHeader? above (above.length + 1) line below) := by
  rw [functionAt, code_eq, ok_bind, Function.ofHeader?]
  cases Function.header.find? (Line.code line) with
  | none => rfl
  | some m =>
      have hlength := bodyLength_le_length (Line.indent (m.group 1)) below
      have hbody : rows (above.reverse ++ line :: below)
          (min (above.length + 1) (above.reverse ++ line :: below).length)
          (max (above.length + Function.bodyLength (Line.indent (m.group 1)) below + 1)
            (above.length + 1)) =
          .ok (below.take (Function.bodyLength (Line.indent (m.group 1)) below)) := by
        rw [← rows_take above line below hlength, length_reverse_append]
        congr 1 <;> omega
      have hstatements : Function.isStatement ∘ Line.code = Function.isStatement :=
        funext Function.isStatement_code
      dsimp only
      rw [bodyEnd_eq, ok_bind, hbody, ok_bind, codes_eq, ok_bind, isDocumented_eq, ok_bind]
      simp only [Option.map_some, List.countP_map, hstatements, Function.nesting_map_code,
        List.length_take, Nat.min_eq_left hlength, Nat.add_right_comm _ 1]
      rfl

theorem functions_eq (lines : List (List Char)) : functions lines = .ok (Function.ofLines lines) := by
  have hscan : ScansBy Function.scan
      fun above line below => Function.ofHeader? above (above.length + 1) line below :=
    ⟨fun _ _ => rfl, fun _ _ _ => rfl⟩
  refine hscan.readEach_eq fun above line below hlines => ?_
  rw [hlines, functionAt_eq]

/-! ## Declarations -/

/-- Reads the lines from an index on, the ones that a declaration goes over included. -/
def readFrom (functions : List Function) (lines : List (List Char)) (s : Script.Declared)
    (index : Nat) : Checked Script.Declared :=
  if _h : index < lines.length then do
    let text ← code (← row lines index)
    readFrom functions lines (s.readLine functions (text, index + 1)) (index + 1)
  else return s
termination_by lines.length - index

/-- Everything that the lines of a script declare, in the order of the lines. -/
def declared (lines : List (List Char)) (functions : List Function) : Checked Script.Declared := do
  let s ← readFrom functions lines { declarations := functions.map Script.functionDeclaration } 0
  return { s with declarations := sortByNat (·.line) s.declarations }

theorem readLine_code (functions : List Function) (s : Script.Declared) (line : List Char)
    (number : Nat) : s.readLine functions (Line.code line, number) = s.readLine functions (line, number) := by
  simp only [Script.Declared.readLine, Line.code_code]

theorem readFrom_eq (functions : List Function) (above rest : List (List Char)) (s : Script.Declared) :
    readFrom functions (above ++ rest) s above.length =
      .ok ((rest.zipIdx (above.length + 1)).foldl (Script.Declared.readLine functions) s) := by
  induction rest generalizing above s with
  | nil => simp [readFrom]
  | cons line below ih =>
      have hnext := ih (above ++ [line]) (s.readLine functions (line, above.length + 1))
      rw [List.append_assoc, List.length_append] at hnext
      rw [readFrom, dif_pos (by simp), row_append_cons, ok_bind, code_eq, ok_bind, readLine_code]
      exact hnext

theorem declared_eq (lines : List (List Char)) (functions : List Function) :
    declared lines functions = .ok (Script.declared lines functions) := by
  have hread := readFrom_eq functions [] lines
    { declarations := functions.map Script.functionDeclaration }
  rw [declared, show readFrom functions lines _ 0 = _ from hread, ok_bind]
  rfl

/-! ## Match blocks -/

/-- The byte offset of the first colon at top level. -/
def colonFrom? (s : Script.LabelState) (offset : Nat) : List Char → Option Nat
  | [] => none
  | c :: rest =>
    if c == ':' && s.atTop then some offset else colonFrom? (s.next c) (offset + c.utf8Size) rest

/-- The label of a branch line, cut at the colon. -/
def branchLabel (line : List Char) : Checked (Option (List Char)) :=
  match colonFrom? {} 0 line with
  | some offset => (fun label => some (trim label)) <$> slice line 0 offset
  | none => .ok none

/-- The branches among the lines from `line` on, as `Script.branchesBelow` has them. -/
def branchesBelow (headerIndent : Nat) (level : Option Nat) (line : Nat) :
    List (List Char) → Checked (List Branch)
  | [] => return []
  | raw :: below => do
    let text ← code raw
    if isAllBlank text then branchesBelow headerIndent level (line + 1) below
    else if Line.indent text ≤ headerIndent then return []
    else
      let level := level.getD (Line.indent text)
      let label ← if Line.indent text = level then branchLabel (trim text) else pure none
      let branch := label.map fun label => ({ patterns := Script.labelPatterns label, line } : Branch)
      return branch.toList ++ (← branchesBelow headerIndent (some level) (line + 1) below)

/-- The match block whose header is the line at an index. -/
def matchBlockAt (functions : List Function) (lines : List (List Char)) (index : Nat)
    (line : List Char) : Checked (Option MatchBlock) := do
  match Script.matchHeader.find? (← code line) with
  | none => return none
  | some m =>
    let below ← rows lines (index + 1) lines.length
    let branches ← branchesBelow (Line.indent (m.group 1)) none (index + 2) below
    return some
      { subject := str (m.group 2), line := index + 1, branches
        function := (Function.enclosing? functions (index + 1)).map (·.name) }

/-- The match blocks of a script. -/
def matchBlocks (lines : List (List Char)) (functions : List Function) : Checked (List MatchBlock) :=
  readEach lines (matchBlockAt functions lines)

theorem colonFrom?_eq (s : Script.LabelState) (offset : Nat) (line : List Char) :
    colonFrom? s offset line = (Script.beforeColon? s line).map fun label => offset + width label := by
  induction line generalizing s offset with
  | nil => rfl
  | cons c line ih =>
      rw [colonFrom?, Script.beforeColon?]
      split_ifs
      · rfl
      · rw [ih, Option.map_map]
        simp only [Function.comp_def, width_cons, Nat.add_assoc]

theorem prefix_of_beforeColon? {s : Script.LabelState} {line label : List Char}
    (h : Script.beforeColon? s line = some label) : label <+: line := by
  induction line generalizing s label with
  | nil => cases h
  | cons c line ih =>
      rw [Script.beforeColon?] at h
      split_ifs at h
      · cases h
        exact List.nil_prefix
      · obtain ⟨label, hlabel, rfl⟩ := Option.map_eq_some_iff.mp h
        exact (List.prefix_cons_inj c).mpr (ih hlabel)

theorem branchLabel_eq (line : List Char) : branchLabel line = .ok (Script.branchLabel? line) := by
  rw [branchLabel, colonFrom?_eq, Script.branchLabel?]
  cases hlabel : Script.beforeColon? {} line with
  | none => rfl
  | some label =>
      obtain ⟨rest, rfl⟩ := prefix_of_beforeColon? hlabel
      simp only [Option.map_some, Nat.zero_add, slice_left]
      rfl

theorem branchesBelow_eq (headerIndent : Nat) (level : Option Nat) (line : Nat)
    (below : List (List Char)) : branchesBelow headerIndent level line below =
      .ok (Script.branchesBelow headerIndent level line below) := by
  induction below generalizing level line with
  | nil => rfl
  | cons raw below ih =>
      rw [branchesBelow, code_eq, ok_bind, Script.branchesBelow]
      dsimp only
      split_ifs with hblank hindent hlevel
      · exact ih level (line + 1)
      · rfl
      · rw [branchLabel_eq, ok_bind, ih]
        rfl
      · rw [pure_eq_ok, ok_bind, ih]
        rfl

theorem matchBlocks_eq (lines : List (List Char)) (functions : List Function) :
    matchBlocks lines functions = .ok (Script.matchBlocks lines functions) := by
  have hscan : ScansBy (fun _ number below => Script.matchBlocksFrom functions number below)
      fun above line below => (Script.matchHeader.find? (Line.code line)).map fun m =>
        { subject := str (m.group 2), line := above.length + 1,
          branches := Script.branchesBelow (Line.indent (m.group 1)) none (above.length + 2) below,
          function := (Function.enclosing? functions (above.length + 1)).map (·.name) } :=
    ⟨fun _ _ => rfl, fun _ _ _ => rfl⟩
  refine hscan.readEach_eq fun above line below hlines => ?_
  rw [hlines, matchBlockAt, code_eq, ok_bind]
  cases Script.matchHeader.find? (Line.code line) with
  | none => rfl
  | some m =>
      dsimp only
      rw [rows_below, ok_bind, branchesBelow_eq, ok_bind]
      rfl

/-! ## Markers -/

/-- The marker in the comment of the line at an index. -/
def markerAt (lines : List (List Char)) (index : Nat) (line : List Char) :
    Checked (Option Marker) := do
  match (← comment line).bind Marker.shape.find? with
  | none => return none
  | some m =>
    let upTo ← rows lines 0 (index + 1)
    let content := trim (m.group 3)
    return some
      { tag := str (m.group 1)
        owner := (m.group? 2).map fun owner => str (trim owner.chars)
        content := str content
        line := index + 1
        priority := Marker.priorityOf content
        context := Marker.contextOf? upTo.reverse }

/-- The markers of a script. -/
def markers (lines : List (List Char)) : Checked (List Marker) := readEach lines (markerAt lines)

theorem markers_eq (lines : List (List Char)) : markers lines = .ok (Marker.ofLines lines) := by
  have hscan : ScansBy Marker.scan
      fun above line _ => Marker.ofLine? above line (above.length + 1) :=
    ⟨fun _ _ => rfl, fun _ _ _ => rfl⟩
  refine hscan.readEach_eq fun above line below hlines => ?_
  rw [hlines, markerAt, comment_eq, ok_bind, Marker.ofLine?]
  cases Line.comment? line with
  | none => rfl
  | some text =>
      cases hmarker : Marker.shape.find? text with
      | none => simp [hmarker]
      | some m => simp [hmarker, rows_above]

end GodotLint.Offset
