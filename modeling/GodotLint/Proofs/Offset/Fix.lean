import GodotLint.Proofs.Fix.Part
import GodotLint.Proofs.Fix.Preload
import GodotLint.Proofs.Offset.Bytes
import GodotLint.Proofs.Offset.Lines
import GodotLint.Proofs.Offset.Matches
import GodotLint.Proofs.Offset.Numbers

/-!
# Facts and fixes by offsets

All readers of a script cut lines and texts by number where they do so: at the comment mark, behind a
match, around a number, at the colon of a branch, and around the lines of a body. None of them stops,
whatever the script holds, and together they read the facts of the script (`facts_eq`).

The fix of dictionary accesses goes through the accesses of the script by line and, on each line, from
right to left. It looks behind an access and replaces it by the offsets that the access had on the
original line, while the line has already been changed further right. The text up to the access is then
still the same, so the offsets are good (`dictAccess_eq`).

The fix of unused preloads looks for names by offsets, on the lines with their literals blanked. Names are
words of ASCII, so the search falls into no character (`unusedPreloads_eq`).

Everything that is read of a script and every change that a fix makes to it can thus be done by byte
offsets and indices, and none of these is ever out of range or inside of a character (`readsByOffset`).
Some offsets are found on one text and used on another: those in the code of a line are good in the line,
those of an access are good in the line after later changes. Where this holds, the text up to the offset is
the same in both.
-/

namespace GodotLint.Offset

open Text Pattern

/-! ## Accesses -/

/-- The bracket accesses on a line of code, with what follows each of them cut off behind the match. -/
def bracketAccesses (text : List Char) (line : Nat) : Checked (List Access) := do
  let found ← (Script.bracketAccess.findAll text).mapM fun m => do
    if Line.isInsideLiteral text m.start then return none
    else
      let after ← slice text m.stop (width text)
      let key := m.group 2 ++ m.group 3
      return some
        { receiver := str (m.group 1), key := str key, line, column := m.start, stop := m.stop
          form := .bracket
          isAssignment := Script.assignmentAfter.occursIn after
          guarded := Script.isGuarded text key }
  return found.reduceOption

/-- The accesses on one line, brackets first. -/
def accessesOfLine (raw : List Char) (line : Nat) : Checked (List Access) := do
  let text ← code raw
  if Script.mayAccess text then
    return (← bracketAccesses text line) ++ Script.callAccesses text line
  else return []

/-- The dictionary accesses of a script, from left to right on each line. -/
def accesses (lines : List (List Char)) : Checked (List Access) := do
  let found ← (lines.zipIdx 1).mapM fun (raw, line) => accessesOfLine raw line
  return stableSort Access.le found.flatten

theorem bracketAccesses_eq (text : List Char) (line : Nat) :
    bracketAccesses text line = .ok (Script.bracketAccesses text line) := by
  rw [bracketAccesses, mapM_eq_ok fun m hm => ?_, ok_bind, reduceOption_map]
  · rfl
  · rw [(Pattern.occurs_of_mem_findAll hm).isPlaced.after]
    split_ifs <;> rfl

theorem accessesOfLine_eq (raw : List Char) (line : Nat) :
    accessesOfLine raw line = .ok (Script.accessesOfLine raw line) := by
  rw [accessesOfLine, code_eq, ok_bind, bracketAccesses_eq, ok_bind, Script.accessesOfLine]
  split_ifs <;> rfl

theorem accesses_eq (lines : List (List Char)) : accesses lines = .ok (Script.accesses lines) := by
  rw [accesses, mapM_eq_ok fun x _ => accessesOfLine_eq x.1 x.2, ok_bind, ← List.flatMap_def]
  rfl

/-! ## Numbers -/

/-- A number in the body of a function, if it deserves a name. -/
def numberAt? (function : String) (category : NumberCategory) (line : Nat) (masked : List Char)
    (found : Nat × List Char) : Checked (Option NumberLiteral) := do
  if Script.acceptableNumbers.contains (str found.2) then return none
  else if ← isSubscript masked found.1 found.2 then return none
  else return some { value := str found.2, line, category, function }

/-- The numbers on one line of a function body. -/
def numbersOfLine (functions : List Function) (raw : List Char) (line : Nat) :
    Checked (List NumberLiteral) := do
  match Function.enclosingBody? functions line with
  | none => return []
  | some function =>
    let text ← code raw
    if Script.namesNumbers.occursIn text then return []
    else
      let masked := Line.mask text
      let found ← numbers masked
      let literals ← found.mapM (numberAt? function (Script.categoryOfLine text) line masked)
      return literals.reduceOption

/-- The numbers of a script. -/
def scriptNumbers (lines : List (List Char)) (functions : List Function) :
    Checked (List NumberLiteral) := do
  let found ← (lines.zipIdx 1).mapM fun (raw, line) => numbersOfLine functions raw line
  return found.flatten

theorem numbersOfLine_eq (functions : List Function) (raw : List Char) (line : Nat) :
    numbersOfLine functions raw line = .ok (Script.numbersOfLine functions raw line) := by
  rw [numbersOfLine, Script.numbersOfLine]
  cases Function.enclosingBody? functions line with
  | none => rfl
  | some function =>
      dsimp only
      rw [code_eq, ok_bind]
      split_ifs
      · rfl
      · rw [numbers_eq, ok_bind, List.mapM_map, mapM_eq_ok fun t ht => ?_, ok_bind, reduceOption_map]
        · rfl
        · rw [Function.comp_apply, numberAt?, isSubscript_eq ht, ok_bind]
          cases Script.acceptableNumbers.contains (str t.chars) <;> cases t.isSubscript <;> rfl

theorem scriptNumbers_eq (lines : List (List Char)) (functions : List Function) :
    scriptNumbers lines functions = .ok (Script.numbers lines functions) := by
  rw [scriptNumbers, mapM_eq_ok fun x _ => numbersOfLine_eq functions x.1 x.2, ok_bind,
    ← List.flatMap_def]
  rfl

/-! ## All facts -/

/-- The facts of a script. The readers that cut no text by number get the codes of its lines. -/
def facts (lines : List (List Char)) : Checked Facts := do
  let codes ← lines.mapM code
  let functions ← functions lines
  let declared ← declared lines functions
  let matchBlocks ← matchBlocks lines functions
  let accesses ← accesses lines
  let numbers ← scriptNumbers lines functions
  let markers ← markers lines
  return {
    functions
    declarations := declared.declarations
    className := declared.className
    base := declared.base
    loads := Script.loads codes functions declared.base
    nodeRefs := Script.nodeRefs codes functions
    awaits := Script.awaits codes functions
    matchBlocks
    accesses
    strings := Script.strings codes
    numbers
    markers
    mentions := Mention.ofLines codes functions }

theorem facts_eq (lines : List (List Char)) : facts lines = .ok (Facts.ofLines lines) := by
  rw [facts, codes_eq, ok_bind, functions_eq, ok_bind, declared_eq, ok_bind, matchBlocks_eq, ok_bind,
    accesses_eq, ok_bind, scriptNumbers_eq, ok_bind, markers_eq, ok_bind, pure_eq_ok]
  simp only [(Script.loads_ignoresComments _).map_code lines, Script.nodeRefs_ignoresComments.map_code,
    Script.awaits_ignoresComments.map_code,
    Script.strings_ignoresComments.map_code lines (Function.ofLines lines),
    Mention.ofLines_ignoresComments.map_code]
  rfl

/-! ## Accesses of dictionaries -/

/-- Order by line, on each line from right to left. -/
def fixOrder (a b : Access) : Bool :=
  a.line < b.line || (a.line == b.line && b.column ≤ a.column)

/-- A line with one access replaced by a call of `get`, unless another subscript follows it. -/
def replaceAccess (a : Access) (line : List Char) : Checked (List Char) := do
  let after ← slice line a.stop (width line)
  if (trimStart after).head? == some '[' then return line
  else replaceRange line a.column a.stop (getExpression a.receiver a.key).toList

/-- The lines with one access replaced. -/
def replaceAt (out : List (List Char)) (a : Access) : Checked (List (List Char)) := do
  if Fixer.isRead a then
    if a.line = 0 then throw .outOfRange
    else
      let line ← row out (a.line - 1)
      setRow out (a.line - 1) (← replaceAccess a line)
  else return out

/-- The new lines of a script with its accesses replaced. -/
def dictAccess (lines : List (List Char)) : Checked (List (Option (List Char))) := do
  let found ← accesses lines
  let out ← (stableSort fixOrder found).foldlM replaceAt lines
  return out.map some

/-! ## One line -/

/-- The accesses of a line that the fix looks at, from left to right. -/
def readsOfLine (line : List Char) (number : Nat) : List Access :=
  (stableSort Access.le (Script.accessesOfLine line number)).filter Fixer.isRead

/-- An access is replaced by its offsets where the text up to it is still what it was. -/
theorem replaceAccess_eq (code : List Char) (number : Nat) (x : Placed Script.Subscript)
    (rest : List Char) :
    let a := Script.accessOfSubscript code number x
    let line := x.before ++ x.token.text ++ rest
    replaceAccess a line = .ok (Fixer.replaceAccess a line) := by
  intro a line
  have hafter : slice line a.stop (width line) = .ok rest :=
    slice_right (x.before ++ x.token.text) rest
  have hdrop : dropBytes a.stop line = rest := dropBytes_width_append ..
  have htake : takeBytes a.column line = x.before := by
    change takeBytes (width x.before) (x.before ++ x.token.text ++ rest) = _
    rw [List.append_assoc, takeBytes_width_append]
  have hreplace := replaceRange_append x.before x.token.text rest
    (getExpression a.receiver a.key).toList
  rw [replaceAccess, hafter, ok_bind, Fixer.replaceAccess, Fixer.isSubscripted, hdrop, htake]
  split_ifs
  · rfl
  · exact hreplace

/-- From right to left, each access of a line is replaced by the offsets it had in the beginning. -/
theorem foldrM_replaceAccess {pre post comment : List Char} {q : Quoting}
    {ps : List (Placed Script.Subscript)} (h : Scan Script.Subscript.text pre post ps)
    (hcomment : Line.Closes q comment) (code : List Char) (number : Nat) :
    ((ps.filter Fixer.isReadOutside).map (Script.accessOfSubscript code number)).foldrM replaceAccess
        (pre ++ post ++ comment) =
      .ok (((ps.filter Fixer.isReadOutside).map (Script.accessOfSubscript code number)).foldr
        Fixer.replaceAccess (pre ++ post ++ comment)) := by
  induction h with
  | done => rfl
  | @next pre gap rest a ps _ later ih =>
      have hline : pre ++ (gap ++ a.text ++ rest) ++ comment =
          pre ++ gap ++ a.text ++ rest ++ comment := by simp
      rw [hline, List.filter_cons]
      split_ifs
      · -- the replacements further right leave the text up to this access
        have hright := Fixer.foldr_replaceAccess later hcomment code number
        rw [List.map_cons, List.foldrM_cons, ih, ok_bind, List.foldr_cons, hright,
          List.append_assoc _ _ comment]
        exact replaceAccess_eq code number ⟨pre ++ gap, a, rest⟩ _
      · exact ih

theorem foldlM_replaceAccess (line : List Char) (number : Nat) :
    (readsOfLine line number).reverse.foldlM (fun line a => replaceAccess a line) line =
      .ok (Fixer.replaceAccesses line number) := by
  obtain ⟨comment, hline, -, hcomment⟩ := Line.code_spec line
  obtain ⟨ps, hps⟩ := Script.spells_bracketAccess.exists_scan (Line.code line)
  have hfold := foldrM_replaceAccess hps hcomment (Line.code line) number
  rw [List.nil_append, ← hline, ← Fixer.filter_isRead_accesses line number hps] at hfold
  rw [List.foldlM_reverse]
  exact hfold

/-! ## All lines -/

/-- The accesses of one line change only this line. -/
theorem foldlM_replaceAt_line {done rest : List (List Char)} {reads : List Access}
    (h : ∀ a ∈ reads, Fixer.isRead a = true ∧ a.line = done.length + 1) (line : List Char) :
    reads.foldlM replaceAt (done ++ line :: rest) =
      (fun line => done ++ line :: rest) <$> reads.foldlM (fun line a => replaceAccess a line) line := by
  induction reads generalizing line with
  | nil => rfl
  | cons a reads ih =>
      obtain ⟨⟨hread, hline⟩, hlater⟩ := List.forall_mem_cons.mp h
      have hset : ∀ l : List Char,
          setRow (done ++ line :: rest) done.length l = .ok (done ++ l :: rest) := by
        intro l
        rw [setRow, if_pos (by simp), List.set_append_right _ _ le_rfl]
        simp
      rw [List.foldlM_cons, List.foldlM_cons, replaceAt, if_pos hread, if_neg (by omega), hline,
        Nat.add_sub_cancel, row_append_cons, ok_bind]
      cases hreplaced : replaceAccess a line with
      | error e => rfl
      | ok l =>
          rw [ok_bind, hset, ok_bind, ok_bind]
          exact ih hlater l

theorem mem_readsOfLine {line : List Char} {number : Nat} {a : Access}
    (h : a ∈ readsOfLine line number) :
    a ∈ Script.accessesOfLine line number ∧ Fixer.isRead a = true ∧ a.line = number := by
  obtain ⟨hmem, hread⟩ := List.mem_filter.mp h
  rw [mem_stableSort] at hmem
  exact ⟨hmem, hread, Script.line_of_mem_accessesOfLine hmem⟩

theorem foldlM_replaceAt (done rest : List (List Char)) :
    ((rest.zipIdx (done.length + 1)).flatMap fun (line, number) =>
        (readsOfLine line number).reverse).foldlM replaceAt (done ++ rest) =
      .ok (done ++ (rest.zipIdx (done.length + 1)).map fun (line, number) =>
        Fixer.replaceAccesses line number) := by
  induction rest generalizing done with
  | nil => rfl
  | cons line rest ih =>
      have hreads : ∀ a ∈ (readsOfLine line (done.length + 1)).reverse,
          Fixer.isRead a = true ∧ a.line = done.length + 1 :=
        fun a ha => (mem_readsOfLine (List.mem_reverse.mp ha)).2
      have hlater := ih (done ++ [Fixer.replaceAccesses line (done.length + 1)])
      rw [List.append_assoc, List.length_append] at hlater
      rw [List.zipIdx_cons, List.flatMap_cons, List.foldlM_append, foldlM_replaceAt_line hreads,
        foldlM_replaceAccess]
      refine hlater.trans ?_
      simp

/-! ## The order of accesses -/

theorem fixOrder_iff {a b : Access} :
    fixOrder a b = true ↔ a.line < b.line ∨ a.line = b.line ∧ b.column ≤ a.column := by
  simp [fixOrder]

/-- The accesses that the fix looks at on a line have different columns. -/
theorem pairwise_readsOfLine (line : List Char) (number : Nat) :
    (readsOfLine line number).Pairwise fun a b => a.column < b.column := by
  obtain ⟨ps, hps⟩ := Script.spells_bracketAccess.exists_scan (Line.code line)
  rw [readsOfLine, Fixer.filter_isRead_accesses line number hps, List.pairwise_map]
  refine (hps.pairwise.filter _).imp fun {x y} hxy => ?_
  obtain ⟨r, hr⟩ := hxy
  have hpos := Fixer.width_token_pos x
  change width x.before < width y.before
  rw [← hr, width_append]
  omega

/-- By line and from right to left, the fix meets the accesses line by line. -/
theorem filter_isRead_stableSort (lines : List (List Char)) :
    (stableSort fixOrder (Script.accesses lines)).filter Fixer.isRead =
      (lines.zipIdx 1).flatMap fun (line, number) => (readsOfLine line number).reverse := by
  refine filter_stableSort_eq (fun a b => ?_) (fun a b c hab hbc => ?_) ?_ ?_
  · rw [fixOrder_iff, fixOrder_iff]
    omega
  · rw [fixOrder_iff] at hab hbc ⊢
    omega
  · have hfound := (stableSort_perm Access.le
      ((lines.zipIdx 1).flatMap fun (line, number) => Script.accessesOfLine line number)).filter
        Fixer.isRead
    rw [List.filter_flatMap] at hfound
    refine .trans (.flatMap_left _ fun x _ => ?_) hfound.symm
    exact (List.reverse_perm _).trans ((stableSort_perm _ _).filter _)
  · rw [List.pairwise_flatMap]
    constructor
    · intro x _
      rw [List.pairwise_reverse]
      refine (pairwise_readsOfLine x.1 x.2).imp_of_mem fun {a b} ha hb hab => ?_
      have hline := (mem_readsOfLine ha).2.2.trans (mem_readsOfLine hb).2.2.symm
      rw [fixOrder_iff, fixOrder_iff]
      omega
    · have hnumbers : (lines.zipIdx 1).Pairwise fun x y => x.2 < y.2 := by
        have hrange := List.pairwise_lt_range' (s := 1) (n := lines.length)
        rwa [← List.zipIdx_map_snd, List.pairwise_map] at hrange
      refine hnumbers.imp fun {x y} hxy a ha b hb => ?_
      have ha := (mem_readsOfLine (List.mem_reverse.mp ha)).2.2
      have hb := (mem_readsOfLine (List.mem_reverse.mp hb)).2.2
      rw [fixOrder_iff, fixOrder_iff]
      omega

/-- The fix of dictionary accesses reads and replaces by good offsets only. -/
theorem dictAccess_eq (lines : List (List Char)) :
    dictAccess lines = .ok (Fixer.dictAccess.revise lines) := by
  have hreads : ∀ found : List Access, found.foldlM replaceAt lines =
      (found.filter Fixer.isRead).foldlM replaceAt lines := by
    intro found
    rw [List.foldlM_filter]
    congr 1
    funext out a
    rw [replaceAt]
    split_ifs <;> rfl
  have hall := foldlM_replaceAt [] lines
  rw [dictAccess, accesses_eq, ok_bind, hreads, filter_isRead_stableSort,
    show (List.flatMap _ (lines.zipIdx 1)).foldlM replaceAt lines = _ from hall, ok_bind]
  simp [Fixer.dictAccess]

/-! ## Unused preloads -/

/-- Whether a name occurs in a line other than the one at `index`, all with their literals blanked. -/
def isUsedElsewhere (masked : List (List Char)) (index : Nat) (name : List Char) : Checked Bool :=
  masked.zipIdx.anyM fun (text, i) => if i != index then containsWord text name else return false

/-- The index of a line that preloads an unused constant, and its name. -/
def unusedPreloadAt (masked : List (List Char)) (index : Nat) (line : List Char) :
    Checked (Option (Nat × String)) := do
  match Script.preloadedConstant.find? (trimEnd (← code line)) with
  | none => return none
  | some m =>
    let used ← isUsedElsewhere masked index (m.group 1)
    return if used then none else some (index, str (m.group 1))

/-- The new lines of a script without the constants that preload a resource for nothing. -/
def unusedPreloads (lines : List (List Char)) : Checked (List (Option (List Char))) := do
  let codes ← lines.mapM code
  let masked := codes.map Line.mask
  let found ← lines.zipIdx.mapM fun (line, index) => unusedPreloadAt masked index line
  found.reduceOption.foldlM (fun out unused => setRow out unused.1 none) (lines.map some)

theorem anyM_eq_ok {α : Type} {f : α → Checked Bool} {g : α → Bool} {l : List α}
    (h : ∀ x ∈ l, f x = .ok (g x)) : l.anyM f = .ok (l.any g) := by
  induction l with
  | nil => rfl
  | cons x l ih =>
      obtain ⟨hx, hl⟩ := List.forall_mem_cons.mp h
      rw [List.anyM_cons, hx, ok_bind, ih hl, List.any_cons]
      cases g x <;> rfl

theorem isUsedElsewhere_eq {name : List Char} (h : isIdent name = true) (lines : List (List Char))
    (index : Nat) : isUsedElsewhere ((lines.map Line.code).map Line.mask) index name =
      .ok (Script.isUsedElsewhere lines index name) := by
  have hword := containsWord_eq (ne_nil_of_isIdent h)
    fun c hc => ofAscii_identChar c (isIdentChar_of_isIdent h c hc)
  have heach : ∀ x : List Char × Nat, (if x.2 != index then containsWord x.1 name else return false) =
      .ok (x.2 != index && Line.containsWord x.1 name) := by
    intro x
    rw [hword]
    cases x.2 != index <;> rfl
  rw [isUsedElsewhere, anyM_eq_ok fun x _ => heach x, List.map_map, List.zipIdx_map, List.any_map]
  rfl

theorem unusedPreloadAt_eq (lines : List (List Char)) (index : Nat) (line : List Char) :
    unusedPreloadAt ((lines.map Line.code).map Line.mask) index line =
      .ok ((Script.preloadedName? line).bind fun name =>
        if Script.isUsedElsewhere lines index name then none else some (index, str name)) := by
  rw [unusedPreloadAt, code_eq, ok_bind]
  cases hname : Script.preloadedConstant.find? (trimEnd (Line.code line)) with
  | none => simp [Script.preloadedName?, hname]
  | some m =>
      have hpreloads : Script.preloadedName? line = some (m.group 1) := by
        rw [Script.preloadedName?, hname]
        rfl
      obtain ⟨d, -, hd⟩ := Script.exists_declaration_of_preloadedName? hpreloads
      dsimp only
      rw [isUsedElsewhere_eq (hd ▸ d.isIdent), hpreloads]
      rfl

/-- Lines are removed by index, one after the other. -/
theorem foldlM_setRow_none {α : Type} (unused : List (Nat × String)) (out : List (Option α))
    (h : ∀ u ∈ unused, u.1 < out.length) :
    unused.foldlM (fun out u => setRow out u.1 none) out =
      .ok (out.zipIdx.map fun (x, i) => if (unused.map (·.1)).contains i then none else x) := by
  induction unused generalizing out with
  | nil => simp [List.zipIdx_map_fst]
  | cons u unused ih =>
      obtain ⟨hu, hlater⟩ := List.forall_mem_cons.mp h
      rw [List.foldlM_cons, setRow, if_pos hu, ok_bind, ih _ (by simpa using hlater)]
      refine congrArg Except.ok (List.ext_getElem (by simp) fun i _ _ => ?_)
      simp only [List.getElem_map, List.getElem_zipIdx, List.getElem_set, List.map_cons, Nat.zero_add,
        List.contains_cons]
      by_cases hi : i = u.1
      · simp [hi]
      · rw [if_neg (Ne.symm hi), beq_eq_false_iff_ne.mpr hi, Bool.false_or]

theorem unusedPreloads_eq (lines : List (List Char)) :
    unusedPreloads lines = .ok (Fixer.unusedPreloads.revise lines) := by
  rw [unusedPreloads, codes_eq, ok_bind]
  dsimp only
  rw [mapM_eq_ok fun x _ => unusedPreloadAt_eq lines x.2 x.1, ok_bind, reduceOption_map]
  refine (foldlM_setRow_none (Script.unusedPreloads lines) _ fun u hu => ?_).trans ?_
  · obtain ⟨x, hx, name, -, -, rfl⟩ := Fixer.mem_unusedPreloads.mp hu
    obtain ⟨hindex, -⟩ := List.getElem?_eq_some_iff.mp (List.mem_zipIdx_iff_getElem?.mp hx)
    simpa using hindex
  · rw [List.zipIdx_map, List.map_map]
    rfl

/-! ## Directives -/

/-- The directive on a line, with the text before it cut off where it starts. -/
def suppressionOfLine (file : String) (raw : List Char) (line : Nat) (inHeader : Bool) :
    Checked (Option Suppression) := do
  match Suppression.directive.find? raw with
  | none => return none
  | some m =>
    let before ← slice raw 0 m.start
    let scope := Suppression.scopeOf? (m.group 1) before (inHeader || line ≤ Suppression.headerLines)
    return scope.map fun scope => {
      file, scope
      line := if scope = .file then 0 else line
      target := str (m.group 2)
      reason := str (trim (m.group 3)) }

/-- The directives on the lines from `line` on. -/
def suppressionsFrom (file : String) (inHeader : Bool) (line : Nat) :
    List (List Char) → Checked (List Suppression)
  | [] => return []
  | raw :: rest => do
    let inHeader := inHeader && Suppression.isHeaderLine raw
    let found ← suppressionOfLine file raw line inHeader
    return found.toList ++ (← suppressionsFrom file inHeader (line + 1) rest)

theorem suppressionOfLine_eq (file : String) (raw : List Char) (line : Nat) (inHeader : Bool) :
    suppressionOfLine file raw line inHeader = .ok (Suppression.ofLine? file raw line inHeader) := by
  rw [suppressionOfLine, Suppression.ofLine?]
  cases hfound : Suppression.directive.find? raw with
  | none => rfl
  | some m =>
      dsimp only
      rw [(Pattern.occurs_of_find? hfound).isPlaced.before, ok_bind, pure_eq_ok]
      rw [Option.bind_eq_bind, Option.bind_some]
      cases Suppression.scopeOf? (m.group 1) (takeBytes m.start raw)
        (inHeader || line ≤ Suppression.headerLines) <;> rfl

theorem suppressionsFrom_eq (file : String) (inHeader : Bool) (line : Nat) (lines : List (List Char)) :
    suppressionsFrom file inHeader line lines = .ok (Suppression.scan file inHeader line lines) := by
  induction lines generalizing inHeader line with
  | nil => rfl
  | cons raw rest ih =>
      rw [suppressionsFrom, suppressionOfLine_eq, ok_bind, ih, Suppression.scan]
      rfl

/-! ## Scripts -/

/-- A script is read and fixed by offsets and indices as it is without them. In particular none of them
stops the reader. -/
structure ReadsByOffset (file : String) (lines : List (List Char)) : Prop where
  facts : facts lines = .ok (Facts.ofLines lines)
  suppressions : suppressionsFrom file true 1 lines = .ok (Suppression.ofLines file lines)
  dictAccess : dictAccess lines = .ok (Fixer.dictAccess.revise lines)
  unusedPreloads : unusedPreloads lines = .ok (Fixer.unusedPreloads.revise lines)
  /-- Every match lies in its text, and so do its groups; those that are taken for granted are there. -/
  groups : ∀ x ∈ Pattern.givenGroups, ∀ text m,
    m ∈ x.1.findAll text ∨ x.1.find? text = some m →
      Pattern.IsPlaced text m ∧ ∀ i ∈ x.2, (m.group? i).isSome = true

/-- **Offsets are always good**, whatever the lines of a script hold. -/
theorem readsByOffset (file : String) (lines : List (List Char)) : ReadsByOffset file lines where
  facts := facts_eq lines
  suppressions := suppressionsFrom_eq file true 1 lines
  dictAccess := dictAccess_eq lines
  unusedPreloads := unusedPreloads_eq lines
  groups := by
    intro x hx text m hm
    have hoccurs : x.1.Occurs text m := hm.elim Pattern.occurs_of_mem_findAll Pattern.occurs_of_find?
    exact ⟨hoccurs.isPlaced,
      fun i hi => hoccurs.group?_isSome (Pattern.givenGroups_subset_always x hx hi)⟩

end GodotLint.Offset
