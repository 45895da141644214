import GodotLint.Fix.Basic
import GodotLint.Pattern.Basic
import GodotLint.Proofs.Pattern.Replacing
import GodotLint.Proofs.Script.Accesses

/-!
# What the fix of dictionary accesses replaces

The fix works on a line from its last access to its first, each time on the line that the later
replacements have left. The main statement is that this comes to replacing matches of the
original line, all at once (`replaceAccesses_eq_replaceMatches`): those that start outside of
literals and are followed neither by an assignment operator nor by a further subscript. The right
to left order keeps the offsets of earlier accesses, and no replacement changes what is seen after
an earlier access, as the call starts with the receiver that the subscript started with.

For proofs the result is told along the scan of the line: it is `spliced` from the gaps between the
subscripts and what each of them becomes.
-/

namespace GodotLint.Fixer

open Text Pattern Script

/-- Whether the fix replaces a match on a line of code: it starts outside of literals, nothing is
assigned to it and no further subscript follows. -/
def isOpenRead (code : List Char) (m : Match) : Bool :=
  !Line.isInsideLiteral code m.start && !assignmentAfter.occursIn m.after.rest &&
    !subscriptFollows m.after.rest

/-- The reads of a line that the fix replaces. -/
def openReads (line : List Char) : List Match :=
  (bracketAccess.findAll (Line.code line)).filter (isOpenRead (Line.code line))

/-- What the fix puts in the place of a match on a line of code. -/
def replacement (code : List Char) (m : Match) : List Char :=
  if isOpenRead code m then
    (getExpression (str (m.group 1)) (str (m.group 2 ++ m.group 3))).toList
  else m.whole.chars

/-- The placed subscript that is replaced. -/
def isOpen (x : Placed Subscript) : Bool :=
  isOutside x && !assignmentAfter.occursIn x.after && !subscriptFollows x.after

/-- The call that stands in for a subscript. -/
def callFor (a : Subscript) : List Char :=
  (getExpression (str a.receiver) (str a.quoted.key)).toList

/-- What the fix makes of a placed subscript. -/
def rewritten (x : Placed Subscript) : List Char :=
  if isOpen x then callFor x.token else x.token.text

/-! ## The reads of a line -/

variable {ps : List (Placed Subscript)}

/-- An access that starts outside of literals and is not written to. -/
def isReadOutside (x : Placed Subscript) : Bool :=
  isOutside x && !assignmentAfter.occursIn x.after

/-- The accesses that the fix looks at, from left to right. -/
theorem filter_isRead_accesses (line : List Char) (number : Nat)
    (h : Scan Subscript.text [] (Line.code line) ps) :
    (stableSort Access.le (accessesOfLine line number)).filter isRead =
      (ps.filter isReadOutside).map (accessOfSubscript (Line.code line) number) := by
  have hreads : (accessesOfLine line number).filter isRead =
      (ps.filter isReadOutside).map (accessOfSubscript (Line.code line) number) := by
    obtain ⟨cs, hcs⟩ := spells_callAccess.exists_scan (Line.code line)
    have hbrackets : (bracketAccesses (Line.code line) number).filter isRead =
        (ps.filter isReadOutside).map (accessOfSubscript (Line.code line) number) := by
      rw [bracketAccesses_eq h, List.filter_map, List.filter_filter]
      congr 1
      refine List.filter_congr fun x _ => ?_
      exact Bool.and_comm _ _
    have hcalls : (callAccesses (Line.code line) number).filter isRead = [] := by
      rw [callAccesses_eq hcs, List.filter_map, List.map_eq_nil_iff, List.filter_eq_nil_iff]
      intro x _
      simp only [Function.comp_apply, isRead, accessOfCall]
      split_ifs <;> simp
    rw [accessesOfLine_eq, List.filter_append, hbrackets, hcalls, List.append_nil]
  rw [← hreads]
  refine filter_stableSort ?_
  rw [hreads]
  have := pairwise_accessOfSubscript h number
  rw [List.pairwise_map] at this ⊢
  exact this.filter _

/-! ## Splicing -/

/-- The text of a scan with every token rewritten, from the place after `pre` on. -/
def spliced : (pre post : List Char) → List (Placed Subscript) → List Char
  | _, post, [] => post
  | pre, post, x :: xs =>
    takeBytes (width x.before - width pre) post ++ rewritten x ++
      spliced (x.before ++ x.token.text)
        (dropBytes (width (x.before ++ x.token.text) - width pre) post) xs

@[simp] theorem spliced_nil (pre post : List Char) : spliced pre post [] = post := rfl

@[simp] theorem spliced_cons (pre gap rest after : List Char) (a : Subscript) :
    spliced pre (gap ++ a.text ++ rest) (⟨pre ++ gap, a, after⟩ :: ps) =
      gap ++ rewritten ⟨pre ++ gap, a, after⟩ ++ spliced (pre ++ gap ++ a.text) rest ps := by
  have htake : takeBytes (width (pre ++ gap) - width pre) (gap ++ a.text ++ rest) = gap := by
    rw [width_append, Nat.add_sub_cancel_left, List.append_assoc, takeBytes_width_append]
  have hdrop : dropBytes (width (pre ++ gap ++ a.text) - width pre) (gap ++ a.text ++ rest) =
      rest := by
    rw [List.append_assoc pre, width_append, Nat.add_sub_cancel_left, dropBytes_width_append]
  rw [spliced, htake, hdrop]

/-- The call that stands in for a subscript starts with its receiver. -/
theorem callFor_eq (a : Subscript) : callFor a = a.receiver ++ (".get(\"".toList ++
    (a.quoted.key ++ ("\", ".toList ++ ((KeyDefault.ofKey (str a.quoted.key)).expression.toList ++
      [')'])))) := by
  simp [callFor, getExpression]

/-- What a subscript becomes starts with its receiver. -/
theorem exists_rewritten_eq (x : Placed Subscript) :
    ∃ t, rewritten x = x.token.receiver ++ t := by
  rw [rewritten]
  split_ifs
  · exact ⟨_, callFor_eq x.token⟩
  · exact ⟨x.token.tail, rfl⟩

/-- What is put in the place of a subscript starts with the same character, which is not blank. -/
theorem firstSeen_rewritten (x : Placed Subscript) (s t : List Char) :
    (trimStart (rewritten x ++ s)).head? = (trimStart (x.token.text ++ t)).head? := by
  obtain ⟨c, r, hreceiver, hc, -⟩ := exists_cons_of_isPath x.token.isPath
  obtain ⟨u, hu⟩ := exists_rewritten_eq x
  have hblank := isBlank_eq_false_of_isIdentChar (isIdentChar_of_isIdentStart hc)
  rw [hu, Subscript.text, hreceiver]
  simp [trimStart, hblank]

/-- A comment does not change whether a subscript follows. -/
theorem subscriptFollows_append {s rest : List Char} {q : Quoting} (h : Line.Closes q rest) :
    subscriptFollows (s ++ rest) = subscriptFollows s := by
  rcases h with rfl | ⟨-, r, rfl⟩
  · rw [List.append_nil]
  · have hmark : (trimStart ('#' :: r)).head? = some '#' := by
      simp [trimStart, show isBlank '#' = false by decide]
    rw [subscriptFollows, subscriptFollows, head?_trimStart_append, hmark]
    cases (trimStart s).head? <;> simp

variable {pre post comment : List Char} {q : Quoting}

/-- Rewriting the tokens does not change what is seen first. -/
theorem firstSeen_spliced (h : Row Subscript.text pre post ps) :
    (trimStart (spliced pre post ps)).head? = (trimStart post).head? := by
  cases h with
  | nil => rfl
  | @cons _ gap rest after a ps _ =>
      rw [spliced_cons, List.append_assoc gap, List.append_assoc gap, head?_trimStart_append,
        head?_trimStart_append gap, firstSeen_rewritten]

/-- Rewriting the tokens does not change whether a subscript follows. -/
theorem subscriptFollows_spliced (h : Row Subscript.text pre post ps) :
    subscriptFollows (spliced pre post ps) = subscriptFollows post := by
  rw [subscriptFollows, firstSeen_spliced h, subscriptFollows]

/-! ## Replacing from right to left -/

/-- Replacing accesses one after the other, from the last to the first, rewrites the tokens. -/
theorem foldr_replaceAccess (h : Scan Subscript.text pre post ps) (hcomment : Line.Closes q comment)
    (code : List Char) (number : Nat) :
    ((ps.filter isReadOutside).map (accessOfSubscript code number)).foldr replaceAccess
        (pre ++ post ++ comment) = pre ++ spliced pre post ps ++ comment := by
  rw [List.foldr_map, List.foldr_filter]
  induction h with
  | done => rfl
  | @next pre gap rest a ps _ later ih =>
      have hline : pre ++ (gap ++ a.text ++ rest) ++ comment =
          pre ++ gap ++ a.text ++ rest ++ comment := by simp
      rw [List.foldr_cons, hline, ih, spliced_cons]
      generalize hout : spliced (pre ++ gap ++ a.text) rest ps = out
      have hdrop : dropBytes (width (pre ++ gap ++ a.text)) (pre ++ gap ++ a.text ++ out ++ comment) =
          out ++ comment := by
        rw [List.append_assoc (pre ++ gap ++ a.text), dropBytes_width_append]
      have htake : takeBytes (width (pre ++ gap)) (pre ++ gap ++ a.text ++ out ++ comment) =
          pre ++ gap := by
        rw [List.append_assoc, List.append_assoc, takeBytes_width_append]
      -- what follows the access now begins as what followed it before
      have hseen : isSubscripted (pre ++ gap ++ a.text ++ out ++ comment)
          (accessOfSubscript code number ⟨pre ++ gap, a, rest⟩) = subscriptFollows rest := by
        change subscriptFollows (dropBytes (width (pre ++ gap ++ a.text)) _) = _
        rw [hdrop, subscriptFollows_append hcomment, ← hout, subscriptFollows_spliced later.row]
      rw [rewritten, isOpen, ← isReadOutside]
      cases isReadOutside ⟨pre ++ gap, a, rest⟩
      · simp
      · simp only [if_true, replaceAccess, hseen, Bool.true_and]
        cases subscriptFollows rest
        · simp only [Bool.false_eq_true, if_false, Bool.not_false, if_true, accessOfSubscript, hdrop,
            htake]
          simp [callFor]
        · simp

/-- The result of the fix along the scan of the code. -/
theorem replaceAccesses_eq_spliced {line : List Char} (hline : line = Line.code line ++ comment)
    (hcomment : Line.Closes q comment) (h : Scan Subscript.text [] (Line.code line) ps)
    (number : Nat) : replaceAccesses line number = spliced [] (Line.code line) ps ++ comment := by
  have hfold := foldr_replaceAccess h hcomment (Line.code line) number
  rw [List.nil_append, List.nil_append, ← hline] at hfold
  rw [replaceAccesses, filter_isRead_accesses line number h, hfold]

/-- A line after the fix of dictionary accesses. -/
def fixedLine (line : List Char) : List Char := replaceAccesses line 0

/-- The fix does not look at the number of a line. -/
theorem replaceAccesses_eq_fixedLine (line : List Char) (number : Nat) :
    replaceAccesses line number = fixedLine line := by
  obtain ⟨comment, hline, -, hcomment⟩ := Line.code_spec line
  obtain ⟨ps, hps⟩ := spells_bracketAccess.exists_scan (Line.code line)
  rw [fixedLine, replaceAccesses_eq_spliced hline hcomment hps,
    replaceAccesses_eq_spliced hline hcomment hps]

/-! ## Replacing matches -/

/-- Replacing the matches of a row by what the tokens become rewrites the tokens. -/
theorem replaceMatches_eq_spliced {f : Match → List Char} (h : Row Subscript.text pre post ps)
    (hf : ∀ x ∈ ps, f (x.toMatch Subscript.text Subscript.groups) = rewritten x)
    (comment : List Char) :
    replaceMatches f (width pre) (post ++ comment)
      (ps.map (Placed.toMatch Subscript.text Subscript.groups)) =
        spliced pre post ps ++ comment := by
  induction h with
  | nil => rfl
  | @cons pre gap rest after a ps _ ih =>
      have hlater := ih fun x hx => hf x (List.mem_cons_of_mem _ hx)
      have hline : gap ++ a.text ++ rest ++ comment = gap ++ (a.text ++ (rest ++ comment)) := by simp
      rw [List.map_cons, Placed.toMatch, hline, replaceMatches_cons, hlater, spliced_cons,
        ← hf _ (List.mem_cons_self ..), Placed.toMatch]
      simp only [List.append_assoc]

/-- The open reads among the matches are the open tokens. -/
theorem isOpenRead_toMatch {code : List Char} (h : Scan Subscript.text [] code ps)
    {x : Placed Subscript} (hx : x ∈ ps) :
    isOpenRead code (x.toMatch Subscript.text Subscript.groups) = isOpen x := by
  change (!Line.isInsideLiteral code (width x.before) && _ && _) = _
  rw [isInsideLiteral_eq_of_mem h hx]
  rfl

/-- The open reads of a line are the open tokens of the scan of its code. -/
theorem openReads_eq {line : List Char} (h : Scan Subscript.text [] (Line.code line) ps) :
    openReads line = (ps.filter isOpen).map (Placed.toMatch Subscript.text Subscript.groups) := by
  rw [openReads, spells_bracketAccess.findAll_eq h, List.filter_map]
  congr 1
  exact List.filter_congr fun x hx => isOpenRead_toMatch h hx

/-- What the fix puts in the place of a token of the scan. -/
theorem replacement_toMatch {code : List Char} (h : Scan Subscript.text [] code ps)
    {x : Placed Subscript} (hx : x ∈ ps) :
    replacement code (x.toMatch Subscript.text Subscript.groups) = rewritten x := by
  rw [replacement, rewritten, isOpenRead_toMatch h hx, group_receiver, group_key]
  rfl

/-- **What the fix does to a line.** The result of the fix is the line with its open reads
replaced by calls, all at once, and everything else as it was. -/
theorem replaceAccesses_eq_replaceMatches (line : List Char) (number : Nat) :
    replaceAccesses line number = replaceMatches (replacement (Line.code line)) 0 line
      (bracketAccess.findAll (Line.code line)) := by
  obtain ⟨comment, hline, -, hcomment⟩ := Line.code_spec line
  obtain ⟨ps, hps⟩ := spells_bracketAccess.exists_scan (Line.code line)
  have hmatches := replaceMatches_eq_spliced hps.row (fun x hx => replacement_toMatch hps hx) comment
  rw [← hline, ← spells_bracketAccess.findAll_eq hps, width_nil] at hmatches
  rw [hmatches, replaceAccesses_eq_spliced hline hcomment hps]

end GodotLint.Fixer
