import GodotLint.Proofs.Line.Words
import GodotLint.Project.Settings

/-!
# The stretches of a project file

A project file falls into stretches: a line, and below it the lines that its value goes on over. What a
line says where no value is open is told by its shape alone (`Means`), and a value goes on as long as its
brackets are open (`Continues`), so the stretches are fixed by the lines (`Cut`) and every file has them
(`exists_cut`). The reader carries an open entry along from line to line. It comes to the same to take one
whole stretch after the other (`Cut.foldl_readLine`): a line inside open brackets is never looked at as a
header, an entry or a fault.
-/

namespace GodotLint.Settings

open Text

/-! ## What a line says -/

/-- What a line says where no value is open. -/
inductive Saying where
  | nothing
  /-- A section starts. -/
  | header (name : List Char)
  /-- An entry starts; its value may go on below. -/
  | entry (key value : List Char)
  | fault (fault : SettingsFault)
  deriving DecidableEq, Repr

/-- The line is neither blank, nor a comment, nor in brackets. -/
def IsPlain (line : List Char) : Prop := ∃ c rest, line = c :: rest ∧ c ≠ ';' ∧ c ≠ '#' ∧ c ≠ '['

/-- A line says something by its shape. -/
inductive Means (raw : List Char) : Saying → Prop
  | blank (h : trim raw = []) : Means raw .nothing
  | comment {c : Char} {rest : List Char} (h : trim raw = c :: rest) (hc : c = ';' ∨ c = '#') :
      Means raw .nothing
  | header {inner : List Char} (h : trim raw = '[' :: (inner ++ [']'])) :
      Means raw (.header (trim inner))
  | unterminated {rest : List Char} (h : trim raw = '[' :: rest) (hrest : rest.getLast? ≠ some ']') :
      Means raw (.fault (.unterminatedHeader (trim raw)))
  | entry {key value : List Char} (hplain : IsPlain (trim raw)) (h : trim raw = key ++ '=' :: value)
      (hkey : '=' ∉ key) : Means raw (.entry (trim key) (trim value))
  | noEquals (hplain : IsPlain (trim raw)) (h : '=' ∉ trim raw) :
      Means raw (.fault (.missingEquals (trim raw)))

variable {raw : List Char} {what : Saying}

/-- Every line says something. -/
theorem exists_means (raw : List Char) : ∃ what, Means raw what := by
  cases hraw : trim raw with
  | nil => exact ⟨_, .blank hraw⟩
  | cons c rest =>
      by_cases hcomment : c = ';' ∨ c = '#'
      · exact ⟨_, .comment hraw hcomment⟩
      by_cases hbracket : c = '['
      · subst hbracket
        by_cases hlast : rest.getLast? = some ']'
        · obtain ⟨inner, rfl⟩ := List.getLast?_eq_some_iff.mp hlast
          exact ⟨_, .header hraw⟩
        · exact ⟨_, .unterminated hraw hlast⟩
      · have hplain : IsPlain (trim raw) :=
          ⟨c, rest, hraw, fun h => hcomment (.inl h), fun h => hcomment (.inr h), hbracket⟩
        by_cases hequals : '=' ∈ trim raw
        · obtain ⟨key, value, h, hkey⟩ := List.eq_append_cons_of_mem hequals
          exact ⟨_, .entry hplain h hkey⟩
        · exact ⟨_, .noEquals hplain hequals⟩

/-- The first equals sign is the one with none before it. -/
theorem cutAt?_equals {key value : List Char} (h : '=' ∉ key) :
    cutAt? ['='] (key ++ '=' :: value) = some (key, value) := by
  rw [cutAt?_eq_some_iff (List.cons_ne_nil _ _)]
  refine ⟨by simp, fun a b hab => ?_⟩
  by_contra hlt
  rw [Nat.not_le] at hlt
  have hat : key[a.length]? = some '=' := by
    have hsame := congrArg (·[a.length]?) hab
    simpa [List.getElem?_append_left hlt] using hsame
  exact h (List.mem_of_getElem? hat)

/-- What the reader does with what a line says. -/
def Reading.hear (r : Reading) (line : Nat) : Saying → Reading
  | .nothing => r
  | .header name =>
    { r with
      sectionName := str name
      settings.sections := r.settings.sections.insertIfNew (str name) .empty }
  | .entry key value => r.continueWith { line, key, value, depth := bracketDepth value }
  | .fault fault => { r with settings.faults := r.settings.faults ++ [(line, fault)] }

/-- **The reader hears what a line says**, where no value is open. -/
theorem Means.readFresh (h : Means raw what) (r : Reading) (line : Nat) :
    r.readFresh raw line = r.hear line what := by
  unfold Reading.readFresh
  cases h with
  | blank h => rw [h]; rfl
  | comment h hc =>
      rw [h]
      rcases hc with rfl | rfl <;> rfl
  | header h =>
      rw [h]
      simp [headerName?, Reading.hear]
  | unterminated h hrest =>
      rw [h]
      simp [headerName?, hrest, Reading.hear]
  | @entry key value hplain h hkey =>
      obtain ⟨c, rest, hc, hsemicolon, hhash, hbracket⟩ := hplain
      have hcut : cutAt? ['='] (key ++ '=' :: value) = some (key, value) := cutAt?_equals hkey
      rw [← h, hc] at hcut
      rw [hc]
      simp [hsemicolon, hhash, hbracket, hcut, Reading.hear]
  | noEquals hplain h =>
      obtain ⟨c, rest, hc, hsemicolon, hhash, hbracket⟩ := hplain
      have hcut : cutAt? ['='] (trim raw) = none := by
        rw [cutAt?_eq_none_iff (List.cons_ne_nil _ _)]
        intro hin
        exact h (hin.subset List.mem_cons_self)
      rw [hc] at hcut
      simp [hc, hsemicolon, hhash, hbracket, hcut, Reading.hear]

/-! ## Open values -/

/-- A value of which `depth` brackets are open goes on over some lines and ends before others: each of them
stands inside open brackets, and behind them the brackets are closed or the file is at its end. -/
inductive Continues : (depth : Int) → (lines rest : List (List Char)) → Prop
  | closed {depth : Int} {rest : List (List Char)} (h : depth ≤ 0) : Continues depth [] rest
  | atEnd {depth : Int} : Continues depth [] []
  | line {depth : Int} {l : List Char} {ls rest : List (List Char)} (h : 0 < depth)
      (later : Continues (depth + bracketDepth l) ls rest) : Continues depth (l :: ls) rest

variable {depth : Int} {ls rest more : List (List Char)}

/-- How far a value goes can be told from the lines below it. -/
theorem exists_continues (depth : Int) (ls : List (List Char)) :
    ∃ more rest, ls = more ++ rest ∧ Continues depth more rest := by
  induction ls generalizing depth with
  | nil => exact ⟨[], [], rfl, .atEnd⟩
  | cons l ls ih =>
      by_cases h : 0 < depth
      · obtain ⟨more, rest, rfl, hmore⟩ := ih (depth + bracketDepth l)
        exact ⟨l :: more, rest, rfl, .line h hmore⟩
      · exact ⟨[], l :: ls, rfl, .closed (not_lt.mp h)⟩

/-- Where lines are left the brackets are closed, so that it does not matter what these lines are. -/
theorem Continues.of_ne_nil (h : Continues depth more rest) (hrest : rest ≠ [])
    (rest' : List (List Char)) : Continues depth more rest' := by
  induction h with
  | closed h => exact .closed h
  | atEnd => exact absurd rfl hrest
  | line h _ ih => exact .line h (ih hrest)

/-- The text of the lines that a value goes on over, each behind a line feed. -/
def continuation (more : List (List Char)) : List Char := more.flatMap ('\n' :: ·)

/-- No entry is open behind a stored one. -/
theorem Reading.entry_store (r : Reading) (e : OpenEntry) : (r.store e).entry = none := by
  unfold Reading.store
  simp only
  split_ifs <;> rfl

/-- The reader goes on with an entry over the lines that its value goes on over, and stores it. -/
theorem Continues.foldl_readLine (h : Continues depth more rest) (r : Reading) (n first : Nat)
    (key value : List Char) :
    (((more ++ rest).zipIdx n).foldl Reading.readLine
      (r.continueWith { line := first, key, value, depth })).finish =
    ((rest.zipIdx (n + more.length)).foldl Reading.readLine
      (r.store { line := first, key, value := value ++ continuation more, depth := 0 })).finish := by
  -- how deep the brackets are has no part in what is stored
  have hstore : ∀ (r : Reading) (e : OpenEntry) d, r.store { e with depth := d } = r.store e :=
    fun _ _ _ => rfl
  induction h generalizing n value with
  | closed h =>
      rw [Reading.continueWith, if_neg (not_lt.mpr h)]
      simp only [continuation, List.flatMap_nil, List.append_nil, List.nil_append, List.length_nil,
        Nat.add_zero]
      rfl
  | @atEnd depth =>
      simp only [continuation, List.flatMap_nil, List.append_nil, List.zipIdx_nil, List.foldl_nil]
      unfold Reading.continueWith
      split_ifs
      · -- the entry is still open where the file ends
        unfold Reading.finish
        rw [Reading.entry_store]
        rfl
      · rfl
  | @line depth l ls rest h _ ih =>
      have hread : (r.continueWith { line := first, key, value, depth }).readLine (l, n) =
          r.continueWith
            { line := first, key, value := value ++ '\n' :: l, depth := depth + bracketDepth l } := by
        unfold Reading.continueWith
        rw [if_pos h]
        rfl
      rw [List.cons_append, List.zipIdx_cons, List.foldl_cons, hread, ih]
      have hvalue : value ++ '\n' :: l ++ continuation ls = value ++ continuation (l :: ls) := by
        simp [continuation]
      rw [hvalue, List.length_cons, Nat.add_comm ls.length, Nat.add_assoc]

/-! ## Stretches -/

/-- A line, and the lines that its value goes on over. -/
structure Stretch where
  /-- The number of the first line. -/
  line : Nat
  raw : List Char
  /-- What the first line says. -/
  meaning : Saying
  /-- The lines below that the value goes on over. -/
  more : List (List Char)
  deriving DecidableEq, Repr

namespace Stretch

/-- The lines of a stretch. -/
def lines (s : Stretch) : List (List Char) := s.raw :: s.more

/-- A stretch starts with a line that says something, and ends where the value of that line ends. -/
structure IsWhole (s : Stretch) (rest : List (List Char)) : Prop where
  means : Means s.raw s.meaning
  continues : ∀ key value, s.meaning = .entry key value → Continues (bracketDepth value) s.more rest
  single : (∀ key value, s.meaning ≠ .entry key value) → s.more = []

end Stretch

/-- The lines from number `n` on fall into stretches. -/
inductive Cut : (n : Nat) → List (List Char) → List Stretch → Prop
  | nil (n : Nat) : Cut n [] []
  | cons {s : Stretch} {rest : List (List Char)} {ss : List Stretch} (whole : s.IsWhole rest)
      (later : Cut (s.line + s.lines.length) rest ss) : Cut s.line (s.lines ++ rest) (s :: ss)

variable {n : Nat} {ss : List Stretch}

/-- **Every file falls into stretches.** -/
theorem exists_cut (n : Nat) (ls : List (List Char)) : ∃ ss, Cut n ls ss := by
  induction hlength : ls.length using Nat.strong_induction_on generalizing n ls with
  | _ length ih =>
      subst hlength
      cases ls with
      | nil => exact ⟨[], .nil n⟩
      | cons raw ls =>
          obtain ⟨what, hwhat⟩ := exists_means raw
          obtain ⟨more, rest, rfl, hwhole⟩ : ∃ more rest, ls = more ++ rest ∧
              Stretch.IsWhole ⟨n, raw, what, more⟩ rest := by
            by_cases hentry : ∃ key value, what = .entry key value
            · obtain ⟨key, value, rfl⟩ := hentry
              obtain ⟨more, rest, rfl, hmore⟩ := exists_continues (bracketDepth value) ls
              refine ⟨more, rest, rfl, hwhat, ?_, fun h => absurd rfl (h key value)⟩
              rintro _ _ ⟨⟩
              exact hmore
            · push Not at hentry
              exact ⟨[], ls, rfl, hwhat, fun key value h => absurd h (hentry key value), fun _ => rfl⟩
          have hshorter : rest.length < (raw :: (more ++ rest)).length := by
            simp only [List.length_cons, List.length_append]
            omega
          obtain ⟨ss, hss⟩ := ih rest.length hshorter
            (n + (Stretch.lines ⟨n, raw, what, more⟩).length) rest rfl
          exact ⟨⟨n, raw, what, more⟩ :: ss, .cons hwhole hss⟩

namespace Cut

/-- The lines belong to the stretches, each to one. -/
theorem lines_eq (h : Cut n ls ss) : ls = ss.flatMap Stretch.lines := by
  induction h with
  | nil => rfl
  | cons _ _ ih => rw [List.flatMap_cons, ← ih]

end Cut

/-- The text of a value, with the lines that it goes on over. -/
def Stretch.value (s : Stretch) (start : List Char) : List Char := start ++ continuation s.more

/-- What the reader does with a whole stretch. -/
def Reading.take (r : Reading) (s : Stretch) : Reading :=
  match s.meaning with
  | .entry key value => r.store { line := s.line, key, value := s.value value, depth := 0 }
  | what => r.hear s.line what

/-- No entry is open behind a whole stretch. -/
theorem Reading.entry_take {r : Reading} (hr : r.entry = none) (s : Stretch) :
    (r.take s).entry = none := by
  unfold Reading.take
  cases s.meaning with
  | entry key value => exact Reading.entry_store _ _
  | nothing | header | fault => exact hr

/-- **Line by line or stretch by stretch**, the reader comes to the same. -/
theorem Cut.foldl_readLine (h : Cut n ls ss) {r : Reading} (hr : r.entry = none) :
    ((ls.zipIdx n).foldl Reading.readLine r).finish = (ss.foldl Reading.take r).settings := by
  induction h generalizing r with
  | nil =>
      unfold Reading.finish
      simp only [List.zipIdx_nil, List.foldl_nil, hr]
  | @cons s rest ss whole _ ih =>
      have hfresh : r.readLine (s.raw, s.line) = r.hear s.line s.meaning := by
        unfold Reading.readLine
        simp only [hr]
        exact whole.means.readFresh r s.line
      rw [List.foldl_cons, ← ih (Reading.entry_take hr s), Stretch.lines, List.cons_append,
        List.zipIdx_cons, List.foldl_cons, hfresh, List.length_cons, Nat.add_comm s.more.length,
        ← Nat.add_assoc]
      by_cases hentry : ∃ key value, s.meaning = .entry key value
      · obtain ⟨key, value, hmeaning⟩ := hentry
        have hmore := whole.continues key value hmeaning
        unfold Reading.take
        rw [hmeaning]
        exact hmore.foldl_readLine r (s.line + 1) s.line key value
      · push Not at hentry
        have htake : r.take s = r.hear s.line s.meaning := by
          unfold Reading.take
          split
          · rename_i key value hmeaning
            exact absurd hmeaning (hentry key value)
          · rfl
        rw [whole.single hentry, htake]
        rfl

/-- What is read from a file is what its stretches tell. -/
theorem parse_eq {text : List Char} (h : Cut 1 (lines text) ss) :
    parse text = (ss.foldl Reading.take {}).settings :=
  h.foldl_readLine rfl

end GodotLint.Settings
