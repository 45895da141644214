import GodotLint.Fix.Project
import GodotLint.Proofs.Fix.Text
import GodotLint.Proofs.Text.LineEnds

/-!
# What the fix writes

What a fix writes for a script comes from the bytes of the script line by line (`IsLineLocal`): a line
of which no change is told is written as it was read, every line with its own end. Byte-order marks
are not written back, bytes that are no UTF-8 are written as they are shown, and the last line has the
end of the last line that was there. The main statement is that fixing the scripts of a project on a
disk writes the scripts that change, and each of them so, if its line ends are all alike
(`Disk.fix_isLineLocal`).
-/

namespace GodotLint.Fixer

open Text

variable {f : Fixer}

/-! ## Files -/

/-- The bytes of a script without the byte-order marks that are not kept: the reader drops one of
them, and so does the script. -/
def contentOf (bytes : List UInt8) : List UInt8 := dropMarkBytes (dropMarkBytes bytes)

/-- The line ends of a file are all bare line feeds, or all with a carriage return. -/
def HasUniformEnds (bytes : List UInt8) : Prop :=
  EndsAlike [10] (byteLines bytes) ∨ EndsAlike [13, 10] (byteLines bytes)

instance (bytes : List UInt8) : Decidable (HasUniformEnds bytes) :=
  inferInstanceAs (Decidable (_ ∨ _))

/-- What is written for a line of a file: the line as it was read if no change is told of it, the new
line with the old end if it was changed, and nothing if it was removed. -/
def writtenLine? (changes : List LineChange) (number : Nat) (l : EndedLine UInt8) :
    Option (EndedLine UInt8) :=
  match changes.find? (·.line == number) with
  | none => some ⟨encode (decodeFrom none l.line), l.ending⟩
  | some c => l.revised (c.after.map encode)

/-- Bytes are those of a file, line by line, as changes say. -/
structure IsLineLocal (bytes : List UInt8) (changes : List LineChange) (written : List UInt8) :
    Prop where
  /-- Every line that is written has its own end, but the last one has the end that the last line of
  the file has. -/
  written_eq : written = EndedLine.join (lastEnding (byteLines (contentOf bytes)))
    (((byteLines (contentOf bytes)).zipIdx 1).filterMap fun x => writtenLine? changes x.2 x.1)
  /-- A line of valid UTF-8 of which no change is told is written byte for byte. -/
  kept : ∀ i l, (byteLines (contentOf bytes))[i]? = some l → (∀ c ∈ changes, c.line ≠ i + 1) →
    (∃ s, encode s = l.line) → writtenLine? changes (i + 1) l = some l

variable {bytes : List UInt8} {changes : List LineChange}

/-- A script is read from its bytes without the marks. -/
theorem text_ofBytes (path : String) (bytes : List UInt8) :
    (Source.ofBytes path bytes).text = decodeFrom none (contentOf bytes) := by
  change dropMark (dropMark (decodeFrom none bytes)) = _
  rw [dropMark_decodeFrom, dropMark_decodeFrom, contentOf]

/-- A file with uniform line ends is read as such a text. -/
theorem isUniform_decodeFrom (h : HasUniformEnds bytes) : IsUniform (decodeFrom none bytes) := by
  have hlift : ∀ ending, EndsAlike ending (byteLines bytes) →
      EndsAlike (decodeFrom none ending) (textLines (decodeFrom none bytes)) := by
    intro ending hends l hl
    rw [textLines_decodeFrom] at hl
    obtain ⟨b, hb, rfl⟩ := List.mem_map.mp hl
    rcases hends b hb with hnil | heq
    · exact .inl (congrArg (decodeFrom none) hnil)
    · exact .inr (congrArg (decodeFrom none) heq)
  rcases h with h | h
  · exact .inl (hlift _ h)
  · exact .inr (hlift _ h)

/-- A line that is revised as a text is written as it is revised as bytes. -/
theorem map_encoded_revisedLine? {l : EndedLine UInt8} (hl : l ∈ byteLines bytes) (number : Nat) :
    (revisedLine? changes number l.decoded).map EndedLine.encoded =
      writtenLine? changes number l := by
  have hending : encode l.decoded.ending = l.ending := encode_ending hl
  rw [revisedLine?, writtenLine?]
  cases changes.find? (·.line == number) with
  | none =>
      simp only [Option.map_some, EndedLine.encoded, hending]
      rfl
  | some c =>
      simp only [EndedLine.revised, Option.map_map]
      cases c.after with
      | none => rfl
      | some line => simp only [Option.map_some, Function.comp_apply, EndedLine.encoded, hending]

/-- Lines are written as the changes say. -/
theorem map_encoded_filterMap (bytes : List UInt8) (changes : List LineChange) :
    (((textLines (decodeFrom none bytes)).zipIdx 1).filterMap fun x =>
        revisedLine? changes x.2 x.1).map EndedLine.encoded =
      ((byteLines bytes).zipIdx 1).filterMap fun x => writtenLine? changes x.2 x.1 := by
  rw [textLines_decodeFrom, List.zipIdx_map, List.filterMap_map, List.map_filterMap]
  refine List.filterMap_congr fun x hx => ?_
  exact map_encoded_revisedLine? (List.fst_mem_of_mem_zipIdx hx) x.2

/-- **A fixed script is written line by line.** -/
theorem isLineLocal_apply (hf : f ∈ Fixer.all) (path : String)
    (h : HasUniformEnds (contentOf bytes))
    (hchanges : (f.apply (Source.ofBytes path bytes).text).changes ≠ []) :
    IsLineLocal bytes (f.apply (Source.ofBytes path bytes).text).changes
      (encode (f.apply (Source.ofBytes path bytes).text).text) where
  written_eq := by
    rw [text_ofBytes] at hchanges ⊢
    conv_lhs => rw [text_apply_eq_join hf (isUniform_decodeFrom h) hchanges]
    rw [encode_join, encode_lastEnding, map_encoded_filterMap]
  kept := by
    rintro i ⟨line, ending⟩ - hnone ⟨s, rfl⟩
    have hfind : (f.apply (Source.ofBytes path bytes).text).changes.find? (·.line == i + 1) =
        none := by
      rw [List.find?_eq_none]
      intro c hc
      simpa using hnone c hc
    rw [writtenLine?, hfind]
    simp only [decodeFrom_encode]

end GodotLint.Fixer

namespace GodotLint.Disk

open Text Fixer

variable {f : Fixer} {d : Disk} {p : Project} {file : Option String} {files : List FixedFile}

/-- The files that are fixed are scripts with changes. -/
theorem exists_script_of_mem (h : f.applyToProject p file = .ok files) {x : FixedFile}
    (hx : x ∈ files) : ∃ s ∈ p.scripts, x = ⟨s.source.path, f.apply s.source.text⟩ ∧
      (f.apply s.source.text).changes ≠ [] := by
  have hsome : ∀ sources : List Source, x ∈ sources.filterMap f.applyTo? →
      ∃ s ∈ sources, x = ⟨s.path, f.apply s.text⟩ ∧ (f.apply s.text).changes ≠ [] := by
    intro sources hx
    obtain ⟨s, hs, hfix⟩ := List.mem_filterMap.mp hx
    rw [applyTo?] at hfix
    by_cases hchanged : (f.apply s.text).isChanged = true
    · rw [if_pos hchanged, Option.some_inj] at hfix
      exact ⟨s, hs, hfix.symm, by simpa [Fixed.isChanged] using hchanged⟩
    · rw [if_neg hchanged] at hfix
      cases hfix
  have hscript : ∃ s ∈ p.scripts.map (·.source), x = ⟨s.path, f.apply s.text⟩ ∧
      (f.apply s.text).changes ≠ [] := by
    rw [applyToProject] at h
    cases hpath : file.map (Project.relativize p.root) with
    | none =>
        simp only [hpath, Except.ok.injEq] at h
        exact hsome _ (h ▸ hx)
    | some path =>
        simp only [hpath] at h
        split_ifs at h
        rw [Except.ok.injEq] at h
        obtain ⟨s, hs, heq⟩ := hsome _ (h ▸ hx)
        exact ⟨s, (List.mem_filter.mp hs).1, heq⟩
  obtain ⟨source, hsource, heq⟩ := hscript
  obtain ⟨s, hs, rfl⟩ := List.mem_map.mp hsource
  exact ⟨s, hs, heq⟩

theorem writeFixed_cons (d : Disk) (root : String) (x : FixedFile) (files : List FixedFile) :
    d.writeFixed root (x :: files) =
      match d.write (Path.underString root x.file) (encode x.fixed.text) with
      | .ok written => written.writeFixed root files
      | .error fault => (d, some (.unwritable (Path.underString root x.file) fault)) := (rfl)

/-- Writing fixed files is writing their texts, one after the other. -/
theorem foldlM_write_of_writeFixed {root : String} {d' : Disk}
    (h : d.writeFixed root files = (d', none)) :
    files.foldlM (fun d x => d.write (Path.underString root x.file) (encode x.fixed.text)) d =
      .ok d' := by
  induction files generalizing d with
  | nil =>
      cases h
      rfl
  | cons x files ih =>
      rw [writeFixed_cons] at h
      rw [List.foldlM_cons]
      cases hwrite : d.write (Path.underString root x.file) (encode x.fixed.text) with
      | error fault => simp [hwrite] at h
      | ok written =>
          simp only [hwrite] at h
          exact ih h

/-- A fix that succeeds and is no dry run has written the files that it tells. -/
theorem writeFixed_of_fix (h : (d.fix f p file false).2 = .ok files) :
    f.applyToProject p file = .ok files ∧
      d.writeFixed p.root files = ((d.fix f p file false).1, none) := by
  rw [fix] at h ⊢
  cases happly : f.applyToProject p file with
  | error fault => simp [happly] at h
  | ok fs =>
      simp only [happly, Bool.false_eq_true, if_false] at h ⊢
      rcases hwrite : d.writeFixed p.root fs with ⟨d', _ | fault⟩
      · simp only [hwrite, Except.ok.injEq] at h ⊢
        subst h
        exact ⟨rfl, hwrite⟩
      · simp [hwrite] at h

/-- **Fixing on disk is line by line**: the disk is what it was with the files written that are told,
and no others. Each of them is a script with changes, and its new bytes come from those that it was
read from line by line, as its changes say, if its line ends are all alike. -/
theorem fix_isLineLocal (hf : f ∈ Fixer.all) (hfix : (d.fix f p file false).2 = .ok files) :
    files.foldlM (fun d x => d.write (Path.underString p.root x.file) (encode x.fixed.text)) d =
      .ok (d.fix f p file false).1 ∧
    ∀ x ∈ files, x.fixed.changes ≠ [] ∧ ∃ s ∈ p.scripts, s.source.path = x.file ∧
      ∀ bytes, s.source = Source.ofBytes x.file bytes → HasUniformEnds (contentOf bytes) →
        IsLineLocal bytes x.fixed.changes (encode x.fixed.text) := by
  obtain ⟨happly, hwrite⟩ := writeFixed_of_fix hfix
  refine ⟨foldlM_write_of_writeFixed hwrite, fun x hx => ?_⟩
  obtain ⟨s, hs, rfl, hchanges⟩ := exists_script_of_mem happly hx
  refine ⟨hchanges, s, hs, rfl, fun bytes hread huniform => ?_⟩
  rw [hread] at hchanges ⊢
  exact isLineLocal_apply hf _ huniform hchanges

/-- A script with a byte-order mark and, in a comment, a byte that is no UTF-8. -/
def markedScript : List UInt8 :=
  [0xEF, 0xBB, 0xBF, 0x23, 0xFF] ++ encode "\r\nx = a[\"k\"]\r\npass".toList

/-- A disk with nothing else on it. -/
def markedDisk : Disk := ⟨.directory [("a.gd", .file markedScript)], []⟩

/-- The project of this script. -/
def markedProject : Project := .assemble "." {} [Source.ofBytes "a.gd" markedScript] [] [] []

/-- The fix of a script with a mark writes its lines, but for the mark and the byte that is no
UTF-8. -/
theorem fix_isLineLocal_marked : ∃ x,
    (markedDisk.fix dictAccess markedProject none false).2 = .ok [x] ∧
      HasUniformEnds (contentOf markedScript) ∧
      IsLineLocal markedScript x.fixed.changes (encode x.fixed.text) ∧
      encode x.fixed.text = [0x23, 0xEF, 0xBF, 0xBD] ++
        encode "\r\nx = a.get(\"k\", null)\r\npass".toList := by
  have huniform : HasUniformEnds (contentOf markedScript) := by decide +kernel
  have hfix : (markedDisk.fix dictAccess markedProject none false).2 =
      .ok [⟨"a.gd", dictAccess.apply (Source.ofBytes "a.gd" markedScript).text⟩] := by
    decide +kernel
  obtain ⟨-, s, hs, -, hlocal⟩ :=
    (fix_isLineLocal (List.mem_cons_self ..) hfix).2 _ (List.mem_singleton_self _)
  obtain rfl : s = Script.ofSource (Source.ofBytes "a.gd" markedScript) := List.mem_singleton.mp hs
  exact ⟨_, hfix, huniform, hlocal _ rfl huniform, by decide +kernel⟩

/-- Lines of which no change is told are written with other bytes: one with a byte-order mark, one
with a byte that is no UTF-8, and one whose end goes with the last line of a file that was not
ended. -/
theorem fix_changes_unlisted_lines :
    (∃ x, dictAccess.applyTo? (Source.ofBytes "a.gd"
          ([0xEF, 0xBB, 0xBF] ++ encode "pass\nx = a[\"k\"]\n".toList)) = some x ∧
        x.fixed.changes.map (·.line) = [2] ∧
        encode x.fixed.text = encode "pass\nx = a.get(\"k\", null)\n".toList) ∧
    (∃ x, dictAccess.applyTo? (Source.ofBytes "a.gd"
          ([0x23, 0xFF] ++ encode "\nx = a[\"k\"]\n".toList)) = some x ∧
        x.fixed.changes.map (·.line) = [2] ∧
        encode x.fixed.text = [0x23, 0xEF, 0xBF, 0xBD] ++
          encode "\nx = a.get(\"k\", null)\n".toList) ∧
    (∃ x, unusedPreloads.applyTo? (Source.ofBytes "a.gd"
          (encode "pass\nconst A = preload(\"a.gd\")".toList)) = some x ∧
        x.fixed.changes.map (·.line) = [2] ∧ encode x.fixed.text = encode "pass".toList) :=
  ⟨⟨_, rfl, by decide +kernel, by decide +kernel⟩, ⟨_, rfl, by decide +kernel, by decide +kernel⟩,
    ⟨_, rfl, by decide +kernel, by decide +kernel⟩⟩

end GodotLint.Disk
