import GodotLint.Proofs.Fix.Text

/-!
# Parts of a fixed line

What becomes of a part of a line: the open reads that lie in it are replaced (`fixedPart`). A line
can be cut wherever no open read reaches across the cut, and its parts are fixed each by itself
(`fixedPart_append`); around an open read the line is cut into what was before it, the call and
what was after it (`fixedLine_eq_of_mem`).
-/

namespace GodotLint.Fixer

open Text Script Pattern

/-- What the fix makes of the part of a line that starts at a byte offset. -/
def fixedPart (line : List Char) (offset : Nat) (part : List Char) : List Char :=
  replaceMatches (replacement (Line.code line)) offset part
    ((openReads line).filter fun m => offset ≤ m.start && m.stop ≤ offset + width part)

/-! ## Splicing in parts -/

section splicing

variable {pre u v post : List Char} {ps qs : List (Placed Subscript)}

/-- Text before the first token stays. -/
theorem spliced_extend (h : Row Subscript.text (pre ++ u) post ps) :
    spliced pre (u ++ post) ps = u ++ spliced (pre ++ u) post ps := by
  generalize hpre : pre ++ u = start at h
  cases h with
  | nil => rfl
  | @cons _ gap rest after a ps _ =>
      subst hpre
      have hsplice := @spliced_cons ps pre (u ++ gap) rest after a
      rw [spliced_cons]
      simp only [List.append_assoc] at hsplice ⊢
      exact hsplice

/-- Two rows one after the other are spliced each by itself. -/
theorem spliced_append (h : Row Subscript.text pre u ps)
    (h' : Row Subscript.text (pre ++ u) v qs) :
    spliced pre (u ++ v) (ps ++ qs) = spliced pre u ps ++ spliced (pre ++ u) v qs := by
  induction h with
  | nil => exact spliced_extend h'
  | @cons pre gap rest after a ps _ ih =>
      have hsplice := ih (by simpa using h')
      have htext : gap ++ a.text ++ rest ++ v = gap ++ a.text ++ (rest ++ v) := List.append_assoc ..
      rw [List.cons_append, htext, spliced_cons, hsplice, spliced_cons]
      simp only [List.append_assoc]

/-- Only the open tokens count. -/
theorem spliced_filter_isOpen (h : Row Subscript.text pre post ps) :
    spliced pre post (ps.filter isOpen) = spliced pre post ps := by
  induction h with
  | nil => rfl
  | @cons pre gap rest after a ps later ih =>
      rw [List.filter_cons, spliced_cons, ← ih]
      split_ifs with hopen
      · rw [spliced_cons]
      · have hrow := (later.filter isOpen)
        rw [List.append_assoc pre] at hrow
        rw [spliced_extend hrow, rewritten]
        simp [hopen]

end splicing

/-- A token takes bytes. -/
theorem width_token_pos (x : Placed Subscript) :
    width x.before < width (x.before ++ x.token.text) := by
  have := width_pos (Subscript.text_ne_nil x.token)
  rw [width_append]
  omega

/-! ## The open reads of a line -/

/-- A token does not end in text without closing brackets. -/
theorem stop_le_of_not_mem {x : Placed Subscript} {u v : List Char}
    (h : x.before ++ x.token.text <+: u ++ v) (hv : ']' ∉ v) :
    width (x.before ++ x.token.text) ≤ width u := by
  obtain ⟨w, hw⟩ := h
  by_contra hlt
  obtain ⟨s, hs⟩ := prefix_of_width_le hw.symm (not_le.mp hlt).le
  have hne : s ≠ [] := by
    rintro rfl
    simp [← hs] at hlt
  have hlast : s.getLast? = some ']' := by
    have := congrArg List.getLast? hs
    rw [List.getLast?_append_of_ne_nil _ hne] at this
    rw [this]
    simp [Subscript.text, Subscript.tail, List.getLast?_append, List.getLast?_cons]
  rw [← hs, List.append_assoc, List.append_cancel_left_eq] at hw
  exact hv (hw ▸ List.mem_append_left w (List.mem_of_getLast? hlast))

/-- A token that lies in a part of a text. -/
def liesIn (offset : Nat) (part : List Char) (x : Placed Subscript) : Bool :=
  offset ≤ width x.before && width (x.before ++ x.token.text) ≤ offset + width part

/-- The tokens of a row lie in its text. -/
theorem filter_liesIn_eq_self {pre part : List Char} {ps : List (Placed Subscript)}
    (h : Row Subscript.text pre part ps) : ps.filter (liesIn (width pre) part) = ps := by
  refine List.filter_eq_self.mpr fun x hx => ?_
  have hbounds := h.width_bounds hx
  rw [width_append pre] at hbounds
  simpa [liesIn] using hbounds

/-- The tokens that the open reads of a line are. -/
structure OpenTokens (line : List Char) (qs : List (Placed Subscript)) : Prop where
  row : Row Subscript.text [] line qs
  isOpen : ∀ x ∈ qs, isOpen x = true
  fixed : fixedLine line = spliced [] line qs
  reads : openReads line = qs.map (Placed.toMatch Subscript.text Subscript.groups)
  calls : ∀ x ∈ qs, replacement (Line.code line) (x.toMatch Subscript.text Subscript.groups) =
    callFor x.token

/-- The open tokens of a line are those of the scan of its code. -/
theorem openTokens_filter {line : List Char} {ps : List (Placed Subscript)}
    (hps : Scan Subscript.text [] (Line.code line) ps) : OpenTokens line (ps.filter isOpen) := by
  obtain ⟨comment, hline, -, hcomment⟩ := Line.code_spec line
  have hrow := hps.row.filter isOpen
  refine ⟨?_, fun x hx => (List.mem_filter.mp hx).2, ?_, openReads_eq hps, fun x hx => ?_⟩
  · have := hrow.append_right comment
    rwa [← hline] at this
  · have := spliced_append hrow (.nil _ comment)
    rw [List.append_nil, ← hline, spliced_nil, spliced_filter_isOpen hps.row] at this
    rw [fixedLine, replaceAccesses_eq_spliced hline hcomment hps, this]
  · obtain ⟨hx, hopen⟩ := List.mem_filter.mp hx
    rw [replacement_toMatch hps hx, rewritten, hopen]
    rfl

/-- Every line has its open tokens. -/
theorem exists_openTokens (line : List Char) : ∃ qs, OpenTokens line qs := by
  obtain ⟨ps, hps⟩ := spells_bracketAccess.exists_scan (Line.code line)
  exact ⟨_, openTokens_filter hps⟩

namespace OpenTokens

variable {line pre part u v post : List Char} {qs : List (Placed Subscript)}

/-- The open tokens that lie in a part of a line stand in a row there. -/
theorem row_filter (h : OpenTokens line qs) (hline : line = pre ++ (part ++ post)) :
    Row Subscript.text pre part (qs.filter (liesIn (width pre) part)) := by
  subst hline
  refine (h.row.filter _).restrict Subscript.text_ne_nil fun x hx => ?_
  have := (List.mem_filter.mp hx).2
  simpa [liesIn] using this

/-- What becomes of a part of a line, told by the tokens in it. -/
theorem fixedPart_eq (h : OpenTokens line qs) (hline : line = pre ++ (part ++ post)) :
    fixedPart line (width pre) part = spliced pre part (qs.filter (liesIn (width pre) part)) := by
  have hcalls : ∀ x ∈ qs.filter (liesIn (width pre) part),
      replacement (Line.code line) (x.toMatch Subscript.text Subscript.groups) = rewritten x := by
    intro x hx
    obtain ⟨hx, -⟩ := List.mem_filter.mp hx
    rw [h.calls x hx, rewritten, h.isOpen x hx]
    rfl
  have hmatches := replaceMatches_eq_spliced (h.row_filter hline) hcalls []
  rw [List.append_nil, List.append_nil] at hmatches
  rw [fixedPart, h.reads, List.filter_map, ← hmatches]
  rfl

/-- The whole line is a part of it. -/
theorem fixedLine_eq (h : OpenTokens line qs) : fixedLine line = fixedPart line 0 line := by
  have hline : line = [] ++ (line ++ []) := by simp
  have hpart := h.fixedPart_eq hline
  rw [filter_liesIn_eq_self h.row, ← h.fixed, width_nil] at hpart
  exact hpart.symm

/-- A part in which no token lies stays. -/
theorem fixedPart_eq_self (h : OpenTokens line qs) (hline : line = pre ++ (part ++ post))
    (hnone : ∀ x ∈ qs, ¬ liesIn (width pre) part x = true) :
    fixedPart line (width pre) part = part := by
  rw [h.fixedPart_eq hline, List.filter_eq_nil_iff.mpr hnone, spliced_nil]

/-- A token becomes a call. -/
theorem fixedPart_text (h : OpenTokens line qs) {x : Placed Subscript} (hx : x ∈ qs)
    (hline : line = x.before ++ (x.token.text ++ post)) :
    fixedPart line (width x.before) x.token.text = callFor x.token := by
  have hmem : x ∈ qs.filter (liesIn (width x.before) x.token.text) :=
    List.mem_filter.mpr ⟨hx, by simp [liesIn]⟩
  obtain ⟨qs₁, qs₂, u, v, hqs, hu, hv, h₁, h₂⟩ := (h.row_filter hline).exists_cut_of_mem hmem
  -- no other token has room
  obtain rfl : u = [] := by simpa using hu
  obtain rfl : v = [] := by simpa using hv
  rw [h.fixedPart_eq hline, hqs, h₁.eq_nil Subscript.text_ne_nil, h₂.eq_nil Subscript.text_ne_nil]
  have hspliced := @spliced_cons [] x.before [] [] x.after x.token
  simp only [List.append_nil, List.nil_append, spliced_nil] at hspliced
  rw [List.nil_append, hspliced, rewritten, h.isOpen x hx]
  rfl

/-- **Cutting a part** where none of its tokens reaches across: both sides are fixed each by
itself. -/
theorem fixedPart_append (h : OpenTokens line qs) (hline : line = pre ++ (u ++ v ++ post))
    (hcut : ∀ x ∈ qs, liesIn (width pre) (u ++ v) x = true →
      width (x.before ++ x.token.text) ≤ width (pre ++ u) ∨ width (pre ++ u) ≤ width x.before) :
    fixedPart line (width pre) (u ++ v) =
      fixedPart line (width pre) u ++ fixedPart line (width (pre ++ u)) v := by
  obtain ⟨qs₁, qs₂, hqs, h₁, h₂⟩ := (h.row_filter hline).exists_cut fun x hx =>
    (hcut x (List.mem_filter.mp hx).1 (List.mem_filter.mp hx).2).symm
  have hleft : qs.filter (liesIn (width pre) u) = qs₁ := by
    have hwhole : qs.filter (liesIn (width pre) u) = (qs₁ ++ qs₂).filter (liesIn (width pre) u) := by
      rw [← hqs, List.filter_filter]
      refine List.filter_congr fun x _ => ?_
      simp only [liesIn, width_append, ← Bool.decide_and, decide_eq_decide]
      omega
    have hout : qs₂.filter (liesIn (width pre) u) = [] := by
      refine List.filter_eq_nil_iff.mpr fun x hx => ?_
      have hbounds := (h₂.width_bounds hx).1
      have := width_token_pos x
      rw [width_append] at hbounds
      simp only [liesIn, Bool.and_eq_true, decide_eq_true_eq]
      omega
    rw [hwhole, List.filter_append, filter_liesIn_eq_self h₁, hout, List.append_nil]
  have hright : qs.filter (liesIn (width (pre ++ u)) v) = qs₂ := by
    have hwhole : qs.filter (liesIn (width (pre ++ u)) v) =
        (qs₁ ++ qs₂).filter (liesIn (width (pre ++ u)) v) := by
      rw [← hqs, List.filter_filter]
      refine List.filter_congr fun x _ => ?_
      simp only [liesIn, width_append, ← Bool.decide_and, decide_eq_decide]
      omega
    have hout : qs₁.filter (liesIn (width (pre ++ u)) v) = [] := by
      refine List.filter_eq_nil_iff.mpr fun x hx => ?_
      have hbounds := (h₁.width_bounds hx).2
      have := width_token_pos x
      simp only [liesIn, Bool.and_eq_true, decide_eq_true_eq]
      omega
    rw [hwhole, List.filter_append, hout, filter_liesIn_eq_self h₂, List.nil_append]
  have hline₁ : line = pre ++ (u ++ (v ++ post)) := by simp [hline]
  have hline₂ : line = pre ++ u ++ (v ++ post) := by simp [hline]
  rw [h.fixedPart_eq hline, hqs, spliced_append h₁ h₂, h.fixedPart_eq hline₁, hleft,
    h.fixedPart_eq hline₂, hright]

end OpenTokens

/-! ## Cutting a line -/

section cutting

variable {line before part after : List Char} {qs : List (Placed Subscript)}

/-- A line can be cut on both sides of a part that no open token reaches into or out of. -/
theorem OpenTokens.fixedLine_eq_append (h : OpenTokens line qs)
    (hline : line = before ++ (part ++ after))
    (hbefore : ∀ x ∈ qs, width (x.before ++ x.token.text) ≤ width before ∨
      width before ≤ width x.before)
    (hafter : ∀ x ∈ qs, width (x.before ++ x.token.text) ≤ width (before ++ part) ∨
      width (before ++ part) ≤ width x.before) :
    fixedLine line = fixedPart line 0 before ++ fixedPart line (width before) part ++
      fixedPart line (width (before ++ part)) after := by
  have hline₁ : line = [] ++ (before ++ (part ++ after) ++ []) := by simpa using hline
  have hline₂ : line = before ++ (part ++ after ++ []) := by simpa using hline
  have hwhole := h.fixedPart_append hline₁ fun x hx _ => hbefore x hx
  have hrest := h.fixedPart_append hline₂ fun x hx _ => hafter x hx
  rw [List.nil_append, hrest, width_nil, ← hline] at hwhole
  rw [h.fixedLine_eq, hwhole, List.append_assoc]

/-- **A line around one of its open reads**: what was before it and what was after it are fixed each
by themselves, and the call comes between them. -/
theorem fixedLine_eq_of_mem {x : Placed Subscript} (h : OpenTokens line qs) (hx : x ∈ qs)
    (hline : line = x.before ++ (x.token.text ++ after)) :
    fixedLine line = fixedPart line 0 x.before ++ callFor x.token ++
      fixedPart line (width (x.before ++ x.token.text)) after := by
  have hpos := width_token_pos x
  rw [h.fixedLine_eq_append hline, h.fixedPart_text hx hline]
  · intro y hy
    rcases h.row.eq_or_apart hx hy with rfl | hle | hle
    · exact .inr le_rfl
    · exact .inr (hpos.le.trans (hle.trans le_rfl))
    · exact .inl hle
  · intro y hy
    rcases h.row.eq_or_apart hx hy with rfl | hle | hle
    · exact .inl le_rfl
    · exact .inr hle
    · exact .inl (hle.trans hpos.le)

/-- **A line around a part without open reads**: what was before it and what was after it are fixed
each by themselves, and the part stays. -/
theorem fixedLine_eq_of_forall (hline : line = before ++ (part ++ after))
    (hout : ∀ m ∈ openReads line, m.stop ≤ width before ∨ width (before ++ part) ≤ m.start) :
    fixedLine line = fixedPart line 0 before ++ part ++
      fixedPart line (width (before ++ part)) after := by
  obtain ⟨qs, h⟩ := exists_openTokens line
  have hout' : ∀ x ∈ qs, width (x.before ++ x.token.text) ≤ width before ∨
      width (before ++ part) ≤ width x.before := by
    intro x hx
    have hmem : x.toMatch Subscript.text Subscript.groups ∈ openReads line := by
      rw [h.reads]
      exact List.mem_map_of_mem hx
    exact hout _ hmem
  have hle : width before ≤ width (before ++ part) := by simp
  rw [h.fixedLine_eq_append hline, h.fixedPart_eq_self hline]
  · intro x hx hin
    have := width_token_pos x
    simp only [liesIn, Bool.and_eq_true, decide_eq_true_eq, ← width_append] at hin
    rcases hout' x hx with hx | hx <;> omega
  · exact fun x hx => (hout' x hx).imp_right hle.trans
  · exact fun x hx => (hout' x hx).imp_left fun hx => hx.trans hle

end cutting

end GodotLint.Fixer
