import GodotLint.Proofs.Pattern.Literals
import GodotLint.Script.Mention

/-!
# Where mentions come from

Classes, signals, input actions and members are read from the matches of seven shapes, so each mention
has a match that it comes from (`Reading`). For five of the shapes a match that starts inside a literal
is passed over. The two calls that take the name of a signal as a text are read wherever they stand, and
what they mention may come from within a literal (`ofLine_isRead`).

The place of a class or a signal is judged by where its name starts. That comes to the same as where the
match starts, as these matches have no quotation marks (`isInsideLiteral_group`).
-/

namespace GodotLint

open Text

namespace Mention

open Pattern

/-! ## Readings -/

/-- Something that a line mentions, with the match that it comes from. -/
structure Reading where
  kind : MentionKind
  shape : Pattern
  found : Match
  target : String

/-- What is read on a line, apart from the paths of resources. -/
def shapes : List (MentionKind × Pattern) :=
  [(.className, classUse), (.signalEmit, callWithName "emit_signal"),
    (.signalEmit, methodCall "emit"), (.signalConnect, callWithName "connect"),
    (.signalConnect, methodCall "connect"), (.inputAction, actionCall),
    (.autoloadMember, qualified)]

/-- What a match mentions. -/
def targets : MentionKind → Match → List String
  | .className, m => ((m.group? 1 <|> m.group? 2).map (·.text)).toList
  | .inputAction, m => (groupsOf quoted 1 (m.group 2)).take (actionCount (m.group 1))
  | .autoloadMember, m => [m.whole.text]
  | _, m => ((m.group? 1).map (·.text)).toList

/-- The calls that take the name of a signal as a text. -/
def namedCalls : List Pattern := [callWithName "emit_signal", callWithName "connect"]

/-- The readings of one shape. Calls by name are read inside of literals too. -/
def readingsOf (code : List Char) (kind : MentionKind) (shape : Pattern) : List Reading :=
  (shape.findAll code).flatMap fun m =>
    if shape ∉ namedCalls ∧ Line.isInsideLiteral code m.start then []
    else (targets kind m).map fun target => { kind, shape, found := m, target }

/-- The readings of a line of code. -/
def readings (code : List Char) : List Reading :=
  if isAllBlank code then [] else shapes.flatMap fun (kind, shape) => readingsOf code kind shape

variable {code : List Char} {m : Match}

/-- What a shape mentions, if it passes over the matches that start inside of literals. -/
theorem targets_readingsOf {kind : MentionKind} {shape : Pattern} (hshape : shape ∉ namedCalls) :
    (readingsOf code kind shape).map (fun r => (r.kind, r.target)) =
      ((shape.findAll code).flatMap fun m =>
        if Line.isInsideLiteral code m.start then [] else targets kind m).map (kind, ·) := by
  rw [readingsOf, List.map_flatMap, List.map_flatMap]
  refine List.flatMap_congr fun m _ => ?_
  simp only [hshape, not_false_eq_true, true_and]
  split_ifs
  · rfl
  · simp

/-- What a call by name mentions. -/
theorem targets_readingsOf_namedCall {kind : MentionKind} {shape : Pattern}
    (hshape : shape ∈ namedCalls) :
    (readingsOf code kind shape).map (fun r => (r.kind, r.target)) =
      ((shape.findAll code).flatMap (targets kind)).map (kind, ·) := by
  rw [readingsOf, List.map_flatMap, List.map_flatMap]
  refine List.flatMap_congr fun m _ => ?_
  simp [hshape]

/-- What the groups of quiet matches mention, outside of literals. -/
theorem toList_bind_group {p : Pattern} (hm : p.Occurs code m)
    (hquiet : p.avoids '"' = true ∧ p.avoids '\x27' = true) {g : Option Span}
    (hg : ∀ span, g = some span → ∃ i, m.group? i = some span) :
    (g.bind fun g => if Line.isInsideLiteral code g.start then none else some g.text).toList =
      if Line.isInsideLiteral code m.start then [] else (g.map (·.text)).toList := by
  cases g with
  | none => simp
  | some span =>
      obtain ⟨i, hi⟩ := hg span rfl
      rw [Option.bind_some, hm.isInsideLiteral_group hquiet hi]
      split_ifs <;> rfl

theorem classesIn_eq : classesIn code = (classUse.findAll code).flatMap fun m =>
    if Line.isInsideLiteral code m.start then [] else targets .className m := by
  rw [classesIn, List.filterMap_eq_flatMap_toList]
  refine List.flatMap_congr fun m hm => ?_
  refine toList_bind_group (occurs_of_mem_findAll hm) (by decide +kernel) fun span hspan => ?_
  cases hfirst : m.group? 1 with
  | none => exact ⟨2, by simpa [hfirst] using hspan⟩
  | some g => exact ⟨1, by simpa [hfirst] using hspan⟩

theorem unquotedGroupsOf_eq {p : Pattern} (hquiet : p.avoids '"' = true ∧ p.avoids '\x27' = true) :
    unquotedGroupsOf p 1 code = (p.findAll code).flatMap fun m =>
      if Line.isInsideLiteral code m.start then [] else ((m.group? 1).map (·.text)).toList := by
  rw [unquotedGroupsOf, List.filterMap_eq_flatMap_toList]
  exact List.flatMap_congr fun m hm =>
    toList_bind_group (occurs_of_mem_findAll hm) hquiet fun span hspan => ⟨1, hspan⟩

theorem membersIn_eq : membersIn code = (qualified.findAll code).flatMap fun m =>
    if Line.isInsideLiteral code m.start then [] else targets .autoloadMember m := by
  rw [membersIn, List.filterMap_eq_flatMap_toList]
  refine List.flatMap_congr fun m _ => ?_
  split_ifs <;> rfl

theorem groupsOf_eq (p : Pattern) (index : Nat) : groupsOf p index code =
    (p.findAll code).flatMap fun m => ((m.group? index).map (·.text)).toList :=
  List.filterMap_eq_flatMap_toList _ _

/-- The mentions of a line of code are its paths of resources and its readings. -/
theorem inCode_eq (h : isAllBlank code = false) :
    inCode code = (groupsOf resourceString 1 code).map (.resourcePath, ·) ++
      (readings code).map fun r => (r.kind, r.target) := by
  have hclass : classUse ∉ namedCalls := by decide +kernel
  have hemit : methodCall "emit" ∉ namedCalls := by decide +kernel
  have hconnect : methodCall "connect" ∉ namedCalls := by decide +kernel
  have haction : actionCall ∉ namedCalls := by decide +kernel
  have hmember : qualified ∉ namedCalls := by decide +kernel
  have hemitNamed : callWithName "emit_signal" ∈ namedCalls := List.mem_cons_self
  have hconnectNamed : callWithName "connect" ∈ namedCalls :=
    List.mem_cons_of_mem _ List.mem_cons_self
  rw [readings, h, if_neg Bool.false_ne_true]
  simp only [shapes, List.flatMap_cons, List.flatMap_nil, List.append_nil, List.map_append,
    targets_readingsOf hclass, targets_readingsOf hemit, targets_readingsOf hconnect,
    targets_readingsOf haction, targets_readingsOf hmember, targets_readingsOf_namedCall hemitNamed,
    targets_readingsOf_namedCall hconnectNamed]
  rw [inCode, classesIn_eq, unquotedGroupsOf_eq (by decide +kernel),
    unquotedGroupsOf_eq (by decide +kernel), membersIn_eq, actionsIn, groupsOf_eq (callWithName _),
    groupsOf_eq (callWithName _)]
  simp only [List.append_assoc]
  rfl

/-- A reading is one of a match of its shape, which starts outside of literals unless it is a call by
name. -/
theorem mem_readings {r : Reading} (h : r ∈ readings code) :
    ((r.kind, r.shape) ∈ shapes ∧ r.found ∈ r.shape.findAll code ∧ r.target ∈ targets r.kind r.found) ∧
      (r.shape ∉ namedCalls → Line.isInsideLiteral code r.found.start = false) := by
  rw [readings] at h
  split_ifs at h with hblank
  · cases h
  obtain ⟨⟨kind, shape⟩, hshape, h⟩ := List.mem_flatMap.mp h
  obtain ⟨m, hm, h⟩ := List.mem_flatMap.mp h
  split_ifs at h with hinside
  · cases h
  obtain ⟨target, htarget, rfl⟩ := List.mem_map.mp h
  refine ⟨⟨hshape, hm, htarget⟩, fun hcall => ?_⟩
  simpa [hcall] using hinside

/-- A call stands on a line of code. -/
theorem isAllBlank_eq_false_of_occurs {name : String} (h : (callWithName name).Occurs code m) :
    isAllBlank code = false := by
  obtain ⟨a, w, b, gs, rfl, hacc, -⟩ := h
  have hparen : '(' ∈ w := by
    obtain ⟨_, _, _, _, rfl, -, ⟨_, _, _, _, rfl, -, ⟨_, _, _, _, rfl, -, ⟨_, _, _, _, rfl, -,
      ⟨_, _, _, _, rfl, -, -, ⟨x, rfl, hx, -⟩⟩, -⟩, -⟩, -⟩, -⟩ := hacc
    simp [beq_iff_eq.mp hx]
  rw [isAllBlank, List.all_eq_false]
  exact ⟨'(', by simp [hparen], by decide⟩

/-- Every call by name is read, wherever it starts. -/
theorem exists_reading_of_namedCall {shape : Pattern} (hshape : shape ∈ namedCalls)
    (hm : m ∈ shape.findAll code) : ∃ r ∈ readings code, r.shape = shape ∧ r.found = m := by
  have hoccurs := occurs_of_mem_findAll hm
  obtain ⟨hblank, halways, kind, hkind, htargets⟩ : isAllBlank code = false ∧ 1 ∈ always shape ∧
      ∃ kind, (kind, shape) ∈ shapes ∧
        targets kind m = ((m.group? 1).map (·.text)).toList := by
    rw [namedCalls] at hshape
    simp only [List.mem_cons, List.not_mem_nil, or_false] at hshape
    rcases hshape with rfl | rfl
    · exact ⟨isAllBlank_eq_false_of_occurs hoccurs, by decide +kernel, .signalEmit,
        by simp [shapes], rfl⟩
    · exact ⟨isAllBlank_eq_false_of_occurs hoccurs, by decide +kernel, .signalConnect,
        by simp [shapes], rfl⟩
  obtain ⟨g, hg⟩ := Option.isSome_iff_exists.mp (hoccurs.group?_isSome halways)
  refine ⟨⟨kind, shape, m, g.text⟩, ?_, rfl, rfl⟩
  rw [readings, if_neg (by simp [hblank])]
  refine List.mem_flatMap.mpr ⟨(kind, shape), hkind, List.mem_flatMap.mpr ⟨m, hm, ?_⟩⟩
  rw [if_neg (fun h => h.1 hshape), htargets, hg]
  exact List.mem_map.mpr ⟨g.text, by simp, rfl⟩

/-! ## Lines -/

/-- What a line mentions, and the readings that it comes from. -/
structure IsRead (code : List Char) (mentioned : List (MentionKind × String))
    (rs : List Reading) : Prop where
  /-- The mentions are those of the readings, one for each. -/
  mentioned_eq : mentioned = rs.map fun r => (r.kind, r.target)
  /-- A reading is one of a match of its shape. -/
  found : ∀ r ∈ rs, (r.kind, r.shape) ∈ shapes ∧ r.found ∈ r.shape.findAll code ∧
    r.target ∈ targets r.kind r.found
  /-- Other shapes than calls by name are read outside of literals. -/
  outside : ∀ r ∈ rs, r.shape ∉ namedCalls → Line.isInsideLiteral code r.found.start = false
  /-- All that is mentioned stands outside of literals exactly if no call by name starts inside. -/
  all_outside_iff : (∀ r ∈ rs, Line.isInsideLiteral code r.found.start = false) ↔
    ∀ shape ∈ namedCalls, ∀ m ∈ shape.findAll code, Line.isInsideLiteral code m.start = false

/-- **What is mentioned stands outside of literals**, apart from the names of signals in calls by name,
and those too unless such a call starts inside a literal. -/
theorem ofLine_isRead (functions : List Function) (raw : List Char) (line : Nat) :
    IsRead (Line.code raw)
      (((ofLine functions raw line).filter (·.kind ≠ .resourcePath)).map fun x => (x.kind, x.target))
      (readings (Line.code raw)) := by
  refine ⟨?_, fun r hr => (mem_readings hr).1, fun r hr => (mem_readings hr).2, ?_, ?_⟩
  · cases hblank : isAllBlank (Line.code raw) with
    | true => simp [ofLine, readings, hblank]
    | false =>
        have hother : ∀ x ∈ shapes, x.1 ≠ .resourcePath := by decide +kernel
        have hkind : ∀ r ∈ readings (Line.code raw), r.kind ≠ .resourcePath :=
          fun r hr => hother _ (mem_readings hr).1.1
        have hmentions : ((ofLine functions raw line).filter (·.kind ≠ .resourcePath)).map
            (fun x => (x.kind, x.target)) =
              (inCode (Line.code raw)).filter (·.1 ≠ .resourcePath) := by
          simp only [ofLine, hblank, Bool.false_eq_true, if_false, List.filter_map, List.map_map]
          exact List.map_id _
        rw [hmentions, inCode_eq hblank, List.filter_append, List.filter_map, List.filter_map]
        simp only [Function.comp_def]
        rw [List.filter_eq_nil_iff.mpr (by simp), List.map_nil, List.nil_append,
          List.filter_eq_self.mpr (by simpa using hkind)]
  · intro h shape hshape m hm
    obtain ⟨r, hr, -, rfl⟩ := exists_reading_of_namedCall hshape hm
    exact h r hr
  · intro h r hr
    by_cases hshape : r.shape ∈ namedCalls
    · exact h _ hshape _ (mem_readings hr).1.2.1
    · exact (mem_readings hr).2 hshape

/-- A name in a text is read as if it were code. -/
theorem ofLine_quoted_call :
    let raw := "var s = \"emit_signal('hit')\"".toList
    (ofLine [] raw 1).map (fun x => (x.kind, x.target)) = [(.signalEmit, "hit")] ∧
      (readings (Line.code raw)).map (fun r => (r.kind, r.target)) = [(.signalEmit, "hit")] ∧
      ∀ r ∈ readings (Line.code raw), Line.isInsideLiteral (Line.code raw) r.found.start = true := by
  decide +kernel

end Mention

end GodotLint
