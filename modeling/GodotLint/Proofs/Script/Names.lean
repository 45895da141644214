import GodotLint.Proofs.Ordering
import GodotLint.Proofs.Pattern.Parts
import GodotLint.Proofs.Pattern.Scan
import GodotLint.Script.Facts

/-!
# The names that a script declares

Every declared name but that of an enum value is made of ASCII letters, digits and underscores
(`isIdentChar_of_mem_declarations`): it is what a group of a pattern holds, and the group is around
an identifier. The values of an enum are cut out of its body, and may have letters of every script.
-/

namespace GodotLint

open Text

namespace Pattern

/-! ## Groups around identifiers -/

/-- Each group of the given number is around an identifier. -/
def namesGroup (index : Nat) : Pattern → Bool
  | .seq p q => p.namesGroup index && q.namesGroup index
  | .alt p q => p.namesGroup index && q.namesGroup index
  | .opt p => p.namesGroup index
  | .star p => p.namesGroup index
  | .plus p => p.namesGroup index
  | .lazyPlus p => p.namesGroup index
  | .group i p => (i != index || p = ident) && p.namesGroup index
  | _ => true

/-- The groups of the given number hold characters of identifiers only. -/
def HoldsNames (index : Nat) (R : Acceptance) : Prop :=
  ∀ pre w post gs, R pre w post gs → ∀ span, (index, span) ∈ gs →
    ∀ c ∈ span.chars, isIdentChar c = true

theorem HoldsNames.followed {index : Nat} {R S : Acceptance} (hR : HoldsNames index R)
    (hS : HoldsNames index S) : HoldsNames index (Followed R S) := by
  rintro pre w post gs ⟨u, v, gu, gv, rfl, rfl, hu, hv⟩ span hspan
  rcases List.mem_append.mp hspan with hspan | hspan
  · exact hS _ _ _ _ hv span hspan
  · exact hR _ _ _ _ hu span hspan

theorem HoldsNames.repeats {index : Nat} {R : Acceptance} (hR : HoldsNames index R) :
    HoldsNames index (Repeats R) := by
  intro pre w post gs h span hspan
  induction h with
  | none => cases hspan
  | more first _ _ ih =>
      rcases List.mem_append.mp hspan with hspan | hspan
      · exact ih hspan
      · exact hR _ _ _ _ first span hspan

theorem holdsNames_single (index : Nat) (P : Char → Bool) : HoldsNames index (Single P) := by
  rintro pre w post gs ⟨x, rfl, -, rfl⟩ span hspan
  cases hspan

theorem holdsNames_between (index : Nat) (P : List Char → List Char → Prop) :
    HoldsNames index (Between P) := by
  rintro pre w post gs ⟨rfl, rfl, -⟩ span hspan
  cases hspan

theorem holdsNames_of_namesGroup {index : Nat} {p : Pattern} (h : p.namesGroup index = true) :
    HoldsNames index p.Accepts := by
  induction p with
  | empty => exact holdsNames_between index _
  | char c => exact holdsNames_single index _
  | any => exact holdsNames_single index _
  | oneOf items => exact holdsNames_single index _
  | noneOf items => exact holdsNames_single index _
  | atStart => exact holdsNames_between index _
  | atEnd => exact holdsNames_between index _
  | wordEdge => exact holdsNames_between index _
  | seq p q ihp ihq =>
      obtain ⟨hp, hq⟩ := Bool.and_eq_true_iff.mp h
      exact (ihp hp).followed (ihq hq)
  | alt p q ihp ihq =>
      obtain ⟨hp, hq⟩ := Bool.and_eq_true_iff.mp h
      exact fun _ _ _ _ hacc => hacc.elim (ihp hp _ _ _ _) (ihq hq _ _ _ _)
  | opt p ihp =>
      rintro pre w post gs (hacc | ⟨rfl, rfl⟩) span hspan
      · exact ihp h _ _ _ _ hacc span hspan
      · cases hspan
  | star p ihp => exact (ihp h).repeats
  | plus p ihp => exact (ihp h).followed (ihp h).repeats
  | lazyPlus p ihp => exact (ihp h).followed (ihp h).repeats
  | group i p ihp =>
      obtain ⟨hname, hp⟩ := Bool.and_eq_true_iff.mp h
      rintro pre w post gs ⟨g, hacc, rfl⟩ span hspan
      rcases List.mem_cons.mp hspan with heq | hspan
      · obtain ⟨rfl, rfl⟩ := Prod.mk.inj heq
        have hident : p = ident := by simpa using hname
        rw [hident, accepts_ident] at hacc
        exact isIdentChar_of_isIdent hacc.1
      · exact ihp hp _ _ _ _ hacc span hspan

/-- What a group around an identifier holds after a search. -/
theorem isIdentChar_of_group? {p : Pattern} {s : List Char} {m : Match} (h : p.find? s = some m)
    {index : Nat} (hp : p.namesGroup index = true) {span : Span}
    (hspan : m.group? index = some span) :
    ∀ c ∈ span.chars, isIdentChar c = true := by
  obtain ⟨pre, w, post, gs, -, hacc, rfl⟩ := find?_eq_some h
  obtain ⟨l₁, l₂, hgs, -⟩ := List.lookup_eq_some_iff.mp hspan
  have hmem : (index, span) ∈ gs := by
    rw [Match.of_groups] at hgs
    simp [hgs]
  exact holdsNames_of_namesGroup hp _ _ _ _ hacc span hmem

/-- A group that took no part in a match holds nothing. -/
theorem isIdentChar_of_mem_group {p : Pattern} {s : List Char} {m : Match} (h : p.find? s = some m)
    {index : Nat} (hp : p.namesGroup index = true) : ∀ c ∈ m.group index, isIdentChar c = true := by
  intro c hc
  rw [Match.group] at hc
  cases hspan : m.group? index with
  | none =>
      rw [hspan] at hc
      cases hc
  | some span =>
      rw [hspan] at hc
      exact isIdentChar_of_group? h hp hspan c hc

end Pattern

/-! ## Declarations -/

/-- The name is made of characters of identifiers, unless an enum body gives it. -/
def Declaration.HasIdentName (d : Declaration) : Prop :=
  d.kind ≠ .enumValue → ∀ c ∈ d.name.toList, isIdentChar c = true

open Pattern

theorem Function.isIdentChar_of_mem_ofLines {lines : List (List Char)} {f : Function}
    (hf : f ∈ ofLines lines) : ∀ c ∈ f.name.toList, isIdentChar c = true := by
  have hheader : ∀ {above number line below}, ofHeader? above number line below = some f →
      ∀ c ∈ f.name.toList, isIdentChar c = true := by
    intro above number line below h
    obtain ⟨m, hm, rfl⟩ := Option.map_eq_some_iff.mp h
    rw [String.toList_ofList]
    exact isIdentChar_of_mem_group hm (by decide +kernel)
  rw [ofLines] at hf
  generalize ([] : List (List Char)) = above, 1 = number at hf
  induction lines generalizing above number with
  | nil => cases hf
  | cons line below ih =>
      rw [scan, List.mem_append, Option.mem_toList] at hf
      rcases hf with hf | hf
      · exact hheader hf
      · exact ih _ _ hf

namespace Script

theorem hasIdentName_setClassBase {base : String} {ds : List Declaration}
    (h : ∀ d ∈ ds, d.HasIdentName) : ∀ d ∈ setClassBase base ds, d.HasIdentName := by
  induction ds with
  | nil => exact h
  | cons d ds ih =>
      rw [List.forall_mem_cons] at h
      rw [setClassBase]
      split_ifs with hclass
      · exact List.forall_mem_cons.mpr ⟨h.1, h.2⟩
      · exact List.forall_mem_cons.mpr ⟨h.1, ih h.2⟩

theorem hasIdentName_enumValueDeclarations (s : List Char) (line indent : Nat) :
    ∀ d ∈ enumValueDeclarations s line indent, d.HasIdentName := by
  intro d hd
  obtain ⟨name, -, rfl⟩ := List.mem_map.mp hd
  exact fun hkind => absurd rfl hkind

/-- A declaration that is named by a group around an identifier. -/
theorem hasIdentName_of_find? {p : Pattern} {s : List Char} {m : Match} (h : p.find? s = some m)
    (index : Nat) (hp : p.namesGroup index = true) {d : Declaration}
    (hd : d.name = str (m.group index)) : d.HasIdentName := by
  intro _
  rw [hd, String.toList_ofList]
  exact isIdentChar_of_mem_group h hp

theorem hasIdentName_add {s : Declared} {ds : List Declaration}
    (hs : ∀ d ∈ s.declarations, d.HasIdentName) (hds : ∀ d ∈ ds, d.HasIdentName) :
    ∀ d ∈ (s.add ds).declarations, d.HasIdentName :=
  List.forall_mem_append.mpr ⟨hs, hds⟩

theorem hasIdentName_readCode {s : Declared} (hs : ∀ d ∈ s.declarations, d.HasIdentName)
    (function : Option String) (code : List Char) (line : Nat) :
    ∀ d ∈ (s.readCode function code line).declarations, d.HasIdentName := by
  have hone : ∀ {p : Pattern} {m : Match} {d : Declaration} (index : Nat), p.find? code = some m →
      p.namesGroup index = true → d.name = str (m.group index) →
      ∀ d' ∈ (s.add [d]).declarations, d'.HasIdentName := fun index hm hp hd =>
    hasIdentName_add hs (List.forall_mem_singleton.mpr (hasIdentName_of_find? hm index hp hd))
  unfold Declared.readCode
  split
  · exact hs
  split
  · rename_i m hm
    exact hone 1 hm (by decide +kernel) rfl
  split
  · exact hasIdentName_setClassBase hs
  split
  · rename_i m hm
    exact hone 2 hm (by decide +kernel) rfl
  split
  · rename_i m hm
    exact hone 2 hm (by decide +kernel) rfl
  split
  · rename_i m hm
    exact hone 4 hm (by decide +kernel) rfl
  split
  · rename_i m hm
    exact hone 2 hm (by decide +kernel) rfl
  split
  · rename_i m hm
    refine hasIdentName_add hs (List.forall_mem_append.mpr ⟨fun d hd => ?_, ?_⟩)
    rotate_left
    · exact hasIdentName_enumValueDeclarations _ _ _
    obtain ⟨name, hname, rfl⟩ := List.mem_map.mp hd
    intro _ c hc
    rw [Span.text, String.toList_ofList] at hc
    have hgroup : enumHeader.namesGroup 2 = true := by decide +kernel
    exact isIdentChar_of_group? hm hgroup (Option.mem_toList.mp hname) c hc
  · exact hs

theorem hasIdentName_readLine {s : Declared} (hs : ∀ d ∈ s.declarations, d.HasIdentName)
    (functions : List Function) (numbered : List Char × Nat) :
    ∀ d ∈ (s.readLine functions numbered).declarations, d.HasIdentName := by
  obtain ⟨raw, line⟩ := numbered
  rw [Declared.readLine]
  cases s.openEnum with
  | some indent =>
      exact List.forall_mem_append.mpr ⟨hs, hasIdentName_enumValueDeclarations _ line indent⟩
  | none =>
      dsimp only
      split_ifs with hblank
      · exact hs
      · exact hasIdentName_readCode hs _ _ _

theorem hasIdentName_foldl_readLine (functions : List Function)
    (numbered : List (List Char × Nat)) {s : Declared}
    (hs : ∀ d ∈ s.declarations, d.HasIdentName) :
    ∀ d ∈ (numbered.foldl (Declared.readLine functions) s).declarations, d.HasIdentName := by
  induction numbered generalizing s with
  | nil => exact hs
  | cons line numbered ih => exact ih (hasIdentName_readLine hs functions line)

end Script

/-- Every name that a script declares is made of characters of identifiers, but those of enum
values. -/
theorem Facts.hasIdentName_of_mem_declarations {lines : List (List Char)} {d : Declaration}
    (hd : d ∈ (ofLines lines).declarations) : d.HasIdentName := by
  have hfunctions : ∀ d ∈ (Function.ofLines lines).map Script.functionDeclaration,
      d.HasIdentName := by
    intro d hd
    obtain ⟨f, hf, rfl⟩ := List.mem_map.mp hd
    exact fun _ => Function.isIdentChar_of_mem_ofLines hf
  exact Script.hasIdentName_foldl_readLine _ _ hfunctions d (mem_stableSort.mp hd)

/-! ## Classes -/

namespace Script

/-- The class that a line gives to a script, if it gives one, is named by an identifier. -/
theorem className_readCode (s : Declared) (function : Option String) (code : List Char) (line : Nat) :
    (s.readCode function code line).className = s.className ∨
      ∃ name, (s.readCode function code line).className = some (name, line) ∧
        ∀ c ∈ name.toList, isIdentChar c = true := by
  unfold Declared.readCode
  split
  · exact .inl rfl
  split
  · rename_i m hm
    refine .inr ⟨_, rfl, ?_⟩
    rw [String.toList_ofList]
    exact isIdentChar_of_mem_group hm (by decide +kernel)
  repeat' (first | exact .inl rfl | split)

theorem className_readLine (functions : List Function) (s : Declared)
    (numbered : List Char × Nat) :
    (s.readLine functions numbered).className = s.className ∨
      ∃ name, (s.readLine functions numbered).className = some (name, numbered.2) ∧
        ∀ c ∈ name.toList, isIdentChar c = true := by
  obtain ⟨raw, line⟩ := numbered
  rw [Declared.readLine]
  cases s.openEnum with
  | some indent => exact .inl rfl
  | none =>
      dsimp only
      split_ifs
      · exact .inl rfl
      · exact className_readCode ..

end Script

/-- The class of a script is named by characters of identifiers. -/
theorem Facts.isIdentChar_of_className {lines : List (List Char)} {name : String} {line : Nat}
    (h : (ofLines lines).className = some (name, line)) : ∀ c ∈ name.toList, isIdentChar c = true := by
  have hfold : ∀ (numbered : List (List Char × Nat)) (s : Script.Declared),
      (∀ name line, s.className = some (name, line) → ∀ c ∈ name.toList, isIdentChar c = true) →
      ∀ name line, (numbered.foldl (Script.Declared.readLine (Function.ofLines lines)) s).className =
        some (name, line) → ∀ c ∈ name.toList, isIdentChar c = true := by
    intro numbered
    induction numbered with
    | nil => exact fun s hs => hs
    | cons first numbered ih =>
        intro s hs
        refine ih _ fun name line hname => ?_
        rcases Script.className_readLine (Function.ofLines lines) s first with heq | ⟨name', heq, hident⟩
        · exact hs name line (heq ▸ hname)
        · rw [heq, Option.some.injEq, Prod.mk.injEq] at hname
          exact hname.1 ▸ hident
  exact hfold _ _ (by simp) name line h

end GodotLint
