import GodotLint.Check.Hierarchy
import GodotLint.Proofs.Graph.Cutoff
import GodotLint.Proofs.Index.Imports
import GodotLint.Proofs.Project.Loaded
import Mathlib.Data.Finset.Card
import Mathlib.Logic.Relation

/-!
# Chains of bases

A script extends a file (`IsBaseOf`), and has one base at most, so whoever goes from base to base has
one way only. Following it without a bound (`Follows`) stops at a root, where a base is not known, or at
a file that was visited. Every step that goes on visits a script that was not visited before, so the bound
that the chain of a script comes with never cuts it off (`follows_follow`). The files that are visited form
a trail without repetitions (`IsTrail`); a base on it closes a loop, and a chain that ends otherwise meets
no file that is reached from itself (`Follows.not_transGen`). The index imports every base between two
scripts (`hasEdge_imports_of_isBaseOf`), so a loop of several scripts is a cycle of imports. All this is
put together in `ofScript_isResolved`.
-/

namespace GodotLint.Chain

/-! ## Bases -/

/-- The base of a script is a file: it is given by a path or by the name of a class, and is not called like
one of the roots. -/
inductive IsBaseOf (p : Project) (a b : String) : Prop
  | path {s : Script} {base : Extends} (mem : s ∈ p.scripts) (path_eq : s.path = a)
      (base_eq : s.facts.base = some base) (isPath : base.isPath = true)
      (resolves : Path.resolveString? a base.target = some b)
      (not_root : label p.index b ∉ Builtin.roots)
  | name {s : Script} {base : Extends} (mem : s ∈ p.scripts) (path_eq : s.path = a)
      (base_eq : s.facts.base = some base) (isPath : base.isPath = false)
      (declares : p.index.classFile? base.target = some b)
      (not_root : base.target ∉ Builtin.roots)

/-- What a file extends. -/
def baseOf (p : Project) (file : String) : Option Extends := (p.script? file).bind (·.facts.base)

/-- A chain is followed from the base of `file` on, however long it takes; `visited` lists the files on
the way. -/
inductive Follows (p : Project) :
    (visited : List String) → (file : String) → Option Extends → Chain → Prop
  /-- There is no base, ... -/
  | done {visited file} : Follows p visited file none nil
  /-- ... or the base is one of the roots, ... -/
  | root {visited file base name next} (hstep : step p.index file base = (name, next))
      (hroot : name ∈ Builtin.roots) : Follows p visited file (some base) (cons name nil)
  /-- ... or is not in the project, ... -/
  | lost {visited file base name} (hstep : step p.index file base = (name, none))
      (hroot : name ∉ Builtin.roots) : Follows p visited file (some base) (cons name nil)
  /-- ... or was visited, ... -/
  | back {visited file base name next} (hstep : step p.index file base = (name, some next))
      (hroot : name ∉ Builtin.roots) (hvisited : next ∈ visited) :
      Follows p visited file (some base) (cons name ⟨[], true⟩)
  /-- ... or is where the chain goes on. -/
  | on {visited file base name next chain} (hstep : step p.index file base = (name, some next))
      (hroot : name ∉ Builtin.roots) (hnew : next ∉ visited)
      (hrest : Follows p (next :: visited) next (baseOf p next) chain) :
      Follows p visited file (some base) (cons name chain)

variable {p : Project} {s : Script} {a b file : String} {visited : List String} {chain : Chain}

/-- One file is reached from another by going from base to base. -/
abbrev Reaches (p : Project) : String → String → Prop := Relation.ReflTransGen (IsBaseOf p)

/-- The script of a path is the one that has it. -/
theorem script?_eq_some (hpaths : (p.scripts.map (·.path)).Nodup) (hs : s ∈ p.scripts) :
    p.script? s.path = some s := by
  rw [Project.script?]
  cases hfind : p.scripts.reverse.find? (·.path == s.path) with
  | none => simpa using List.find?_eq_none.mp hfind s (List.mem_reverse.mpr hs)
  | some t =>
      have ht : t ∈ p.scripts := List.mem_reverse.mp (List.mem_of_find?_eq_some hfind)
      have hpath : t.path = s.path := by simpa using List.find?_some hfind
      rw [List.inj_on_of_nodup_map hpaths ht hs hpath]

/-- What extends something is a script. -/
theorem exists_mem_of_baseOf {base : Extends} (h : baseOf p file = some base) :
    ∃ s ∈ p.scripts, s.path = file ∧ s.facts.base = some base := by
  obtain ⟨s, hs, hbase⟩ := Option.bind_eq_some_iff.mp h
  have hfind : p.scripts.reverse.find? (·.path == file) = some s := hs
  exact ⟨s, List.mem_reverse.mp (List.mem_of_find?_eq_some hfind), by simpa using List.find?_some hfind,
    hbase⟩

theorem baseOf_eq_some_iff {base : Extends} (hpaths : (p.scripts.map (·.path)).Nodup) :
    baseOf p file = some base ↔ ∃ s ∈ p.scripts, s.path = file ∧ s.facts.base = some base := by
  refine ⟨exists_mem_of_baseOf, ?_⟩
  rintro ⟨s, hs, rfl, hbase⟩
  rw [baseOf, script?_eq_some hpaths hs]
  exact hbase

/-- A step that goes on leads from a file to its base. -/
theorem isBaseOf_iff (hpaths : (p.scripts.map (·.path)).Nodup) :
    IsBaseOf p a b ↔ ∃ base name, baseOf p a = some base ∧ step p.index a base = (name, some b) ∧
      name ∉ Builtin.roots := by
  constructor
  · rintro (⟨hs, hpath, hbase, hkind, hresolves, hroot⟩ | ⟨hs, hpath, hbase, hkind, hclass, hroot⟩)
    · refine ⟨_, label p.index b, (baseOf_eq_some_iff hpaths).mpr ⟨_, hs, hpath, hbase⟩, ?_, hroot⟩
      rw [step, if_pos hkind, hresolves]
    · refine ⟨_, _, (baseOf_eq_some_iff hpaths).mpr ⟨_, hs, hpath, hbase⟩, ?_, hroot⟩
      rw [step, if_neg (by simp [hkind]), hclass]
  · rintro ⟨base, name, hbase, hstep, hroot⟩
    obtain ⟨s, hs, hpath, hbase⟩ := (baseOf_eq_some_iff hpaths).mp hbase
    rw [step] at hstep
    split_ifs at hstep with hkind
    · cases hresolves : Path.resolveString? a base.target with
      | none => simp [hresolves] at hstep
      | some path =>
          simp only [hresolves, Prod.mk.injEq, Option.some.injEq] at hstep
          obtain ⟨rfl, rfl⟩ := hstep
          exact .path hs hpath hbase hkind hresolves hroot
    · obtain ⟨rfl, hclass⟩ := Prod.mk.inj hstep
      exact .name hs hpath hbase (by simpa using hkind) hclass hroot

/-- A file has one base at most. -/
theorem IsBaseOf.unique (hpaths : (p.scripts.map (·.path)).Nodup) {c : String} (h : IsBaseOf p a b)
    (h' : IsBaseOf p a c) : b = c := by
  obtain ⟨base, name, hbase, hstep, -⟩ := (isBaseOf_iff hpaths).mp h
  obtain ⟨base', name', hbase', hstep', -⟩ := (isBaseOf_iff hpaths).mp h'
  cases hbase.symm.trans hbase'
  cases hstep.symm.trans hstep'
  rfl

/-! ## Following bases -/

/-- A chain is followed to its end if the bound is large enough. -/
theorem Follows.exists_follow_eq {base : Option Extends} (h : Follows p visited file base chain) :
    ∃ n, ∀ k, follow p (k + n) visited file base = chain := by
  induction h with
  | done =>
      refine ⟨0, ?_⟩
      intro k
      cases k <;> rfl
  | root hstep hroot =>
      refine ⟨1, ?_⟩
      intro k
      simp [follow, hstep, hroot]
  | lost hstep hroot =>
      refine ⟨1, ?_⟩
      intro k
      simp [follow, hstep]
  | back hstep hroot hvisited =>
      refine ⟨1, ?_⟩
      intro k
      simp [follow, hstep, hroot, hvisited]
  | on hstep hroot hnew _ ih =>
      obtain ⟨n, hn⟩ := ih
      refine ⟨n + 1, ?_⟩
      intro k
      have hrest := hn k
      unfold baseOf at hrest
      rw [← Nat.add_assoc]
      simp [follow, hstep, hroot, hnew, ← hrest]

/-- There is one chain at most. -/
theorem Follows.unique {base : Option Extends} {chain' : Chain} (h : Follows p visited file base chain)
    (h' : Follows p visited file base chain') : chain = chain' := by
  obtain ⟨n, hn⟩ := h.exists_follow_eq
  obtain ⟨m, hm⟩ := h'.exists_follow_eq
  rw [← hn m, Nat.add_comm, hm n]

theorem cons_injective (link : String) : Function.Injective (cons link) := by
  rintro ⟨links, isCycle⟩ ⟨links', isCycle'⟩ h
  simpa [cons] using h

/-- The scripts that were not visited. -/
def unvisited (p : Project) (visited : List String) : Finset String :=
  (p.scripts.map (·.path)).toFinset \ visited.toFinset

/-- A script that is visited leaves one less to visit. -/
theorem card_unvisited_cons (hs : s ∈ p.scripts) (hnew : s.path ∉ visited) :
    (unvisited p (s.path :: visited)).card + 1 = (unvisited p visited).card := by
  have hmem : s.path ∈ unvisited p visited := by
    simpa [unvisited, hnew] using ⟨s, hs, rfl⟩
  rw [unvisited, List.toFinset_cons, Finset.sdiff_insert, ← unvisited, Finset.card_erase_add_one hmem]

/-- A chain is followed to its end if the bound is larger than the number of scripts that were not
visited. -/
theorem follows_follow {base : Option Extends} {count : Nat}
    (h : base = none ∨ (unvisited p visited).card < count) :
    Follows p visited file base (follow p count visited file base) := by
  induction count generalizing visited file base with
  | zero =>
      obtain rfl := h.resolve_right (Nat.not_lt_zero _)
      exact .done
  | succ count ih =>
      cases base with
      | none => exact .done
      | some base =>
          have hcard := h.resolve_left (Option.some_ne_none base)
          rw [follow]
          rcases hstep : step p.index file base with ⟨name, next⟩
          simp only [List.contains_iff_mem]
          split_ifs with hroot
          · exact .root hstep hroot
          cases next with
          | none => exact .lost hstep hroot
          | some next =>
              simp only
              split_ifs with hvisited
              · exact .back hstep hroot hvisited
              refine .on hstep hroot hvisited (ih ?_)
              cases hbase : baseOf p next with
              | none => exact .inl rfl
              | some base' =>
                  obtain ⟨s, hs, rfl, -⟩ := exists_mem_of_baseOf hbase
                  have hless := card_unvisited_cons hs hvisited
                  exact .inr (by omega)

/-- A chain has a link for each script that is still to visit, and one more at most. -/
theorem Follows.length_links_le {base : Option Extends} (h : Follows p visited file base chain) :
    chain.links.length ≤ (unvisited p visited).card + 1 := by
  induction h with
  | done => exact Nat.zero_le _
  | root | lost | back => exact Nat.le_add_left ..
  | @on visited file base name next chain hstep hroot hnew hrest ih =>
      change chain.links.length + 1 ≤ _
      cases hbase : baseOf p next with
      | none =>
          rw [hbase] at hrest
          cases hrest
          exact Nat.le_add_left ..
      | some base' =>
          obtain ⟨s, hs, rfl, -⟩ := exists_mem_of_baseOf hbase
          have hless := card_unvisited_cons hs hnew
          omega

/-! ## Chains that come back -/

/-- Files of which each extends the next one, and the last one the first, all on the way from a script. -/
structure IsLoop (p : Project) (start : String) (loop : List String) : Prop where
  ne_nil : loop ≠ []
  nodup : loop.Nodup
  closed : (loop ++ loop.head?.toList).IsChain (IsBaseOf p)
  reached : ∀ a ∈ loop, Reaches p start a

/-- The files that were visited on the way from a script to a file, the latest first. -/
structure IsTrail (p : Project) (start file : String) (visited : List String) : Prop where
  head : visited.head? = some file
  nodup : visited.Nodup
  linked : visited.reverse.IsChain (IsBaseOf p)
  reached : ∀ a ∈ visited, Reaches p start a

theorem IsTrail.self (p : Project) (start : String) : IsTrail p start start [start] where
  head := rfl
  nodup := List.nodup_singleton start
  linked := .singleton start
  reached := by
    intro a ha
    rw [List.mem_singleton.mp ha]

theorem IsTrail.mem {start : String} (h : IsTrail p start file visited) : file ∈ visited :=
  List.mem_of_head? h.head

theorem IsTrail.cons {start : String} (h : IsTrail p start file visited) (hstep : IsBaseOf p file b)
    (hnew : b ∉ visited) : IsTrail p start b (b :: visited) where
  head := rfl
  nodup := List.nodup_cons.mpr ⟨hnew, h.nodup⟩
  linked := by
    rw [List.reverse_cons, List.isChain_append]
    refine ⟨h.linked, .singleton b, ?_⟩
    intro x hx y hy
    rw [List.getLast?_reverse, h.head] at hx
    cases hx
    cases hy
    exact hstep
  reached := by
    intro a ha
    rcases List.mem_cons.mp ha with rfl | ha
    · exact (h.reached file h.mem).tail hstep
    · exact h.reached a ha

/-- A trail whose file extends one that was visited ends in a loop. -/
theorem IsTrail.exists_isLoop {start : String} (h : IsTrail p start file visited)
    (hstep : IsBaseOf p file b) (hvisited : b ∈ visited) : ∃ loop, IsLoop p start loop := by
  obtain ⟨u, v, rfl⟩ := List.append_of_mem hvisited
  have hreverse : (u ++ b :: v).reverse = v.reverse ++ (u ++ [b]).reverse := by simp
  have hsublist : (u ++ [b]).Sublist (u ++ b :: v) :=
    List.Sublist.append_left (List.singleton_sublist.mpr List.mem_cons_self) u
  refine ⟨(u ++ [b]).reverse, by simp, List.nodup_reverse.mpr (h.nodup.sublist hsublist), ?_, ?_⟩
  · rw [List.isChain_append]
    refine ⟨(hreverse ▸ h.linked).right_of_append, by simp, ?_⟩
    intro x hx y hy
    have hhead := h.head
    rw [List.getLast?_reverse] at hx
    obtain rfl : x = file := by cases u <;> simp_all
    obtain rfl : y = b := by simpa [eq_comm] using hy
    exact hstep
  · intro a ha
    exact h.reached a (hsublist.subset (List.mem_reverse.mp ha))

/-- A chain that comes back has a loop on the way. -/
theorem Follows.exists_isLoop (hpaths : (p.scripts.map (·.path)).Nodup) {base : Option Extends}
    {start : String} (h : Follows p visited file base chain) (hbase : baseOf p file = base)
    (htrail : IsTrail p start file visited) (hflag : chain.isCycle = true) :
    ∃ loop, IsLoop p start loop := by
  induction h with
  | done | root | lost => cases hflag
  | back hstep hroot hvisited =>
      exact htrail.exists_isLoop ((isBaseOf_iff hpaths).mpr ⟨_, _, hbase, hstep, hroot⟩) hvisited
  | on hstep hroot hnew _ ih =>
      exact ih rfl (htrail.cons ((isBaseOf_iff hpaths).mpr ⟨_, _, hbase, hstep, hroot⟩) hnew) hflag

/-- A file without a base ends every way. -/
theorem not_transGen_of_no_base (h : ∀ b, ¬ IsBaseOf p file b) (hb : Reaches p file b) :
    ¬ Relation.TransGen (IsBaseOf p) b b := by
  intro hloop
  obtain ⟨c, hc, -⟩ := Relation.TransGen.head'_iff.mp hloop
  rcases Relation.ReflTransGen.cases_head hb with rfl | ⟨d, hd, -⟩
  · exact h c hc
  · exact h d hd

/-- A chain that does not come back meets no file that is reached from itself. -/
theorem Follows.not_transGen (hpaths : (p.scripts.map (·.path)).Nodup) {base : Option Extends}
    (h : Follows p visited file base chain) (hbase : baseOf p file = base)
    (hflag : chain.isCycle = false) (hb : Reaches p file b) : ¬ Relation.TransGen (IsBaseOf p) b b := by
  induction h generalizing b with
  | done =>
      refine not_transGen_of_no_base (fun c hc => ?_) hb
      obtain ⟨base, -, hsome, -⟩ := (isBaseOf_iff hpaths).mp hc
      cases hbase.symm.trans hsome
  | root hstep hroot =>
      refine not_transGen_of_no_base (fun c hc => ?_) hb
      obtain ⟨base, name, hsome, hstep', hroot'⟩ := (isBaseOf_iff hpaths).mp hc
      cases hbase.symm.trans hsome
      cases hstep.symm.trans hstep'
      exact hroot' hroot
  | lost hstep hroot =>
      refine not_transGen_of_no_base (fun c hc => ?_) hb
      obtain ⟨base, name, hsome, hstep', -⟩ := (isBaseOf_iff hpaths).mp hc
      cases hbase.symm.trans hsome
      cases hstep.symm.trans hstep'
  | back => cases hflag
  | @on visited file base name next chain hstep hroot hnew _ ih =>
      have hnext : IsBaseOf p file next := (isBaseOf_iff hpaths).mpr ⟨_, _, hbase, hstep, hroot⟩
      rcases Relation.ReflTransGen.cases_head hb with rfl | ⟨c, hc, hcb⟩
      · -- a way from the file back to it is one from its base back to that
        intro hloop
        obtain ⟨c, hc, hback⟩ := Relation.TransGen.head'_iff.mp hloop
        obtain rfl := hnext.unique hpaths hc
        exact ih rfl hflag .refl (Relation.TransGen.tail' hback hnext)
      · obtain rfl := hnext.unique hpaths hc
        exact ih rfl hflag hcb

/-! ## Loops and imports -/

open GodotLint.Graph (exists_rel_of_isChain transGen_of_isChain)
open Index (hasEdge_imports_iff loadTarget)

/-- A script loads the base that it gives by a path. -/
theorem exists_mem_loads_of_base (hp : p.IsLoaded) (hs : s ∈ p.scripts) {base : Extends}
    (hbase : s.facts.base = some base) (hkind : base.isPath = true) :
    ∃ load ∈ s.facts.loads, load.target = base.target := by
  refine ⟨⟨.extends, base.target, base.line, .classBody, none, none⟩, ?_, rfl⟩
  have hfacts := Project.facts_of_mem_scripts hp hs
  have hloads : s.facts.loads = Script.loads s.source.lines s.facts.functions s.facts.base := by
    rw [hfacts]
    rfl
  rw [hloads, Script.loads, sortByNat, mem_stableSort, List.mem_append]
  refine .inl (Option.mem_toList.mpr ?_)
  rw [hbase, Option.bind_some, Script.loadOfBase, if_pos hkind]

/-- A script imports the script that it extends. -/
theorem hasEdge_imports_of_isBaseOf (hp : p.IsLoaded) (h : IsBaseOf p a b)
    (hb : b ∈ p.scripts.map (·.path)) (hne : a ≠ b) : p.index.imports.hasEdge a b = true := by
  have hindex := Project.index_eq_build hp
  rcases h with ⟨hs, rfl, hbase, hkind, hresolves, -⟩ | ⟨hs, rfl, hbase, hkind, hdeclares, -⟩
  · obtain ⟨load, hload, htarget⟩ := exists_mem_loads_of_base hp hs hbase hkind
    rw [hindex]
    refine hasEdge_imports_iff.mpr ⟨_, hs, rfl, hne.symm, .inl ⟨load, hload, ?_⟩⟩
    simp only [loadTarget, htarget, hresolves, List.contains_iff_mem.mpr hb, if_true]
  · rw [hindex, Index.classFile?, Option.map_eq_some_iff] at hdeclares
    obtain ⟨entry, hentry, hfile⟩ := hdeclares
    rw [hindex]
    exact hasEdge_imports_iff.mpr ⟨_, hs, rfl, hne.symm, .inr ⟨_, entry, hbase, hkind, hentry, hfile⟩⟩

/-- Only scripts have a base. -/
theorem IsBaseOf.mem_paths (h : IsBaseOf p a b) : a ∈ p.scripts.map (·.path) := by
  rcases h with ⟨hs, rfl, -⟩ | ⟨hs, rfl, -⟩ <;> exact List.mem_map_of_mem hs

/-- A loop can be read from a file on. -/
theorem IsLoop.exists_eq_cons {start : String} {loop : List String} (h : IsLoop p start loop) :
    ∃ a l, loop = a :: l ∧ (a :: l ++ [a]).IsChain (IsBaseOf p) := by
  obtain ⟨a, l, rfl⟩ := List.exists_cons_of_ne_nil h.ne_nil
  exact ⟨a, l, rfl, h.closed⟩

/-- The files of a loop are scripts. -/
theorem IsLoop.mem_paths {start : String} {loop : List String} (h : IsLoop p start loop) (ha : a ∈ loop) :
    a ∈ p.scripts.map (·.path) := by
  obtain ⟨x, l, rfl, hclosed⟩ := h.exists_eq_cons
  obtain ⟨b, hstep⟩ := exists_rel_of_isChain hclosed ha
  exact hstep.mem_paths

/-- A loop in which no script extends itself is a cycle of imports. -/
theorem IsLoop.isCycle (hp : p.IsLoaded) {start : String} {loop : List String} (h : IsLoop p start loop)
    (hself : ∀ a, Reaches p start a → ¬ IsBaseOf p a a) : p.index.imports.IsCycle loop where
  nodup := h.nodup
  chain := by
    have hmem : ∀ a ∈ loop ++ loop.head?.toList, a ∈ loop := by
      intro a ha
      rcases List.mem_append.mp ha with ha | ha
      · exact ha
      · exact List.mem_of_head? (Option.mem_toList.mp ha)
    refine h.closed.imp_of_mem_imp ?_
    intro a b ha hb hstep
    refine hasEdge_imports_of_isBaseOf hp hstep (h.mem_paths (hmem b hb)) ?_
    rintro rfl
    exact hself a (h.reached a (hmem a ha)) hstep

/-! ## The chain of a script -/

/-- What the chain of a script tells. -/
structure IsResolved (p : Project) (s : Script) (chain : Chain) : Prop where
  /-- The chain is the one that is followed without a bound. -/
  follows : ∀ rest, Follows p [s.path] s.path s.facts.base rest ↔ chain = cons (label p.index s.path) rest
  length_le : chain.links.length ≤ p.scripts.length + 1
  /-- The chain comes back exactly if a file on the way is reached from itself. -/
  comes_back : chain.isCycle = true ↔ ∃ a, Reaches p s.path a ∧ Relation.TransGen (IsBaseOf p) a a
  /-- A chain that comes back meets a script that extends itself, or scripts that import each other in a
  cycle. -/
  imports : chain.isCycle = true → (∃ a, Reaches p s.path a ∧ IsBaseOf p a a) ∨
    ∃ loop, IsLoop p s.path loop ∧ p.index.imports.IsCycle loop

/-- **Chains of bases end, and come back exactly around a loop.** -/
theorem ofScript_isResolved (hp : p.IsLoaded) (hpaths : (p.scripts.map (·.path)).Nodup)
    (hs : s ∈ p.scripts) : IsResolved p s (ofScript p s) := by
  have hbase : baseOf p s.path = s.facts.base := by
    rw [baseOf, script?_eq_some hpaths hs]
    rfl
  have hcard : (unvisited p [s.path]).card + 1 ≤ p.scripts.length := by
    have hless := card_unvisited_cons hs (List.not_mem_nil (a := s.path))
    have hle := List.toFinset_card_le (p.scripts.map (·.path))
    rw [hless]
    simpa [unvisited] using hle
  have hfollows : Follows p [s.path] s.path s.facts.base _ :=
    follows_follow (.inr (by omega : (unvisited p [s.path]).card < p.scripts.length + 2))
  constructor
  · intro rest
    constructor
    · intro hrest
      rw [hrest.unique hfollows]
      rfl
    · intro hrest
      rwa [← cons_injective _ hrest]
  · have hlength := hfollows.length_links_le
    change (follow p (p.scripts.length + 2) [s.path] s.path s.facts.base).links.length + 1 ≤ _
    omega
  · constructor
    · intro hflag
      obtain ⟨loop, hloop⟩ := hfollows.exists_isLoop hpaths hbase (.self p s.path) hflag
      obtain ⟨a, l, rfl, hclosed⟩ := hloop.exists_eq_cons
      exact ⟨a, hloop.reached a List.mem_cons_self, transGen_of_isChain hclosed⟩
    · rintro ⟨a, hreached, hback⟩
      by_contra hflag
      exact hfollows.not_transGen hpaths hbase (Bool.not_eq_true _ ▸ hflag) hreached hback
  · intro hflag
    by_cases hself : ∃ a, Reaches p s.path a ∧ IsBaseOf p a a
    · exact .inl hself
    · obtain ⟨loop, hloop⟩ := hfollows.exists_isLoop hpaths hbase (.self p s.path) hflag
      refine .inr ⟨loop, hloop, hloop.isCycle hp ?_⟩
      intro a hreached hstep
      exact hself ⟨a, hreached, hstep⟩

/-- Three scripts, of which the second and the third extend each other, one by a class and one by a path. -/
def entangled : Project := .ofFiles {}
  [("a.gd", "extends B\n"), ("b.gd", "class_name B\nextends \"c.gd\"\n"), ("c.gd", "extends B\n")]

theorem ofScript_isResolved_entangled :
    (entangled.scripts.map (·.path)).Nodup ∧ ∃ s ∈ entangled.scripts, s.path = "a.gd" ∧
      IsResolved entangled s (ofScript entangled s) ∧
      ofScript entangled s = ⟨["a.gd", "B", "c.gd", "B"], true⟩ := by
  have hpaths : (entangled.scripts.map (·.path)).Nodup := by decide +kernel
  have hscript : ∃ s ∈ entangled.scripts, s.path = "a.gd" ∧
      ofScript entangled s = ⟨["a.gd", "B", "c.gd", "B"], true⟩ := by
    decide +kernel
  obtain ⟨s, hs, hpath, hchain⟩ := hscript
  exact ⟨hpaths, s, hs, hpath, ofScript_isResolved (.ofFiles ..) hpaths hs, hchain⟩

end GodotLint.Chain
