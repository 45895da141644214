import GodotLint.Graph.Basic
import GodotLint.Proofs.Ordering
import GodotLint.Proofs.SortedMap

/-!
# Graphs in order and their cycles

A graph is built by adding nodes and dependencies in any order (`Graph.ofSteps`). However it was
built, its nodes and the nodes that each of them depends on are in strictly rising order
(`isOrdered_ofSteps`), a node that depends on something is one of its nodes, and one node depends on
another exactly when some step recorded it (`hasEdge_ofSteps_iff`).
-/

namespace GodotLint.Graph

variable {g : Graph} {a b x name : String}

/-! ## Building -/

/-- One step of building a graph. -/
inductive Step where
  | node (name : String)
  | edge (e : Edge)

/-- Takes a step. -/
def take (g : Graph) : Step → Graph
  | .node name => g.addNode name
  | .edge e => g.addEdge e

/-- The graph that steps build from the one without nodes. -/
def ofSteps (steps : List Step) : Graph := steps.foldl take empty

/-- A graph whose nodes, and what each of them depends on, are in rising order. -/
structure IsOrdered (g : Graph) : Prop where
  nodes : g.nodes.Pairwise (· < ·)
  targets : ∀ entry ∈ g.adjacency.entries, entry.2.Pairwise (· < ·)

/-! ## Rising order -/

theorem mem_insertName {names : List String} : x ∈ insertName name names ↔ x = name ∨ x ∈ names := by
  induction names with
  | nil => simp [insertName]
  | cons y rest ih =>
      unfold insertName
      split_ifs with hlt heq
      · simp
      · subst heq
        simp
      · simp only [List.mem_cons, ih]
        tauto

/-- A name is put at its place. -/
theorem pairwise_insertName {names : List String} (h : names.Pairwise (· < ·)) :
    (insertName name names).Pairwise (· < ·) := by
  induction names with
  | nil => simp [insertName]
  | cons y rest ih =>
      have hrest := List.pairwise_cons.mp h
      unfold insertName
      split_ifs with hlt heq
      · refine List.pairwise_cons.mpr ⟨?_, h⟩
        intro x hx
        rcases List.mem_cons.mp hx with rfl | hx
        · exact hlt
        · exact hlt.trans (hrest.1 x hx)
      · exact h
      · refine List.pairwise_cons.mpr ⟨?_, ih hrest.2⟩
        intro x hx
        rcases mem_insertName.mp hx with rfl | hx
        · exact lt_of_le_of_ne (not_lt.mp hlt) (Ne.symm heq)
        · exact hrest.1 x hx

theorem isOrdered_empty : empty.IsOrdered := by
  constructor
  · exact List.Pairwise.nil
  · intro entry hentry
    cases hentry

theorem IsOrdered.addNode (h : g.IsOrdered) : (g.addNode name).IsOrdered := by
  constructor
  · exact SortedMap.pairwise_keys_alter h.nodes
  · exact SortedMap.forall_alter List.Pairwise.nil (fun v hv => hv) h.targets

theorem IsOrdered.addEdge {e : Edge} (h : g.IsOrdered) : (g.addEdge e).IsOrdered := by
  have htarget : (g.addNode e.target).IsOrdered := h.addNode
  constructor
  · exact SortedMap.pairwise_keys_alter htarget.nodes
  · refine SortedMap.forall_alter ?_ ?_ htarget.targets
    · exact pairwise_insertName List.Pairwise.nil
    · intro v hv
      exact pairwise_insertName hv

/-- Every step keeps the order. -/
theorem IsOrdered.take (h : g.IsOrdered) (step : Step) : (g.take step).IsOrdered := by
  cases step with
  | node name => exact h.addNode
  | edge e => exact h.addEdge

/-- Every graph that is built is in order. -/
theorem isOrdered_ofSteps (steps : List Step) : (ofSteps steps).IsOrdered := by
  suffices h : ∀ g : Graph, g.IsOrdered → (steps.foldl Graph.take g).IsOrdered from
    h empty isOrdered_empty
  induction steps with
  | nil =>
      intro g hg
      exact hg
  | cons step steps ih =>
      intro g hg
      exact ih _ (hg.take step)

/-! ## Dependencies -/

theorem hasEdge_iff : g.hasEdge a b = true ↔ b ∈ g.successors a := by
  simp [hasEdge]

/-- What a node depends on is in rising order. -/
theorem IsOrdered.pairwise_successors (h : g.IsOrdered) (a : String) :
    (g.successors a).Pairwise (· < ·) := by
  unfold successors
  cases hget : g.adjacency.get? a with
  | none => exact List.Pairwise.nil
  | some targets => exact h.targets _ (SortedMap.mem_entries_of_get? hget)

/-- What depends on something is a node. -/
theorem mem_nodes_of_hasEdge (h : g.hasEdge a b = true) : a ∈ g.nodes := by
  rw [hasEdge_iff] at h
  unfold successors at h
  cases hget : g.adjacency.get? a with
  | none =>
      rw [hget] at h
      cases h
  | some targets => exact SortedMap.mem_keys_of_get? hget

theorem successors_addNode (h : g.IsOrdered) : (g.addNode name).successors a = g.successors a := by
  unfold successors addNode SortedMap.insertIfNew
  by_cases ha : a = name
  · subst ha
    rw [SortedMap.get?_alter_self h.nodes]
    rfl
  · rw [SortedMap.get?_alter_of_ne ha]

/-- Recording a dependency adds that one and no other. -/
theorem hasEdge_addEdge_iff {e : Edge} (h : g.IsOrdered) : (g.addEdge e).hasEdge a b = true ↔
    (a = e.source ∧ b = e.target) ∨ g.hasEdge a b = true := by
  have htarget : (g.addNode e.target).IsOrdered := h.addNode
  have hold : g.hasEdge a b = true ↔ b ∈ (g.addNode e.target).successors a := by
    rw [hasEdge_iff, successors_addNode h]
  rw [hold, hasEdge_iff]
  unfold addEdge
  simp only
  unfold successors
  by_cases ha : a = e.source
  · subst ha
    simp only
    rw [SortedMap.get?_alter_self htarget.nodes, Option.getD_some, mem_insertName]
    simp
  · simp only
    rw [SortedMap.get?_alter_of_ne ha]
    simp [ha]

/-- A step adds the dependency that it records and no other. -/
theorem hasEdge_take_iff {step : Step} (h : g.IsOrdered) : (g.take step).hasEdge a b = true ↔
    (∃ e, step = .edge e ∧ e.source = a ∧ e.target = b) ∨ g.hasEdge a b = true := by
  cases step with
  | node name =>
      unfold take
      simp only
      rw [hasEdge_iff, hasEdge_iff, successors_addNode h]
      simp
  | edge e =>
      unfold take
      simp only
      rw [hasEdge_addEdge_iff h]
      refine or_congr_left ?_
      constructor
      · rintro ⟨rfl, rfl⟩
        exact ⟨e, rfl, rfl, rfl⟩
      · rintro ⟨_, ⟨⟩, rfl, rfl⟩
        exact ⟨rfl, rfl⟩

/-- **What depends on what**: exactly the dependencies that the steps record. -/
theorem hasEdge_ofSteps_iff {steps : List Step} : (ofSteps steps).hasEdge a b = true ↔
    ∃ e, .edge e ∈ steps ∧ e.source = a ∧ e.target = b := by
  induction steps using List.reverseRecOn with
  | nil => simp [ofSteps, hasEdge, successors, empty, SortedMap.get?, SortedMap.empty]
  | append_singleton steps step ih =>
      have hlast : ofSteps (steps ++ [step]) = (ofSteps steps).take step := by
        rw [ofSteps, List.foldl_append]
        rfl
      rw [hlast, hasEdge_take_iff (isOrdered_ofSteps steps), ih]
      simp only [List.mem_append, List.mem_singleton]
      constructor
      · rintro (⟨e, rfl, hends⟩ | ⟨e, he, hends⟩)
        · exact ⟨e, .inr rfl, hends⟩
        · exact ⟨e, .inl he, hends⟩
      · rintro ⟨e, he | rfl, hends⟩
        · exact .inr ⟨e, he, hends⟩
        · exact .inl ⟨e, rfl, hends⟩

/-- The recorded dependencies are those of the steps. -/
theorem mem_edges_ofSteps_iff {steps : List Step} {e : Edge} :
    e ∈ (ofSteps steps).edges ↔ .edge e ∈ steps := by
  rw [edges, mem_stableSort]
  induction steps using List.reverseRecOn with
  | nil => simp [ofSteps, empty]
  | append_singleton steps step ih =>
      have hlast : ofSteps (steps ++ [step]) = (ofSteps steps).take step := by
        rw [ofSteps, List.foldl_append]
        rfl
      rw [hlast, List.mem_append, ← ih, List.mem_singleton]
      cases step with
      | node name => simp [take, addNode]
      | edge e' => simp [take, addEdge, addNode]

/-- One node depends on another if a recorded dependency leads from the one to the other. -/
theorem hasEdge_iff_exists_mem_edges {steps : List Step} : (ofSteps steps).hasEdge a b = true ↔
    ∃ e ∈ (ofSteps steps).edges, e.source = a ∧ e.target = b := by
  simp only [hasEdge_ofSteps_iff, mem_edges_ofSteps_iff]

end GodotLint.Graph

/-!
## Elementary cycles

An elementary cycle is a list of distinct nodes, each of which depends on the next one and the last
on the first. It can be read from any of its nodes on (`IsCycle.rotate`), so the set of its nodes is
also that of a cycle from its least node (`IsCycle.exists_least`). Two cycles have the same nodes
exactly when the nodes of both are the same in rising order (`sortedNames_eq_iff`), which is how the
search tells them apart, and the order in which cycles are reported is by length and then node by
node (`cycleLe_iff`).
-/

namespace GodotLint.Graph

variable {g : Graph} {c d u v : List String} {a x : String}

/-- An elementary cycle: its nodes are distinct, each depends on the next one and the last on the
first. -/
structure IsCycle (g : Graph) (c : List String) : Prop where
  nodup : c.Nodup
  chain : (c ++ c.head?.toList).IsChain fun a b => g.hasEdge a b = true

/-- The sets of nodes of the elementary cycles of a length from two to `maxDepth`. -/
def cycleSets (g : Graph) (maxDepth : Nat) : Set (Finset String) :=
  {s | ∃ c, g.IsCycle c ∧ 2 ≤ c.length ∧ c.length ≤ maxDepth ∧ c.toFinset = s}

/-! ## Reading a cycle -/

/-- A cycle can be read from any of its nodes on. -/
theorem IsCycle.rotate (h : g.IsCycle (u ++ v)) : g.IsCycle (v ++ u) := by
  constructor
  · exact (List.perm_append_comm).nodup_iff.mp h.nodup
  · cases u with
    | nil => simpa using h.chain
    | cons x u =>
        cases v with
        | nil => simpa using h.chain
        | cons y v =>
            -- both ways around consist of the stretch from `x` to `y` and that from `y` to `x`
            have hchain := h.chain
            simp only [List.cons_append, List.append_assoc, List.head?_cons, Option.toList_some]
              at hchain ⊢
            rw [← List.cons_append, List.isChain_split] at hchain
            rw [← List.cons_append, List.isChain_split]
            exact ⟨hchain.2, hchain.1⟩

/-- Every element of a closed chain is related to its next one. -/
theorem exists_rel_of_isChain {α : Type} {R : α → α → Prop} {l : List α} {a x : α}
    (h : (l ++ [x]).IsChain R) (ha : a ∈ l) : ∃ b, R a b := by
  obtain ⟨u, v, rfl⟩ := List.append_of_mem ha
  rw [List.append_assoc] at h
  have hstretch := (List.isChain_cons.mp h.right_of_append).1
  cases v with
  | nil => exact ⟨x, hstretch x rfl⟩
  | cons y v => exact ⟨y, hstretch y rfl⟩

/-- Every node of a cycle depends on one of its nodes. -/
theorem IsCycle.exists_hasEdge (h : g.IsCycle c) (hx : x ∈ c) : ∃ b, g.hasEdge x b = true := by
  obtain ⟨y, l, rfl⟩ := List.exists_cons_of_ne_nil (List.ne_nil_of_mem hx)
  exact exists_rel_of_isChain h.chain hx

/-- The nodes of a cycle are nodes of the graph. -/
theorem IsCycle.subset_nodes (h : g.IsCycle c) (hx : x ∈ c) : x ∈ g.nodes := by
  obtain ⟨b, hb⟩ := h.exists_hasEdge hx
  exact mem_nodes_of_hasEdge hb

/-- A list that is not empty has a least element. -/
theorem exists_least (hne : c ≠ []) : ∃ m ∈ c, ∀ x ∈ c, m ≤ x := by
  have hfinset : c.toFinset.Nonempty := by
    rw [List.toFinset_nonempty_iff]
    exact hne
  obtain ⟨m, hm, hle⟩ := c.toFinset.exists_minimal hfinset
  refine ⟨m, List.mem_toFinset.mp hm, ?_⟩
  intro x hx
  rcases le_total m x with h | h
  · exact h
  · exact hle (List.mem_toFinset.mpr hx) h

/-- A cycle can be read from its least node on. -/
theorem IsCycle.exists_least (h : g.IsCycle c) (hne : c ≠ []) :
    ∃ m d, g.IsCycle (m :: d) ∧ (m :: d).Perm c ∧ ∀ x ∈ c, m ≤ x := by
  obtain ⟨m, hm, hle⟩ := Graph.exists_least hne
  obtain ⟨u, v, rfl⟩ := List.append_of_mem hm
  have hperm : (m :: v ++ u).Perm (u ++ m :: v) := List.perm_append_comm
  exact ⟨m, v ++ u, h.rotate, hperm, hle⟩

/-! ## The nodes of a cycle -/

theorem sortedNames_perm (c : List String) : (sortedNames c).Perm c := stableSort_perm _ c

/-- Lists of the same names are the same in rising order. -/
theorem sortedNames_eq_of_perm (h : c.Perm d) : sortedNames c = sortedNames d := by
  have hsorted : ∀ l, (sortedNames l).Pairwise (· ≤ ·) := by
    intro l
    refine (pairwise_stableSort ?_ ?_ l).imp fun {a b} hab => by simpa using hab
    · intro a b
      simpa using le_total a b
    · intro a b c hab hbc
      simp only [decide_eq_true_eq] at hab hbc ⊢
      exact hab.trans hbc
  refine List.Perm.eq_of_pairwise ?_ (hsorted c) (hsorted d)
    ((sortedNames_perm c).trans (h.trans (sortedNames_perm d).symm))
  intro a b _ _ hab hba
  exact le_antisymm hab hba

/-- Lists of distinct names have the same names in rising order exactly when they have the same
names. -/
theorem sortedNames_eq_iff (hc : c.Nodup) (hd : d.Nodup) :
    sortedNames c = sortedNames d ↔ c.toFinset = d.toFinset := by
  constructor
  · intro h
    have hperm : c.Perm d := by
      have := (sortedNames_perm c).symm
      rw [h] at this
      exact this.trans (sortedNames_perm d)
    exact List.toFinset_eq_of_perm _ _ hperm
  · intro h
    exact sortedNames_eq_of_perm (List.perm_of_nodup_nodup_toFinset_eq hc hd h)

/-- One list of distinct names is a proper part of another exactly when its set of names is. -/
theorem properPart_sortedNames_iff (hc : c.Nodup) (hd : d.Nodup) :
    properPart (sortedNames c) (sortedNames d) = true ↔ c.toFinset ⊂ d.toFinset := by
  have hsubset : (∀ x ∈ sortedNames c, x ∈ sortedNames d) ↔ c.toFinset ⊆ d.toFinset := by
    simp only [(sortedNames_perm c).mem_iff, (sortedNames_perm d).mem_iff, Finset.subset_iff,
      List.mem_toFinset]
  have hcard : c.length < d.length ↔ c.toFinset.card < d.toFinset.card := by
    rw [List.toFinset_card_of_nodup hc, List.toFinset_card_of_nodup hd]
  simp only [properPart, Bool.and_eq_true, decide_eq_true_eq, List.all_eq_true,
    List.contains_iff_mem, (sortedNames_perm c).length_eq, (sortedNames_perm d).length_eq, hsubset,
    hcard]
  constructor
  · rintro ⟨hlt, hsub⟩
    exact Finset.ssubset_iff_subset_ne.mpr ⟨hsub, fun heq => absurd hlt (by simp [heq])⟩
  · intro h
    exact ⟨Finset.card_lt_card h, h.subset⟩

/-! ## The order of cycles -/

theorem compare_eq_lt_iff {s t : String} : Ord.compare s t = .lt ↔ s < t := by
  change compareOfLessAndEq s t = .lt ↔ s < t
  unfold compareOfLessAndEq
  split_ifs with hlt heq
  · simpa using hlt
  · simpa using hlt
  · simpa using hlt

theorem compare_eq_eq_iff {s t : String} : Ord.compare s t = .eq ↔ s = t := by
  change compareOfLessAndEq s t = .eq ↔ s = t
  unfold compareOfLessAndEq
  split_ifs with hlt heq
  · simpa using hlt.ne
  · simpa using heq
  · simpa using heq

/-- Lists of names are ordered by the first place at which they differ. -/
theorem le_iff : c ≤ d ↔ c < d ∨ c = d := le_iff_lt_or_eq

theorem cons_le_cons_iff {y : String} : x :: c ≤ y :: d ↔ x < y ∨ x = y ∧ c ≤ d := by
  rw [le_iff, le_iff, List.cons_lt_cons_iff, List.cons.injEq]
  tauto

/-- Lists of names are compared node by node. -/
theorem isLE_compare_iff : (Ord.compare c d).isLE = true ↔ c ≤ d := by
  induction c generalizing d with
  | nil =>
      rw [le_iff]
      cases d with
      | nil => simp
      | cons y d => simp
  | cons x c ih =>
      cases d with
      | nil => simp [List.compare_cons_nil, le_iff]
      | cons y d =>
          rw [List.compare_cons_cons, Ordering.isLE_then_iff_or, compare_eq_lt_iff,
            compare_eq_eq_iff, ih, cons_le_cons_iff]

/-- Cycles are compared by length and then node by node. -/
theorem cycleLe_iff : cycleLe c d = true ↔ c.length < d.length ∨ c.length = d.length ∧ c ≤ d := by
  unfold cycleLe
  simp only [Bool.or_eq_true, decide_eq_true_eq, Bool.and_eq_true, beq_iff_eq, isLE_compare_iff]

theorem cycleLe_total (c d : List String) : cycleLe c d = true ∨ cycleLe d c = true := by
  rw [cycleLe_iff, cycleLe_iff]
  rcases lt_trichotomy c.length d.length with h | h | h
  · exact .inl (.inl h)
  · exact (le_total c d).imp (fun hle => .inr ⟨h, hle⟩) (fun hle => .inr ⟨h.symm, hle⟩)
  · exact .inr (.inl h)

theorem cycleLe_trans (c d e : List String) (hcd : cycleLe c d = true) (hde : cycleLe d e = true) :
    cycleLe c e = true := by
  rw [cycleLe_iff] at *
  rcases hcd with hcd | ⟨hcd, hle⟩
  · left
    rcases hde with hde | ⟨hde, -⟩
    · omega
    · omega
  · rcases hde with hde | ⟨hde, hle'⟩
    · left
      omega
    · exact .inr ⟨by omega, hle.trans hle'⟩

end GodotLint.Graph
