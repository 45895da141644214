import GodotLint.Proofs.Graph.Enumeration

/-!
# What a graph has recorded

A graph keeps its dependencies in two ways: all of them, as they were recorded, and for each node the
nodes that it depends on, each once. Every step changes both, and each question is put to one of them.
Whatever the steps were, the two agree (`isRecord_ofSteps`): a node depends on exactly the targets of the
dependencies that were recorded from it, both ends of a dependency are nodes, and there is a recorded
dependency between two nodes exactly if the one depends on the other. Counted over all nodes, as sources or
as targets, the pairs of nodes of which the one depends on the other are counted once each
(`card_eq_sum_fiber`).

The nodes and what they depend on are kept in rising order and not in the order of the steps. So a graph
that is built in another order has the same nodes and degrees, and the search for cycles, which asks for
nothing else, takes the same way (`adjacency_ofSteps_perm`, `cycles_congr`).
-/

namespace GodotLint.Graph

variable {g g' : Graph} {steps steps' : List Step} {a b x : String} {e : Edge} {maxDepth : Nat}

/-! ## Steps -/

/-- The dependencies that steps record, in the order of the steps. -/
def edgesOf (steps : List Step) : List Edge :=
  steps.filterMap fun
    | .node _ => none
    | .edge e => some e

/-- The names that a step makes nodes. -/
def Step.names : Step → List String
  | .node name => [name]
  | .edge e => [e.source, e.target]

/-- The pairs of names of which steps make the first depend on the second. -/
def pairsOf (steps : List Step) : Finset (String × String) :=
  ((edgesOf steps).map fun e => (e.source, e.target)).toFinset

theorem ofSteps_concat (steps : List Step) (step : Step) :
    ofSteps (steps ++ [step]) = (ofSteps steps).take step := by
  rw [ofSteps, List.foldl_append]
  rfl

theorem edgesOf_concat (steps : List Step) (step : Step) :
    edgesOf (steps ++ [step]) = edgesOf steps ++ edgesOf [step] :=
  List.filterMap_append

@[simp] theorem mem_edgesOf : e ∈ edgesOf steps ↔ .edge e ∈ steps := by
  rw [edgesOf, List.mem_filterMap]
  constructor
  · rintro ⟨step, hstep, hedge⟩
    cases step with
    | node name => cases hedge
    | edge e' =>
        cases hedge
        exact hstep
  · exact fun h => ⟨_, h, rfl⟩

theorem mem_pairsOf {p : String × String} :
    p ∈ pairsOf steps ↔ ∃ e ∈ edgesOf steps, e.source = p.1 ∧ e.target = p.2 := by
  simp only [pairsOf, List.mem_toFinset, List.mem_map, Prod.ext_iff]

/-- Every dependency is recorded, in the order of the steps. -/
theorem recorded_ofSteps (steps : List Step) : (ofSteps steps).recorded = edgesOf steps := by
  induction steps using List.reverseRecOn with
  | nil => rfl
  | append_singleton steps step ih =>
      rw [ofSteps_concat, edgesOf_concat, ← ih]
      cases step with
      | node name => exact (List.append_nil _).symm
      | edge e => rfl

/-- A step adds the nodes that it names. -/
theorem mem_nodes_take_iff {step : Step} : x ∈ (g.take step).nodes ↔ x ∈ step.names ∨ x ∈ g.nodes := by
  cases step with
  | node name =>
      have hkeys : x ∈ (g.addNode name).nodes ↔ x = name ∨ x ∈ g.nodes := SortedMap.mem_keys_alter
      rw [take, hkeys, Step.names, List.mem_singleton]
  | edge e =>
      have htarget : x ∈ (g.addNode e.target).nodes ↔ x = e.target ∨ x ∈ g.nodes :=
        SortedMap.mem_keys_alter
      have hsource : x ∈ (g.addEdge e).nodes ↔ x = e.source ∨ x ∈ (g.addNode e.target).nodes :=
        SortedMap.mem_keys_alter
      rw [take, hsource, htarget, Step.names, List.mem_cons, List.mem_singleton, or_assoc]

/-- The nodes are the names of the steps. -/
theorem mem_nodes_ofSteps_iff : x ∈ (ofSteps steps).nodes ↔ ∃ step ∈ steps, x ∈ step.names := by
  induction steps using List.reverseRecOn with
  | nil => simp [ofSteps, nodes, empty, SortedMap.keys, SortedMap.empty]
  | append_singleton steps step ih =>
      rw [ofSteps_concat, mem_nodes_take_iff, ih]
      simp only [List.mem_append, List.mem_singleton, or_and_right, exists_or, exists_eq_left]
      exact or_comm

theorem hasEdge_ofSteps_iff_mem_pairsOf :
    (ofSteps steps).hasEdge a b = true ↔ (a, b) ∈ pairsOf steps := by
  rw [hasEdge_ofSteps_iff, mem_pairsOf]
  simp only [mem_edgesOf]

/-! ## The recorded dependency between two nodes -/

/-- Of two dependencies, the one with the lesser line, the first one if the lines are the same. -/
def earlier (best : Option Edge) (e : Edge) : Option Edge :=
  match best with
  | none => some e
  | some b => if e.line < b.line then some e else some b

/-- An edge of the least line of some, or none if there are none. -/
def IsEarliest (es : List Edge) : Option Edge → Prop
  | none => es = []
  | some b => b ∈ es ∧ ∀ e ∈ es, b.line ≤ e.line

theorem IsEarliest.concat {es : List Edge} {best : Option Edge} (h : IsEarliest es best) (e : Edge) :
    IsEarliest (es ++ [e]) (earlier best e) := by
  cases best with
  | none =>
      obtain rfl : es = [] := h
      simp [earlier, IsEarliest]
  | some b =>
      obtain ⟨hmem, hle⟩ := h
      unfold earlier
      simp only
      split_ifs with hlt
      · refine ⟨by simp, fun x hx => ?_⟩
        rcases List.mem_append.mp hx with hx | hx
        · exact hlt.le.trans (hle x hx)
        · rw [List.mem_singleton.mp hx]
      · refine ⟨by simp [hmem], fun x hx => ?_⟩
        rcases List.mem_append.mp hx with hx | hx
        · exact hle x hx
        · rw [List.mem_singleton.mp hx]
          exact not_lt.mp hlt

theorem isEarliest_foldl (es : List Edge) : IsEarliest es (es.foldl earlier none) := by
  induction es using List.reverseRecOn with
  | nil => rfl
  | append_singleton es e ih =>
      rw [List.foldl_append]
      exact ih.concat e

/-- The recorded dependencies between two nodes. -/
def between (g : Graph) (a b : String) : List Edge :=
  g.recorded.filter fun e => e.source == a && e.target == b

theorem mem_between : e ∈ g.between a b ↔ e ∈ g.recorded ∧ e.source = a ∧ e.target = b := by
  simp [between]

/-- What is picked between two nodes is a recorded dependency of the least line between them. -/
theorem isEarliest_edge? (g : Graph) (a b : String) : IsEarliest (g.between a b) (g.edge? a b) :=
  isEarliest_foldl (g.between a b)

/-- There is a recorded dependency between two nodes exactly if one was recorded. -/
theorem isSome_edge?_iff :
    (g.edge? a b).isSome = true ↔ ∃ e ∈ g.recorded, e.source = a ∧ e.target = b := by
  have hearliest := isEarliest_edge? g a b
  simp only [← mem_between]
  cases hedge : g.edge? a b with
  | none =>
      rw [hedge] at hearliest
      have hnone : g.between a b = [] := hearliest
      simp [hnone]
  | some e =>
      rw [hedge] at hearliest
      exact ⟨fun _ => ⟨e, hearliest.1⟩, fun _ => rfl⟩

/-- **The two ways agree on what depends on what.** -/
theorem hasEdge_ofSteps_eq (steps : List Step) (a b : String) :
    (ofSteps steps).hasEdge a b = ((ofSteps steps).edge? a b).isSome := by
  rw [Bool.eq_iff_iff, hasEdge_ofSteps_iff, isSome_edge?_iff, recorded_ofSteps]
  simp only [mem_edgesOf]

/-! ## Degrees -/

theorem nodup_of_pairwise_lt {names : List String} (h : names.Pairwise (· < ·)) : names.Nodup :=
  h.imp fun hab => hab.ne

/-- A node depends on as many nodes as there are pairs with it as the source. -/
theorem outDegree_ofSteps (steps : List Step) (a : String) :
    (ofSteps steps).outDegree a = ((pairsOf steps).filter (·.1 = a)).card := by
  have hnodup := nodup_of_pairwise_lt ((isOrdered_ofSteps steps).pairwise_successors a)
  rw [outDegree, ← List.toFinset_card_of_nodup hnodup,
    ← Finset.card_image_of_injective _ (Prod.mk_right_injective a)]
  congr 1
  ext ⟨x, y⟩
  rw [Finset.mem_image, Finset.mem_filter, ← hasEdge_ofSteps_iff_mem_pairsOf]
  simp only [List.mem_toFinset, ← hasEdge_iff, Prod.mk.injEq, exists_eq_right_right]
  constructor
  · rintro ⟨h, rfl⟩
    exact ⟨h, rfl⟩
  · rintro ⟨h, rfl⟩
    exact ⟨h, rfl⟩

/-- The nodes that depend on one. -/
def predecessors (g : Graph) (node : String) : List String :=
  (g.adjacency.entries.filter fun entry => entry.2.contains node).map (·.1)

theorem inDegree_eq_length (g : Graph) (node : String) : g.inDegree node = (g.predecessors node).length := by
  rw [inDegree, List.countP_eq_length_filter, predecessors, List.length_map]

theorem nodup_predecessors (h : g.IsOrdered) (node : String) : (g.predecessors node).Nodup :=
  (nodup_of_pairwise_lt h.nodes).sublist (List.filter_sublist.map _)

theorem mem_predecessors_iff (h : g.IsOrdered) : a ∈ g.predecessors b ↔ g.hasEdge a b = true := by
  rw [predecessors, List.mem_map, hasEdge, successors]
  constructor
  · rintro ⟨entry, hentry, rfl⟩
    obtain ⟨hentry, hb⟩ := List.mem_filter.mp hentry
    rwa [SortedMap.get?_of_mem_entries h.nodes hentry]
  · intro hb
    cases hget : g.adjacency.get? a with
    | none => simp [hget] at hb
    | some targets =>
        rw [hget] at hb
        exact ⟨(a, targets), List.mem_filter.mpr ⟨SortedMap.mem_entries_of_get? hget, hb⟩, rfl⟩

/-- As many nodes depend on a node as there are pairs with it as the target. -/
theorem inDegree_ofSteps (steps : List Step) (b : String) :
    (ofSteps steps).inDegree b = ((pairsOf steps).filter (·.2 = b)).card := by
  have hordered := isOrdered_ofSteps steps
  rw [inDegree_eq_length, ← List.toFinset_card_of_nodup (nodup_predecessors hordered b),
    ← Finset.card_image_of_injective _ (Prod.mk_left_injective b)]
  congr 1
  ext ⟨x, y⟩
  rw [Finset.mem_image, Finset.mem_filter, ← hasEdge_ofSteps_iff_mem_pairsOf]
  simp only [List.mem_toFinset, mem_predecessors_iff hordered, Prod.mk.injEq]
  constructor
  · rintro ⟨z, h, rfl, rfl⟩
    exact ⟨h, rfl⟩
  · rintro ⟨h, rfl⟩
    exact ⟨x, h, rfl, rfl⟩

/-- Pairs that are counted at one of their ends are counted once, if each of these ends is listed once. -/
theorem card_eq_sum_fiber {pairs : Finset (String × String)} {names : List String}
    {endOf : String × String → String} (hnames : names.Nodup) (hmem : ∀ p ∈ pairs, endOf p ∈ names) :
    (names.map fun name => (pairs.filter (endOf · = name)).card).sum = pairs.card := by
  have hmaps : ∀ p ∈ pairs, endOf p ∈ names.toFinset := fun p hp => List.mem_toFinset.mpr (hmem p hp)
  rw [Finset.card_eq_sum_card_fiberwise hmaps, List.sum_toFinset _ hnames]

/-- Both ends of a pair are nodes. -/
theorem mem_nodes_of_mem_pairsOf {p : String × String} (h : p ∈ pairsOf steps) :
    p.1 ∈ (ofSteps steps).nodes ∧ p.2 ∈ (ofSteps steps).nodes := by
  obtain ⟨e, he, hsource, htarget⟩ := mem_pairsOf.mp h
  rw [mem_edgesOf] at he
  refine ⟨mem_nodes_ofSteps_iff.mpr ⟨_, he, ?_⟩, mem_nodes_ofSteps_iff.mpr ⟨_, he, ?_⟩⟩
  · simp [Step.names, hsource]
  · simp [Step.names, htarget]

/-! ## Counting what depends on each node -/

/-- Counts a target, if it is a node. -/
def countTarget (counts : SortedMap Nat) (target : String) : SortedMap Nat :=
  if counts.contains target then counts.count target else counts

/-- How many nodes depend on each node, counted at the targets of one node after the other. -/
def inDegrees (g : Graph) : SortedMap Nat :=
  g.adjacency.values.flatten.foldl countTarget ⟨g.nodes.map (·, 0)⟩

/-- Where all targets are nodes, all of them are counted. -/
theorem foldl_countTarget {counts : SortedMap Nat} {targets : List String}
    (hcounts : counts.keys.Pairwise (· < ·)) (htargets : ∀ t ∈ targets, t ∈ counts.keys) :
    targets.foldl countTarget counts = targets.foldl (·.count ·) counts := by
  induction targets generalizing counts with
  | nil => rfl
  | cons target targets ih =>
      obtain ⟨htarget, hrest⟩ := List.forall_mem_cons.mp htargets
      have hkeys := SortedMap.keys_count hcounts htarget
      rw [List.foldl_cons, List.foldl_cons, countTarget, if_pos (SortedMap.contains_iff.mpr htarget)]
      exact ih (SortedMap.pairwise_keys_alter hcounts) fun t ht => hkeys ▸ hrest t ht

/-- Among the targets of all nodes, a node is there once for each node that depends on it. -/
theorem count_flatten_values (h : g.IsOrdered) (node : String) :
    g.adjacency.values.flatten.count node = g.inDegree node := by
  have htargets := h.targets
  rw [inDegree, SortedMap.values]
  generalize g.adjacency.entries = entries at htargets ⊢
  induction entries with
  | nil => rfl
  | cons entry entries ih =>
      obtain ⟨hentry, hrest⟩ := List.forall_mem_cons.mp htargets
      rw [List.map_cons, List.flatten_cons, List.count_append, ih hrest, List.countP_cons,
        (nodup_of_pairwise_lt hentry).count, Nat.add_comm]
      simp only [List.contains_iff_mem]

/-- What a node depends on is a node. -/
theorem mem_nodes_of_mem_targets {entry : String × List String}
    (hentry : entry ∈ (ofSteps steps).adjacency.entries) (h : x ∈ entry.2) :
    x ∈ (ofSteps steps).nodes := by
  have hget := SortedMap.get?_of_mem_entries (isOrdered_ofSteps steps).nodes hentry
  have hedge : (ofSteps steps).hasEdge entry.1 x = true := by
    rw [hasEdge_iff, successors, hget]
    exact h
  exact (mem_nodes_of_mem_pairsOf (hasEdge_ofSteps_iff_mem_pairsOf.mp hedge)).2

/-- Counting finds how many nodes depend on each node. -/
theorem inDegrees_ofSteps (steps : List Step) : (ofSteps steps).inDegrees =
    ⟨(ofSteps steps).nodes.map fun node => (node, (ofSteps steps).inDegree node)⟩ := by
  have hordered := isOrdered_ofSteps steps
  have hkeys := fun f : String → Nat => SortedMap.keys_map f (ofSteps steps).nodes
  have hzero : (SortedMap.mk ((ofSteps steps).nodes.map (·, 0))).keys.Pairwise (· < ·) := by
    rw [hkeys]
    exact hordered.nodes
  have htargets : ∀ t ∈ (ofSteps steps).adjacency.values.flatten,
      t ∈ (SortedMap.mk ((ofSteps steps).nodes.map (·, 0))).keys := by
    intro t ht
    rw [hkeys]
    obtain ⟨targets, hmem, ht⟩ := List.mem_flatten.mp ht
    obtain ⟨entry, hentry, rfl⟩ := List.mem_map.mp hmem
    exact mem_nodes_of_mem_targets hentry ht
  rw [inDegrees, foldl_countTarget hzero htargets]
  refine SortedMap.eq_of_get?_eq (SortedMap.pairwise_keys_foldl_alter hzero) ?_ fun key => ?_
  · rw [hkeys]
    exact hordered.nodes
  · rw [SortedMap.get?_foldl_count _ hzero, SortedMap.get?_map, SortedMap.get?_map,
      count_flatten_values hordered]
    split_ifs with hmem hnode hnode
    · simp
    · exact absurd (hkeys (fun _ => 0) ▸ htargets key hmem) hnode
    · rw [← count_flatten_values hordered, List.count_eq_zero_of_not_mem hmem]
    · rfl

/-! ## Other orders of the steps -/

theorem pairsOf_eq_of_perm (h : steps.Perm steps') : pairsOf steps = pairsOf steps' :=
  List.toFinset_eq_of_perm _ _ ((h.filterMap _).map _)

/-- What depends on what does not depend on the order of the steps. -/
theorem successors_ofSteps_perm (h : steps.Perm steps') (a : String) :
    (ofSteps steps).successors a = (ofSteps steps').successors a := by
  refine eq_of_pairwise_of_mem_iff (fun _ _ => lt_asymm)
    ((isOrdered_ofSteps steps).pairwise_successors a)
    ((isOrdered_ofSteps steps').pairwise_successors a) fun b => ?_
  rw [← hasEdge_iff, ← hasEdge_iff, hasEdge_ofSteps_iff_mem_pairsOf, hasEdge_ofSteps_iff_mem_pairsOf,
    pairsOf_eq_of_perm h]

theorem nodes_ofSteps_perm (h : steps.Perm steps') : (ofSteps steps).nodes = (ofSteps steps').nodes := by
  refine eq_of_pairwise_of_mem_iff (fun _ _ => lt_asymm) (isOrdered_ofSteps steps).nodes
    (isOrdered_ofSteps steps').nodes fun x => ?_
  simp only [mem_nodes_ofSteps_iff, h.mem_iff]

/-- What is found at a node is what it depends on. -/
theorem get?_adjacency (g : Graph) (a : String) :
    g.adjacency.get? a = if a ∈ g.nodes then some (g.successors a) else none := by
  split_ifs with ha
  · cases hget : g.adjacency.get? a with
    | none => exact absurd ha (SortedMap.get?_eq_none_iff.mp hget)
    | some targets => rw [successors, hget, Option.getD_some]
  · exact SortedMap.get?_eq_none_iff.mpr ha

/-- **The nodes, and what each depends on, do not depend on the order of the steps.** -/
theorem adjacency_ofSteps_perm (h : steps.Perm steps') :
    (ofSteps steps).adjacency = (ofSteps steps').adjacency := by
  refine SortedMap.eq_of_get?_eq (isOrdered_ofSteps steps).nodes (isOrdered_ofSteps steps').nodes
    fun a => ?_
  rw [get?_adjacency, get?_adjacency, nodes_ofSteps_perm h, successors_ofSteps_perm h]

/-- A search asks only what depends on what. -/
theorem search_congr (h : g.adjacency = g'.adjacency) (start : String) (path : List String)
    (found : Found) : g.search start maxDepth path found = g'.search start maxDepth path found := by
  induction path, found using search.induct start maxDepth with
  | case1 path found full => rw [search, search, if_pos full, if_pos full]
  | case2 path found hnot ih =>
      have hsuccessors : g.successors = g'.successors := by
        funext a
        rw [successors, successors, h]
      rw [search, search, if_neg hnot, if_neg hnot, hsuccessors]
      congr 1
      funext found next
      split_ifs with hstart htwo hstop
      · rfl
      · rfl
      · rfl
      · exact ih found next hstop

theorem searchFrom_congr (h : g.adjacency = g'.adjacency) (starts : List String) (found : Found) :
    g.searchFrom maxDepth starts found = g'.searchFrom maxDepth starts found := by
  induction starts generalizing found with
  | nil => rfl
  | cons start starts ih => simp only [searchFrom, search_congr h, ih]

/-- Graphs that agree on what depends on what have the same cycles. -/
theorem cycles_congr (h : g.adjacency = g'.adjacency) (maxDepth : Nat) :
    g.cycles maxDepth = g'.cycles maxDepth := by
  rw [cycles, cycles, nodes, h, searchFrom_congr h]
  rfl

end GodotLint.Graph

namespace GodotLint

/-! ## The order of dependencies -/

theorem LoadKind.rank_injective : Function.Injective LoadKind.rank := by
  intro k k' h
  cases k <;> cases k' <;> first | rfl | cases h

namespace Edge

/-- The place of a dependency in a sorted list. -/
def sortKey (e : Edge) : String ×ₗ String ×ₗ ℕ ×ₗ ℕ :=
  toLex (e.source, toLex (e.target, toLex (e.kind.rank, e.line)))

theorem sortKey_injective : Function.Injective sortKey := by
  intro e x h
  obtain ⟨source, target, kind, line⟩ := e
  simp only [sortKey, EmbeddingLike.apply_eq_iff_eq, Prod.mk.injEq] at h
  obtain ⟨rfl, rfl, hkind, rfl⟩ := h
  rw [LoadKind.rank_injective hkind]

theorem isLE_compare_iff {e x : Edge} : (e.compare x).isLE = true ↔ e.sortKey ≤ x.sortKey := by
  simp only [compare, thenBy, Ordering.isLE_then_iff_or, compare_lt_iff_lt, compare_eq_iff_eq, sortKey,
    Prod.Lex.toLex_le_toLex]
  simp only [← Ordering.ne_gt_iff_isLE, compare_le_iff_le]

/-- The same dependencies are the same list once they are sorted. -/
theorem stableSort_eq_of_perm {es xs : List Edge} (h : es.Perm xs) :
    stableSort (fun a b => (a.compare b).isLE) es = stableSort (fun a b => (a.compare b).isLE) xs := by
  have htotal : ∀ e x : Edge, (e.compare x).isLE ∨ (x.compare e).isLE :=
    fun e x => by simpa only [isLE_compare_iff] using le_total _ _
  have htrans : ∀ e x y : Edge, (e.compare x).isLE → (x.compare y).isLE → (e.compare y).isLE :=
    fun e x y => by simpa only [isLE_compare_iff] using le_trans
  refine List.Perm.eq_of_pairwise (fun e x _ _ hex hxe => ?_) (pairwise_stableSort htotal htrans es)
    (pairwise_stableSort htotal htrans xs)
    ((stableSort_perm _ es).trans (h.trans (stableSort_perm _ xs).symm))
  exact sortKey_injective (le_antisymm (isLE_compare_iff.mp hex) (isLE_compare_iff.mp hxe))

end Edge

namespace Graph

variable {steps steps' : List Step}

/-- The recorded dependencies, sorted, do not depend on the order of the steps. -/
theorem edges_ofSteps_perm (h : steps.Perm steps') : (ofSteps steps).edges = (ofSteps steps').edges := by
  rw [edges, edges, recorded_ofSteps, recorded_ofSteps]
  exact Edge.stableSort_eq_of_perm (h.filterMap _)

/-! ## What a graph tells of its steps -/

/-- A graph tells what some steps recorded. -/
structure IsRecord (steps : List Step) (g : Graph) : Prop where
  /-- The nodes are the names of the steps, ... -/
  nodes : g.nodes.Pairwise (· < ·) ∧ ∀ x, x ∈ g.nodes ↔ ∃ step ∈ steps, x ∈ step.names
  /-- ... with both ends of each dependency. -/
  endpoints : ∀ e, .edge e ∈ steps → e.source ∈ g.nodes ∧ e.target ∈ g.nodes
  edges : g.edges.Perm (edgesOf steps)
  /-- A node depends on the targets of the dependencies from it, each once. -/
  successors : ∀ a, (g.successors a).Pairwise (· < ·) ∧
    ∀ b, b ∈ g.successors a ↔ ∃ e, .edge e ∈ steps ∧ e.source = a ∧ e.target = b
  hasEdge : ∀ a b, g.hasEdge a b = true ↔ (g.edge? a b).isSome = true
  /-- What is found between two nodes was recorded between them, and nothing with a lesser line. -/
  leastLine : ∀ a b e, g.edge? a b = some e → (.edge e ∈ steps ∧ e.source = a ∧ e.target = b) ∧
    ∀ x, .edge x ∈ steps → x.source = a → x.target = b → e.line ≤ x.line
  outDegrees : (g.nodes.map g.outDegree).sum = (pairsOf steps).card
  inDegrees : g.inDegrees.values.sum = (pairsOf steps).card
  /-- What is counted at each node is the number of nodes that depend on it. -/
  inDegree : g.inDegrees.entries = g.nodes.map fun node => (node, g.inDegree node)

theorem sum_outDegree_ofSteps (steps : List Step) :
    ((ofSteps steps).nodes.map (ofSteps steps).outDegree).sum = (pairsOf steps).card := by
  have hnodes := nodup_of_pairwise_lt (isOrdered_ofSteps steps).nodes
  rw [List.map_congr_left fun node _ => outDegree_ofSteps steps node]
  exact card_eq_sum_fiber hnodes fun p hp => (mem_nodes_of_mem_pairsOf hp).1

theorem sum_inDegrees_ofSteps (steps : List Step) :
    (ofSteps steps).inDegrees.values.sum = (pairsOf steps).card := by
  have hnodes := nodup_of_pairwise_lt (isOrdered_ofSteps steps).nodes
  have hvalues : (ofSteps steps).inDegrees.values = (ofSteps steps).nodes.map (ofSteps steps).inDegree := by
    rw [inDegrees_ofSteps, SortedMap.values, List.map_map]
    rfl
  rw [hvalues, List.map_congr_left fun node _ => inDegree_ofSteps steps node]
  exact card_eq_sum_fiber hnodes fun p hp => (mem_nodes_of_mem_pairsOf hp).2

theorem leastLine_ofSteps {a b : String} {e : Edge} (h : (ofSteps steps).edge? a b = some e) :
    (.edge e ∈ steps ∧ e.source = a ∧ e.target = b) ∧
      ∀ x, .edge x ∈ steps → x.source = a → x.target = b → e.line ≤ x.line := by
  have hearliest := isEarliest_edge? (ofSteps steps) a b
  rw [h] at hearliest
  obtain ⟨hmem, hleast⟩ := hearliest
  simp only [mem_between, recorded_ofSteps, mem_edgesOf, and_imp] at hmem hleast
  exact ⟨hmem, hleast⟩

/-- **A graph is a record of its steps**, whatever they are: its nodes, what they depend on, the
dependencies between two nodes and the degrees agree with each other and with the steps. Nodes, sorted
dependencies, degrees and cycles are the same in whatever order the steps are taken. -/
theorem isRecord_ofSteps (steps : List Step) : IsRecord steps (ofSteps steps) ∧
    ∀ steps', steps.Perm steps' →
      (ofSteps steps').nodes = (ofSteps steps).nodes ∧
      (ofSteps steps').edges = (ofSteps steps).edges ∧
      (ofSteps steps').outDegree = (ofSteps steps).outDegree ∧
      (ofSteps steps').inDegree = (ofSteps steps).inDegree ∧
      (ofSteps steps').inDegrees = (ofSteps steps).inDegrees ∧
      ∀ maxDepth, (ofSteps steps').cycles maxDepth = (ofSteps steps).cycles maxDepth := by
  refine ⟨?_, fun steps' h => ?_⟩
  · refine ⟨⟨(isOrdered_ofSteps steps).nodes, fun x => mem_nodes_ofSteps_iff⟩, fun e he => ?_, ?_,
      fun a => ⟨(isOrdered_ofSteps steps).pairwise_successors a, fun b => ?_⟩, fun a b => ?_,
      fun a b e => leastLine_ofSteps, sum_outDegree_ofSteps steps, sum_inDegrees_ofSteps steps, ?_⟩
    · exact mem_nodes_of_mem_pairsOf (p := (e.source, e.target))
        (mem_pairsOf.mpr ⟨e, mem_edgesOf.mpr he, rfl, rfl⟩)
    · rw [edges, recorded_ofSteps]
      exact stableSort_perm _ _
    · rw [← hasEdge_iff]
      exact hasEdge_ofSteps_iff
    · rw [hasEdge_ofSteps_eq]
    · rw [inDegrees_ofSteps]
  · have hadjacency := adjacency_ofSteps_perm h.symm
    refine ⟨nodes_ofSteps_perm h.symm, edges_ofSteps_perm h.symm, ?_, ?_, ?_, cycles_congr hadjacency⟩
    · funext a
      rw [outDegree, outDegree, successors_ofSteps_perm h.symm]
    · funext a
      rw [inDegree, inDegree, hadjacency]
    · rw [inDegrees, inDegrees, nodes_ofSteps_perm h.symm, hadjacency]

/-- Parallel dependencies, one of a node on itself, and a node that is known only as a target. -/
def tangle : List Step :=
  [.edge ⟨"a", "b", .load, 7⟩, .edge ⟨"a", "b", .preload, 3⟩, .edge ⟨"a", "a", .extends, 1⟩, .node "c"]

/-- Taken from the last one on, the steps of the tangle leave the same record. -/
theorem isRecord_ofSteps_tangle : tangle.Perm tangle.reverse ∧
    (ofSteps tangle.reverse).edges = (ofSteps tangle).edges ∧
    (ofSteps tangle.reverse).inDegrees = ⟨[("a", 1), ("b", 1), ("c", 0)]⟩ ∧
    (ofSteps tangle).edge? "a" "b" = some ⟨"a", "b", .preload, 3⟩ ∧
    (.edge ⟨"a", "b", .load, 7⟩ ∈ tangle ∧ 3 ≤ 7) := by
  have hperm : tangle.Perm tangle.reverse := (List.reverse_perm tangle).symm
  obtain ⟨hrecord, horder⟩ := isRecord_ofSteps tangle
  obtain ⟨-, hedges, -, -, hdegrees, -⟩ := horder _ hperm
  have hedge : (ofSteps tangle).edge? "a" "b" = some ⟨"a", "b", .preload, 3⟩ := by decide +kernel
  have hmem : Step.edge ⟨"a", "b", .load, 7⟩ ∈ tangle := List.mem_cons_self
  refine ⟨hperm, hedges, ?_, hedge, hmem, (hrecord.leastLine _ _ _ hedge).2 _ hmem rfl rfl⟩
  rw [hdegrees]
  decide +kernel

end Graph

end GodotLint
