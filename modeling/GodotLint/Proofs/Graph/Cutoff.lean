import GodotLint.Proofs.Graph.Enumeration

/-!
# Where the search for cycles is cut off

In a graph in order the search is a fold over the cycles that the walks meet, in the order of their
nodes: each cycle is kept until the limit is reached, unless its nodes were met before (`gather`,
`foundCycles_eq_foldl`). So the limit cuts at a definite place. A cycle is found exactly if it is the
least one over its nodes and fewer sets of nodes than the limit come before it (`found_iff`). A cycle
of two nodes has no other over its nodes and none over fewer, so it is reported exactly if it is not
behind the cut (`pair_mem_cycles_iff`). A crowd of nodes between its ends pushes it there
(`IsCrowd.choose_le_encard`). The cut leaves something of every graph that has cycles
(`cycles_eq_nil_iff`).

A walk that comes back to where it started contains an elementary cycle: where it meets a node twice,
the stretch in between is a shorter closed walk. So a graph has an elementary cycle exactly if some
node depends on itself by way of others (`exists_isCycle_iff`), and a search that goes deep enough
reports something exactly if there is such a node (`cycles_ne_nil_iff`).
-/

namespace GodotLint.Graph

variable {g : Graph} {start node next a b : String} {maxDepth : Nat} {path p c d : List String}
  {cs all : List (List String)} {found : Found}

/-! ## The search as a fold -/

/-- Keeps a cycle unless the limit is reached or one over the same nodes was found. -/
def gather (found : Found) (c : List String) : Found :=
  if cycleLimit ≤ found.length then found else keepCycle c found

theorem foldl_gather_of_full (h : cycleLimit ≤ found.length) : cs.foldl gather found = found := by
  induction cs with
  | nil => rfl
  | cons c cs ih => rw [List.foldl_cons, gather, if_pos h, ih]

/-- What a search does with one of the nodes that the last node of its path depends on. -/
def visit (g : Graph) (start : String) (maxDepth : Nat) (path : List String) (found : Found)
    (next : String) : Found :=
  if next = start then if 2 ≤ path.length then keepCycle path.reverse found else found
  else if next < start ∨ maxDepth ≤ path.length ∨ next ∈ path then found
  else g.search start maxDepth (next :: path) found

theorem search_cons : g.search start maxDepth (node :: p) found =
    if cycleLimit ≤ found.length then found
    else (g.successors node).foldl (g.visit start maxDepth (node :: p)) found := by
  rw [search]
  rfl

/-- At one node a search gathers what it meets by way of it, where the limit is not yet reached if the
path closes there. -/
theorem visit_eq_foldl (hroom : next = start → ¬ cycleLimit ≤ found.length)
    (ih : ¬ (next < start ∨ maxDepth ≤ path.length ∨ next ∈ path) →
      g.search start maxDepth (next :: path) found =
        (g.closings start maxDepth (next :: path)).foldl gather found) :
    g.visit start maxDepth path found next =
      (g.closingsBy start maxDepth path next).foldl gather found := by
  unfold visit closingsBy
  split_ifs with hstart htwo hstop
  · rw [List.foldl_cons, List.foldl_nil, gather, if_neg (hroom hstart)]
  · rfl
  · rfl
  · exact ih hstop

/-- Smaller nodes than the start are passed. -/
theorem visit_of_lt (h : next < start) : g.visit start maxDepth path found next = found := by
  unfold visit
  rw [if_neg h.ne, if_pos (.inl h)]

/-- Going through nodes in rising order, a search gathers what it meets by way of them. Before the
start there are only nodes that it passes, so when the path closes the limit is not yet reached. -/
theorem foldl_visit {nodes : List String} (hnodes : nodes.Pairwise (· < ·))
    (hroom : start ∈ nodes → ¬ cycleLimit ≤ found.length)
    (ih : ∀ next found, ¬ (next < start ∨ maxDepth ≤ path.length ∨ next ∈ path) →
      g.search start maxDepth (next :: path) found =
        (g.closings start maxDepth (next :: path)).foldl gather found) :
    nodes.foldl (g.visit start maxDepth path) found =
      (nodes.flatMap (g.closingsBy start maxDepth path)).foldl gather found := by
  induction nodes generalizing found with
  | nil => rfl
  | cons x nodes ihNodes =>
      obtain ⟨hfirst, hrest⟩ := List.pairwise_cons.mp hnodes
      have hvisit : g.visit start maxDepth path found x =
          (g.closingsBy start maxDepth path x).foldl gather found := by
        refine visit_eq_foldl ?_ (ih x found)
        rintro rfl
        exact hroom (List.mem_cons_self ..)
      rw [List.foldl_cons, List.flatMap_cons, List.foldl_append, ← hvisit]
      refine ihNodes hrest ?_
      intro hmem
      rw [visit_of_lt (hfirst start hmem)]
      exact hroom (List.mem_cons_of_mem _ hmem)

/-- A search gathers the cycles that it meets, one after the other. -/
theorem search_eq_foldl (hg : g.IsOrdered) (hpath : path ≠ []) : g.search start maxDepth path found =
    (g.closings start maxDepth path).foldl gather found := by
  induction path using closings.induct start maxDepth generalizing found with
  | case1 path ih =>
      obtain ⟨node, p, rfl⟩ := List.exists_cons_of_ne_nil hpath
      rw [search_cons, closings_cons]
      split_ifs with hfull
      · rw [foldl_gather_of_full hfull]
      · refine foldl_visit (hg.pairwise_successors node) (fun _ => hfull) ?_
        intro next found hstop
        exact ih next hstop (List.cons_ne_nil _ _)

/-- The searches from nodes in turn gather the cycles that they meet. -/
theorem searchFrom_eq_foldl (hg : g.IsOrdered) (starts : List String) :
    g.searchFrom maxDepth starts found = (g.met maxDepth starts).foldl gather found := by
  induction starts generalizing found with
  | nil => rfl
  | cons start rest ih =>
      have hfirst : g.search start maxDepth [start] found =
          (g.closings start maxDepth [start]).foldl gather found :=
        search_eq_foldl hg (List.cons_ne_nil _ _)
      unfold searchFrom met
      rw [List.flatMap_cons, List.foldl_append, ← hfirst]
      dsimp only
      split_ifs with hfull
      · rw [foldl_gather_of_full hfull]
      · exact ih

/-- **What is found**: of the cycles that are met each is kept, unless its nodes were met before, until
the limit is reached. -/
theorem foundCycles_eq_foldl (hg : g.IsOrdered) :
    g.foundCycles maxDepth = (g.met maxDepth g.nodes).foldl gather [] :=
  searchFrom_eq_foldl hg g.nodes

/-! ## What is kept -/

/-- Gathering keeps what was found. -/
theorem mem_foldl_gather {x : List String × List String} (hx : x ∈ found) :
    x ∈ cs.foldl gather found := by
  induction cs generalizing found with
  | nil => exact hx
  | cons c cs ih =>
      refine ih ?_
      rw [gather, keepCycle_eq]
      split_ifs
      · exact hx
      · exact hx
      · exact List.mem_cons_of_mem _ hx

/-- Whatever is gathered is sound. -/
theorem isSound_foldl_gather (hs : IsSound all found) (hsub : ∀ c ∈ cs, c ∈ all) :
    IsSound all (cs.foldl gather found) := by
  induction cs generalizing found with
  | nil => exact hs
  | cons c cs ih =>
      rw [List.foldl_cons]
      refine ih ?_ fun d hd => hsub d (List.mem_cons_of_mem _ hd)
      rw [gather]
      split_ifs
      · exact hs
      · exact hs.keepCycle (hsub c (List.mem_cons_self ..))

/-- Below the limit the nodes of every cycle that was met are found. -/
theorem complete_foldl_gather (hlt : (cs.foldl gather []).length < cycleLimit) :
    ∀ c ∈ cs, sortedNames c ∈ (cs.foldl gather []).map (·.2) := by
  induction cs using List.reverseRecOn with
  | nil =>
      intro c hc
      cases hc
  | append_singleton cs c ih =>
      rw [List.foldl_append, List.foldl_cons, List.foldl_nil, gather] at hlt ⊢
      split_ifs at hlt ⊢ with hfull
      · exact absurd hfull (not_le.mpr hlt)
      · have hold := ih (not_le.mp hfull)
        rw [keepCycle_eq]
        intro d hd
        rcases List.mem_append.mp hd with hd | hd
        · split_ifs
          · exact hold d hd
          · exact List.mem_cons_of_mem _ (hold d hd)
        · rw [List.mem_singleton.mp hd]
          split_ifs with hmem
          · exact hmem
          · exact List.mem_cons_self ..

/-- A cycle that was not met before is kept exactly if there is room for it and its nodes were not
met. -/
theorem exists_foldl_gather_iff {before after : List (List String)} (hc : c ∉ before) :
    (∃ x ∈ (before ++ c :: after).foldl gather [], x.1 = c) ↔
      (before.foldl gather []).length < cycleLimit ∧
        sortedNames c ∉ (before.foldl gather []).map (·.2) := by
  have hbefore : IsSound before (before.foldl gather []) :=
    isSound_foldl_gather isSound_nil fun d hd => hd
  have hall : IsSound (before ++ c :: after) ((before ++ c :: after).foldl gather []) :=
    isSound_foldl_gather isSound_nil fun d hd => hd
  rw [List.foldl_append, List.foldl_cons] at hall ⊢
  constructor
  · rintro ⟨x, hx, rfl⟩
    have hlt : (before.foldl gather []).length < cycleLimit := by
      by_contra hfull
      rw [gather, if_pos (not_lt.mp hfull), foldl_gather_of_full (not_lt.mp hfull)] at hx
      exact hc (hbefore.entry x hx).1
    refine ⟨hlt, fun hnames => ?_⟩
    -- what was found over the same nodes is still there, and is another cycle
    obtain ⟨y, hy, hsame⟩ := List.mem_map.mp hnames
    have hyFound : y ∈ after.foldl gather (gather (before.foldl gather []) x.1) := by
      refine mem_foldl_gather ?_
      rw [gather, if_neg (not_le.mpr hlt), keepCycle_eq, if_pos hnames]
      exact hy
    have heq : x = y :=
      List.inj_on_of_nodup_map hall.nodup hx hyFound ((hall.entry x hx).2.trans hsame.symm)
    exact hc (heq ▸ (hbefore.entry y hy).1)
  · rintro ⟨hlt, hnew⟩
    refine ⟨(c, sortedNames c), mem_foldl_gather ?_, rfl⟩
    rw [gather, if_neg (not_le.mpr hlt), keepCycle_eq, if_neg hnew]
    exact List.mem_cons_self ..

/-- No more is kept than the limit. -/
theorem length_foldl_gather_le (h : found.length ≤ cycleLimit) :
    (cs.foldl gather found).length ≤ cycleLimit := by
  induction cs generalizing found with
  | nil => exact h
  | cons c cs ih =>
      refine ih ?_
      rw [gather, keepCycle_eq]
      split_ifs with hfull hmem
      · exact h
      · exact h
      · rw [List.length_cons]
        omega

/-- The sets of nodes of lists. -/
def nodeSets (cs : List (List String)) : Finset (Finset String) := (cs.map List.toFinset).toFinset

/-- Gathering goes on as long as there are fewer sets of nodes than the limit. -/
theorem length_foldl_gather_lt_iff (hnodup : ∀ c ∈ cs, c.Nodup) :
    (cs.foldl gather []).length < cycleLimit ↔ (nodeSets cs).card < cycleLimit := by
  have hsound : IsSound cs (cs.foldl gather []) := isSound_foldl_gather isSound_nil fun c hc => hc
  have hsets : ((cs.foldl gather []).map fun x => x.1.toFinset).Nodup := by
    refine List.pairwise_map.mpr ((List.pairwise_map.mp hsound.nodup).imp_of_mem ?_)
    intro x y hx hy hne heq
    obtain ⟨hx, hxnames⟩ := hsound.entry x hx
    obtain ⟨hy, hynames⟩ := hsound.entry y hy
    rw [hxnames, hynames] at hne
    exact hne ((sortedNames_eq_iff (hnodup _ hx) (hnodup _ hy)).mpr heq)
  have hcard : ((cs.foldl gather []).map fun x => x.1.toFinset).toFinset.card =
      (cs.foldl gather []).length := by
    rw [List.toFinset_card_of_nodup hsets, List.length_map]
  have hsubset : ((cs.foldl gather []).map fun x => x.1.toFinset).toFinset ⊆ nodeSets cs := by
    intro s hs
    obtain ⟨x, hx, rfl⟩ := List.mem_map.mp (List.mem_toFinset.mp hs)
    exact List.mem_toFinset.mpr (List.mem_map_of_mem (hsound.entry x hx).1)
  constructor
  · intro hlt
    refine lt_of_le_of_lt (Finset.card_le_card ?_) (hcard.trans_lt hlt)
    intro s hs
    obtain ⟨c, hc, rfl⟩ := List.mem_map.mp (List.mem_toFinset.mp hs)
    obtain ⟨x, hx, hnames⟩ := List.mem_map.mp (complete_foldl_gather hlt c hc)
    obtain ⟨hmem, hxnames⟩ := hsound.entry x hx
    rw [hxnames, sortedNames_eq_iff (hnodup _ hmem) (hnodup _ hc)] at hnames
    exact List.mem_toFinset.mpr (List.mem_map.mpr ⟨x, hx, hnames⟩)
  · intro hlt
    rw [← hcard]
    exact lt_of_le_of_lt (Finset.card_le_card hsubset) hlt

/-! ## The cut -/

/-- A cycle as it is listed: elementary, of a length from two to the given one, and read from its
least node on. -/
def IsListed (g : Graph) (maxDepth : Nat) (c : List String) : Prop :=
  g.IsCycle c ∧ 2 ≤ c.length ∧ c.length ≤ maxDepth ∧
    ∃ start, c.head? = some start ∧ ∀ x ∈ c, start ≤ x

/-- The sets of nodes of the cycles that come before a list, in the order of their nodes. -/
def setsBefore (g : Graph) (maxDepth : Nat) (c : List String) : Set (Finset String) :=
  List.toFinset '' {d | g.IsListed maxDepth d ∧ d < c}

/-- What is met before a cycle are the cycles that are less. -/
theorem exists_met_eq (hg : g.IsOrdered) (hc : g.IsListed maxDepth c) :
    ∃ before after, g.met maxDepth g.nodes = before ++ c :: after ∧ c ∉ before ∧
      (∀ d, d ∈ before ↔ g.IsListed maxDepth d ∧ d < c) ∧
      (nodeSets before : Set (Finset String)) = g.setsBefore maxDepth c := by
  obtain ⟨before, after, hmet⟩ := List.append_of_mem (mem_met_iff.mpr hc)
  have hpairwise : (g.met maxDepth g.nodes).Pairwise (· < ·) := pairwise_met hg
  rw [hmet, List.pairwise_append] at hpairwise
  obtain ⟨-, hafter, hbefore⟩ := hpairwise
  have hlt : ∀ d ∈ before, d < c := fun d hd => hbefore d hd c (List.mem_cons_self ..)
  have hmem : ∀ d, d ∈ before ↔ g.IsListed maxDepth d ∧ d < c := by
    intro d
    constructor
    · intro hd
      refine ⟨mem_met_iff.mp ?_, hlt d hd⟩
      rw [hmet]
      exact List.mem_append_left _ hd
    · rintro ⟨hd, hdc⟩
      have := mem_met_iff.mpr hd
      rw [hmet, List.mem_append, List.mem_cons] at this
      rcases this with hd | rfl | hd
      · exact hd
      · exact absurd hdc (lt_irrefl _)
      · exact absurd hdc (lt_asymm ((List.pairwise_cons.mp hafter).1 d hd))
  refine ⟨before, after, hmet, fun hc => lt_irrefl _ (hlt c hc), hmem, ?_⟩
  ext s
  simp only [nodeSets, setsBefore, List.coe_toFinset, Set.mem_ofPred_eq, List.mem_map, Set.mem_image,
    hmem]

/-- **Where the cut is**: a cycle is found exactly if it is the least one over its nodes and fewer
sets of nodes than the limit come before it. -/
theorem found_iff (hg : g.IsOrdered) : (∃ x ∈ g.foundCycles maxDepth, x.1 = c) ↔
    g.IsListed maxDepth c ∧
      (∀ d, g.IsListed maxDepth d → d.toFinset = c.toFinset → c ≤ d) ∧
      (g.setsBefore maxDepth c).encard < cycleLimit := by
  by_cases hc : g.IsListed maxDepth c
  swap
  · constructor
    · rintro ⟨x, hx, rfl⟩
      exact absurd (mem_met_iff.mp ((isSound_foundCycles g maxDepth).entry x hx).1) hc
    · rintro ⟨h, -⟩
      exact absurd h hc
  obtain ⟨before, after, hmet, hnot, hmem, hsets⟩ := exists_met_eq hg hc
  have hcount : (before.foldl gather []).length < cycleLimit ↔
      (g.setsBefore maxDepth c).encard < cycleLimit := by
    rw [← hsets, Set.encard_coe_eq_coe_finsetCard, Nat.cast_lt]
    exact length_foldl_gather_lt_iff fun d hd => ((hmem d).mp hd).1.1.nodup
  have hsame : ∀ d, g.IsListed maxDepth d →
      (sortedNames d = sortedNames c ↔ d.toFinset = c.toFinset) :=
    fun d hd => sortedNames_eq_iff hd.1.nodup hc.1.nodup
  rw [foundCycles_eq_foldl hg, hmet, exists_foldl_gather_iff hnot, ← hcount, and_iff_right hc,
    and_comm]
  refine and_congr_left fun hlt => ⟨?_, ?_⟩
  · intro hnew d hd heq
    by_contra hless
    -- a lesser cycle over the same nodes would have been found in its place
    have hfound := complete_foldl_gather hlt d ((hmem d).mpr ⟨hd, not_le.mp hless⟩)
    rw [(hsame d hd).mpr heq] at hfound
    exact hnew hfound
  · intro hleast hnames
    obtain ⟨y, hy, heq⟩ := List.mem_map.mp hnames
    have hbefore : IsSound before (before.foldl gather []) :=
      isSound_foldl_gather isSound_nil fun d hd => hd
    obtain ⟨hyBefore, hyNames⟩ := hbefore.entry y hy
    obtain ⟨hyListed, hyLess⟩ := (hmem y.1).mp hyBefore
    have hyLeast : c ≤ y.1 := hleast y.1 hyListed ((hsame y.1 hyListed).mp (hyNames.symm.trans heq))
    exact absurd hyLeast (not_le.mpr hyLess)

/-- If cycles have at most as many sets of nodes as the search takes, the cut is behind all of
them. -/
theorem encard_setsBefore_lt (hc : g.IsListed maxDepth c)
    (hleast : ∀ d, g.IsListed maxDepth d → d.toFinset = c.toFinset → c ≤ d)
    (hsets : (g.cycleSets maxDepth).encard ≤ cycleLimit) :
    (g.setsBefore maxDepth c).encard < cycleLimit := by
  have hfinite : (g.cycleSets maxDepth).Finite := Set.finite_of_encard_le_coe hsets
  have hsub : g.setsBefore maxDepth c ⊂ g.cycleSets maxDepth := by
    refine (Set.ssubset_iff_of_subset ?_).mpr ⟨c.toFinset, ⟨c, hc.1, hc.2.1, hc.2.2.1, rfl⟩, ?_⟩
    · rintro s ⟨d, ⟨hd, -⟩, rfl⟩
      exact ⟨d, hd.1, hd.2.1, hd.2.2.1, rfl⟩
    · rintro ⟨d, ⟨hd, hlt⟩, heq⟩
      exact absurd (hleast d hd heq) (not_le.mpr hlt)
  exact ((hfinite.subset hsub.subset).encard_lt_encard hsub).trans_le hsets

/-- No more is reported than the limit. -/
theorem length_cycles_le (hg : g.IsOrdered) : (g.cycles maxDepth).length ≤ cycleLimit := by
  have hfound : (g.foundCycles maxDepth).length ≤ cycleLimit := by
    rw [foundCycles_eq_foldl hg]
    exact length_foldl_gather_le (Nat.zero_le _)
  refine le_trans ?_ hfound
  unfold cycles
  rw [(stableSort_perm _ _).length_eq, List.length_map]
  exact (List.length_filter_le _ _).trans (List.length_reverse).le

/-! ## Cycles of two nodes -/

/-- Two nodes that depend on each other are a cycle. -/
theorem isListed_pair (hab : a < b) (h : g.hasEdge a b = true) (h' : g.hasEdge b a = true)
    (hdepth : 2 ≤ maxDepth) : g.IsListed maxDepth [a, b] := by
  refine ⟨⟨?_, ?_⟩, le_rfl, hdepth, a, rfl, ?_⟩
  · simpa using hab.ne
  · simp [h, h']
  · intro x hx
    rcases List.mem_pair.mp hx with rfl | rfl
    · exact le_rfl
    · exact hab.le

/-- A cycle over two nodes is read from the lesser one on in one way only. -/
theorem IsListed.eq_pair (hc : g.IsListed maxDepth c) (hab : a < b) (h : c.toFinset = {a, b}) :
    c = [a, b] := by
  obtain ⟨hcycle, -, -, start, hhead, hleast⟩ := hc
  have hlength : c.length = 2 := by
    rw [← List.toFinset_card_of_nodup hcycle.nodup, h, Finset.card_pair hab.ne]
  obtain ⟨x, y, rfl⟩ := List.length_eq_two.mp hlength
  have hmem : ∀ z, z ∈ [x, y] ↔ z = a ∨ z = b := by
    intro z
    rw [← List.mem_toFinset, h, Finset.mem_insert, Finset.mem_singleton]
  obtain rfl : x = start := by simpa using hhead
  have hxy : x ≠ y := by simpa using hcycle.nodup
  have hxa : x ≤ a := hleast a ((hmem a).mpr (.inl rfl))
  have hx : x = a := by
    rcases (hmem x).mp (by simp) with hx | hx
    · exact hx
    · exact absurd (hx ▸ hxa) (not_le.mpr hab)
  have hy : y = b := by
    rcases (hmem y).mp (by simp) with hy | hy
    · exact absurd (hx.trans hy.symm) hxy
    · exact hy
  rw [hx, hy]

/-- If cycles have at most as many sets of nodes as the search takes, every cycle of two nodes comes
before the cut. -/
theorem encard_setsBefore_pair_lt (hab : a < b) (h : g.hasEdge a b = true)
    (h' : g.hasEdge b a = true) (hdepth : 2 ≤ maxDepth)
    (hsets : (g.cycleSets maxDepth).encard ≤ cycleLimit) :
    (g.setsBefore maxDepth [a, b]).encard < cycleLimit := by
  refine encard_setsBefore_lt (isListed_pair hab h h' hdepth) ?_ hsets
  intro d hd heq
  exact (hd.eq_pair hab (heq.trans (by simp))).ge

/-- **Cycles of two nodes are reported up to the cut**: two nodes that depend on each other are
reported exactly if fewer sets of nodes than the limit come before them. -/
theorem pair_mem_cycles_iff (hg : g.IsOrdered) (hab : a < b) (h : g.hasEdge a b = true)
    (h' : g.hasEdge b a = true) (hdepth : 2 ≤ maxDepth) :
    [a, b] ∈ g.cycles maxDepth ↔ (g.setsBefore maxDepth [a, b]).encard < cycleLimit := by
  have hlisted := isListed_pair hab h h' hdepth
  have hset : [a, b].toFinset = {a, b} := by simp
  have hfound : (∃ x ∈ g.foundCycles maxDepth, x.1 = [a, b]) ↔
      (g.setsBefore maxDepth [a, b]).encard < cycleLimit := by
    rw [found_iff hg, and_iff_right hlisted]
    refine and_iff_right ?_
    intro d hd heq
    exact (hd.eq_pair hab (heq.trans hset)).ge
  rw [mem_cycles_iff, ← hfound]
  refine exists_congr fun x => and_congr_right fun hx => and_iff_left_of_imp ?_
  -- no cycle has fewer than two nodes
  intro hpair y hy hsub
  rw [hpair] at hsub
  have hy := mem_met_iff.mp ((isSound_foundCycles g maxDepth).entry y hy).1
  have hcard := Finset.card_lt_card hsub
  rw [List.toFinset_card_of_nodup hy.1.nodup, List.toFinset_card_of_nodup hlisted.1.nodup] at hcard
  have := hy.2.1
  simp only [List.length_cons, List.length_nil] at hcard
  omega

/-! ## Crowds -/

/-- Nodes of which each depends on all greater ones, and the greatest also on the least. -/
structure IsCrowd (g : Graph) (first : String) (middle : List String) (last : String) : Prop where
  pairwise : (first :: middle ++ [last]).Pairwise (· < ·)
  forward : (first :: middle ++ [last]).Pairwise fun x y => g.hasEdge x y = true
  back : g.hasEdge last first = true

/-- In a crowd any nodes of the middle make a cycle with the two at the ends. -/
theorem IsCrowd.isListed {first last : String} {middle part : List String}
    (h : g.IsCrowd first middle last) (hpart : part.Sublist middle)
    (hdepth : part.length + 2 ≤ maxDepth) : g.IsListed maxDepth (first :: part ++ [last]) := by
  have hsub : (first :: part ++ [last]).Sublist (first :: middle ++ [last]) :=
    (hpart.cons_cons first).append (List.Sublist.refl _)
  have hrising := h.pairwise.sublist hsub
  refine ⟨⟨hrising.imp ne_of_lt, ?_⟩, ?_, ?_, first, rfl, ?_⟩
  · have hchain := (h.forward.sublist hsub).isChain
    rw [List.cons_append, List.head?_cons, Option.toList_some, ← List.cons_append,
      List.append_assoc, List.singleton_append, List.isChain_split]
    exact ⟨hchain, List.isChain_pair.mpr h.back⟩
  · simp
  · simp only [List.length_append, List.length_cons, List.length_nil]
    omega
  · intro x hx
    rcases List.mem_cons.mp hx with rfl | hx
    · exact le_rfl
    · exact ((List.pairwise_cons.mp hrising).1 x hx).le

theorem IsCrowd.nodup {first last : String} {middle : List String} (h : g.IsCrowd first middle last) :
    (first :: (middle ++ [last])).Nodup := h.pairwise.imp ne_of_lt

theorem IsCrowd.nodup_middle {first last : String} {middle : List String}
    (h : g.IsCrowd first middle last) : middle.Nodup :=
  (List.nodup_append.mp (List.nodup_cons.mp h.nodup).2).1

/-- The ends of a crowd do not stand in its middle. -/
theorem IsCrowd.ends_notMem {first last : String} {middle : List String} {s : Finset String}
    (h : g.IsCrowd first middle last) (hs : s ⊆ middle.toFinset) :
    first ∉ insert last s ∧ last ∉ s := by
  obtain ⟨hfirst, hnodup⟩ := List.nodup_cons.mp h.nodup
  obtain ⟨-, -, hlast⟩ := List.nodup_append.mp hnodup
  constructor
  · intro hmem
    refine hfirst ?_
    rcases Finset.mem_insert.mp hmem with rfl | hmem
    · simp
    · exact List.mem_append_left _ (List.mem_toFinset.mp (hs hmem))
  · intro hmem
    exact hlast last (List.mem_toFinset.mp (hs hmem)) last (by simp) rfl

/-- Some nodes of the middle make a cycle with the ends that comes before the cycle of the ends alone. -/
theorem IsCrowd.insert_mem_setsBefore {first last : String} {middle : List String} {s : Finset String}
    (h : g.IsCrowd first middle last) (hs : s ⊆ middle.toFinset) (hne : 0 < s.card)
    (hdepth : s.card + 2 ≤ maxDepth) :
    insert first (insert last s) ∈ g.setsBefore maxDepth [first, last] := by
  have hset : (middle.filter (· ∈ s)).toFinset = s := by
    ext x
    simp only [List.mem_toFinset, List.mem_filter, decide_eq_true_eq, and_iff_right_iff_imp]
    intro hx
    exact List.mem_toFinset.mp (hs hx)
  have hlength : (middle.filter (· ∈ s)).length = s.card := by
    rw [← List.toFinset_card_of_nodup (h.nodup_middle.filter _), hset]
  have hlisted : g.IsListed maxDepth (first :: middle.filter (· ∈ s) ++ [last]) :=
    h.isListed List.filter_sublist (hlength ▸ hdepth)
  refine ⟨_, ⟨hlisted, ?_⟩, ?_⟩
  · obtain ⟨x, part, hpart⟩ := List.exists_cons_of_length_pos (hlength ▸ hne)
    have hx : x ∈ middle := List.mem_of_mem_filter (hpart ▸ List.mem_cons_self ..)
    have hlt : x < last :=
      (List.pairwise_append.mp (List.pairwise_cons.mp h.pairwise).2).2.2 x hx last (by simp)
    rw [hpart, List.cons_append, List.cons_lt_cons_iff]
    exact .inr ⟨rfl, List.cons_lt_cons_iff.mpr (.inl hlt)⟩
  · rw [List.toFinset_append, List.toFinset_cons, hset, List.toFinset_cons, List.toFinset_nil]
    ext x
    simp only [Finset.mem_union, Finset.mem_insert, Finset.notMem_empty]
    tauto

/-- A crowd pushes the cycle of its ends far back: before it come the cycles by way of any nodes of
the middle, as many as there are ways to choose these. -/
theorem IsCrowd.choose_le_encard {first last : String} {middle : List String} {k : Nat}
    (h : g.IsCrowd first middle last) (hk : 0 < k) (hdepth : k + 2 ≤ maxDepth) :
    (middle.length.choose k : ℕ∞) ≤ (g.setsBefore maxDepth [first, last]).encard := by
  have hsubset : ((middle.toFinset.powersetCard k).image fun s => insert first (insert last s) :
      Set (Finset String)) ⊆ g.setsBefore maxDepth [first, last] := by
    intro t ht
    obtain ⟨s, hchoice, rfl⟩ := Finset.mem_image.mp (Finset.mem_coe.mp ht)
    obtain ⟨hs, rfl⟩ := Finset.mem_powersetCard.mp hchoice
    exact h.insert_mem_setsBefore hs hk hdepth
  refine le_trans ?_ (Set.encard_le_encard hsubset)
  rw [Set.encard_coe_eq_coe_finsetCard, Finset.card_image_of_injOn, Finset.card_powersetCard,
    List.toFinset_card_of_nodup h.nodup_middle]
  -- what is chosen is what is left without the ends
  intro s hs t ht heq
  have hs := h.ends_notMem (Finset.mem_powersetCard.mp hs).1
  have ht := h.ends_notMem (Finset.mem_powersetCard.mp ht).1
  have herase := congrArg (fun u => (u.erase first).erase last) heq
  simpa [Finset.erase_insert hs.1, Finset.erase_insert ht.1, Finset.erase_insert hs.2,
    Finset.erase_insert ht.2] using herase

/-! ## Whether there are cycles -/

/-- The list of cycles is empty only if there are none: the cut leaves the first one, and of what is
found some set of nodes is minimal. -/
theorem cycles_eq_nil_iff (hg : g.IsOrdered) :
    g.cycles maxDepth = [] ↔ ∀ c, ¬ g.IsListed maxDepth c := by
  constructor
  · intro hnil c hc
    obtain ⟨first, rest, hmet⟩ := List.exists_cons_of_ne_nil
      (List.ne_nil_of_mem (mem_met_iff.mpr hc))
    have hfirst : (first, sortedNames first) ∈ g.foundCycles maxDepth := by
      rw [foundCycles_eq_foldl hg, hmet, List.foldl_cons]
      refine mem_foldl_gather ?_
      rw [gather, if_neg (by decide), keepCycle_eq, if_neg (by simp)]
      exact List.mem_cons_self ..
    obtain ⟨s, hs, hmin⟩ := wellFounded_lt.has_min
      {s | ∃ x ∈ g.foundCycles maxDepth, x.1.toFinset = s} ⟨_, _, hfirst, rfl⟩
    obtain ⟨x, hx, rfl⟩ := hs
    have hreported : x.1 ∈ g.cycles maxDepth :=
      mem_cycles_iff.mpr ⟨x, hx, rfl, fun y hy => hmin _ ⟨y, hy, rfl⟩⟩
    rw [hnil] at hreported
    cases hreported
  · intro hnone
    refine List.eq_nil_iff_forall_not_mem.mpr fun c hc => hnone c (isCycle_of_mem_cycles hc)

/-! ## Closed walks -/

section closed

variable {g : Graph} {c l names : List String} {a b : String} {maxDepth : Nat}

/-- One node depends on another, by way of others or not. -/
def Reaches (g : Graph) (a b : String) : Prop :=
  Relation.TransGen (fun a b => g.hasEdge a b = true) a b

/-- Who follows a closed chain comes back. -/
theorem transGen_of_isChain {α : Type} {R : α → α → Prop} {l : List α} {a : α}
    (h : (a :: l ++ [a]).IsChain R) : Relation.TransGen R a a := by
  obtain ⟨b, m, hbm⟩ := List.exists_cons_of_ne_nil (List.append_ne_nil_of_right_ne_nil l
    (List.cons_ne_nil a []))
  rw [List.cons_append, hbm, List.isChain_cons_cons] at h
  refine Relation.TransGen.head' h.1 ?_
  refine List.relationReflTransGen_of_exists_isChain_cons m h.2 ?_
  simp [← hbm]

/-- A list with a repetition has two places for one element. -/
theorem exists_append_of_not_nodup (h : ¬ c.Nodup) :
    ∃ x u v w, c = u ++ x :: (v ++ x :: w) := by
  induction c with
  | nil => exact absurd List.nodup_nil h
  | cons y c ih =>
      by_cases hy : y ∈ c
      · obtain ⟨v, w, rfl⟩ := List.append_of_mem hy
        exact ⟨y, [], v, w, rfl⟩
      · have hrest : ¬ c.Nodup := fun hc => h (List.nodup_cons.mpr ⟨hy, hc⟩)
        obtain ⟨x, u, v, w, rfl⟩ := ih hrest
        exact ⟨x, y :: u, v, w, rfl⟩

/-- A closed walk contains an elementary cycle. -/
theorem exists_isCycle_of_isChain
    (h : (a :: l ++ [a]).IsChain fun a b => g.hasEdge a b = true) : ∃ c, c ≠ [] ∧ g.IsCycle c := by
  induction hlen : l.length using Nat.strong_induction_on generalizing a l with
  | _ n ih =>
    by_cases hnodup : (a :: l).Nodup
    · exact ⟨a :: l, List.cons_ne_nil _ _, hnodup, h⟩
    · -- the stretch between two places of one node is shorter
      obtain ⟨x, u, v, w, heq⟩ := exists_append_of_not_nodup hnodup
      have hinfix : x :: v ++ [x] <:+: a :: l ++ [a] := by
        refine ⟨u, w ++ [a], ?_⟩
        rw [heq]
        simp
      have hshort : v.length < n := by
        have := congrArg List.length heq
        simp only [List.length_cons, List.length_append] at this
        omega
      have hstretch := List.IsChain.infix h hinfix
      exact ih v.length hshort hstretch rfl

/-- A graph has an elementary cycle exactly if some node depends on itself, by way of others or not. -/
theorem exists_isCycle_iff : (∃ c, c ≠ [] ∧ g.IsCycle c) ↔ ∃ a, g.Reaches a a := by
  constructor
  · rintro ⟨c, hne, hc⟩
    obtain ⟨a, l, rfl⟩ := List.exists_cons_of_ne_nil hne
    exact ⟨a, transGen_of_isChain hc.chain⟩
  · rintro ⟨a, ha⟩
    obtain ⟨b, hab, hba⟩ := Relation.TransGen.head'_iff.mp ha
    obtain ⟨l, hchain, hlast⟩ := List.exists_isChain_cons_of_relationReflTransGen hba
    have hwalk : a :: (b :: l).dropLast ++ [a] = a :: b :: l := by
      rw [List.cons_append, ← hlast, List.dropLast_append_getLast]
    refine exists_isCycle_of_isChain (a := a) (l := (b :: l).dropLast) ?_
    rw [hwalk]
    exact List.IsChain.cons_cons hab hchain

/-- A search over nodes of which none depends on itself directly reports something exactly if one
does by way of others, if it goes as deep as there are nodes. -/
theorem cycles_ne_nil_iff (hg : g.IsOrdered) (hself : ∀ a, g.hasEdge a a = false)
    (hnames : ∀ a b, g.hasEdge a b = true → a ∈ names) (hdepth : names.length ≤ maxDepth) :
    g.cycles maxDepth ≠ [] ↔ ∃ a, g.Reaches a a := by
  rw [Ne, cycles_eq_nil_iff hg, not_forall_not, ← exists_isCycle_iff]
  constructor
  · rintro ⟨c, hc, htwo, -⟩
    refine ⟨c, ?_, hc⟩
    rintro rfl
    simp at htwo
  · rintro ⟨c, hne, hc⟩
    obtain ⟨m, d, hd, hperm, hleast⟩ := hc.exists_least hne
    refine ⟨m :: d, hd, ?_, ?_, m, rfl, fun x hx => hleast x (hperm.mem_iff.mp hx)⟩
    · cases d with
      | nil =>
          have hloop := hd.chain
          simp [hself] at hloop
      | cons x d => simp
    · refine le_trans ?_ hdepth
      refine (hd.nodup.subperm ?_).length_le
      intro x hx
      obtain ⟨y, hxy⟩ := hd.exists_hasEdge hx
      exact hnames x y hxy

end closed

end GodotLint.Graph
