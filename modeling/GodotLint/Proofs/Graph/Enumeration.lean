import GodotLint.Proofs.Graph.Search

/-!
# The cycles of a graph

The main statement is that the list of cycles is exact (`cycles_ofSteps`): every list in it is an
elementary cycle of a length from two to the given one, read from its least node on, and shorter
cycles come first. If the cycles have at most as many sets of nodes as the search takes, the sets of
the reported cycles are the minimal ones, each once, and each is reported by its least cycle. What is
found beyond the limit is cut off, so nothing is said of graphs with more sets.
-/

namespace GodotLint.Graph

variable {g : Graph} {maxDepth : Nat} {all before rest : List (List String)} {c : List String}
  {found out : Found}

/-! ## What is gathered -/

/-- What was found are cycles that were met, no two over the same nodes. -/
structure IsSound (all : List (List String)) (found : Found) : Prop where
  entry : ∀ x ∈ found, x.1 ∈ all ∧ x.2 = sortedNames x.1
  nodup : (found.map (·.2)).Nodup

/-- Every cycle that was met before has its nodes among the found ones, by the least cycle over
them. -/
structure IsFaithful (all before : List (List String)) (found : Found) : Prop where
  sound : IsSound all found
  complete : ∀ c ∈ before, sortedNames c ∈ found.map (·.2)
  least : ∀ x ∈ found, ∀ c ∈ all, sortedNames c = x.2 → x.1 ≤ c

theorem isSound_nil : IsSound all [] := by
  refine ⟨?_, List.nodup_nil⟩
  intro x hx
  cases hx

theorem keepCycle_eq (c : List String) (found : Found) : keepCycle c found =
    if sortedNames c ∈ found.map (·.2) then found else (c, sortedNames c) :: found := by
  have hany : found.any (·.2 == sortedNames c) = true ↔ sortedNames c ∈ found.map (·.2) := by
    simp only [List.any_eq_true, beq_iff_eq, List.mem_map]
  unfold keepCycle
  by_cases h : sortedNames c ∈ found.map (·.2)
  · rw [if_pos h, if_pos (hany.mpr h)]
  · rw [if_neg h, if_neg (mt hany.mp h)]

/-- Keeping a cycle that is met brings in no other one. -/
theorem IsSound.keepCycle (h : IsSound all found) (hc : c ∈ all) :
    IsSound all (keepCycle c found) := by
  rw [keepCycle_eq]
  split_ifs with hmem
  · exact h
  · constructor
    · intro x hx
      rcases List.mem_cons.mp hx with rfl | hx
      · exact ⟨hc, rfl⟩
      · exact h.entry x hx
    · exact List.nodup_cons.mpr ⟨hmem, h.nodup⟩

/-- Keeping the cycle that is met next, if its nodes are new, keeps the least cycle over them. -/
theorem IsFaithful.keepCycle (h : IsFaithful (before ++ c :: rest) before found)
    (hord : (before ++ c :: rest).Pairwise (· < ·)) :
    IsFaithful (before ++ c :: rest) (before ++ [c]) (keepCycle c found) := by
  have hsound := h.sound.keepCycle (c := c) (by simp)
  rw [keepCycle_eq] at hsound ⊢
  split_ifs at hsound ⊢ with hmem
  · refine ⟨hsound, ?_, h.least⟩
    intro d hd
    rcases List.mem_append.mp hd with hd | hd
    · exact h.complete d hd
    · rwa [List.mem_singleton.mp hd]
  · refine ⟨hsound, ?_, ?_⟩
    · intro d hd
      rw [List.map_cons, List.mem_cons]
      rcases List.mem_append.mp hd with hd | hd
      · exact .inr (h.complete d hd)
      · rw [List.mem_singleton.mp hd]
        exact .inl rfl
    · intro x hx d hd hnames
      rcases List.mem_cons.mp hx with rfl | hx
      · -- a cycle over the same nodes that was met before would have been found
        rcases List.mem_append.mp hd with hd | hd
        · have hfound := h.complete d hd
          rw [hnames] at hfound
          exact absurd hfound hmem
        · rcases List.mem_cons.mp hd with rfl | hd
          · exact le_rfl
          · have hlater := (List.pairwise_append.mp hord).2.1
            exact ((List.pairwise_cons.mp hlater).1 d hd).le
      · exact h.least x hx d hd hnames

/-- Whatever is gathered is sound. -/
theorem Gathers.isSound (h : Gathers rest found out) (hs : IsSound all found)
    (hsub : ∀ c ∈ rest, c ∈ all) : IsSound all out := by
  induction h with
  | done => exact hs
  | keep _ ih =>
      refine ih (hs.keepCycle (hsub _ (List.mem_cons_self ..))) ?_
      intro c hc
      exact hsub c (List.mem_cons_of_mem _ hc)
  | pass _ _ ih =>
      refine ih hs ?_
      intro c hc
      exact hsub c (List.mem_cons_of_mem _ hc)

/-- If nothing is missing once the limit is reached, all that is met is gathered, each set of nodes by
its least cycle. -/
theorem Gathers.isFaithful (h : Gathers rest found out)
    (hs : IsFaithful (before ++ rest) before found)
    (hord : (before ++ rest).Pairwise (· < ·))
    (hfull : ∀ f, IsSound (before ++ rest) f → cycleLimit ≤ f.length →
      ∀ c ∈ before ++ rest, sortedNames c ∈ f.map (·.2)) :
    IsFaithful (before ++ rest) (before ++ rest) out := by
  induction h generalizing before with
  | done =>
      rw [List.append_nil] at hs ⊢
      exact hs
  | @keep c cs found out _ ih =>
      have hstep := hs.keepCycle hord
      rw [List.append_cons] at hstep hord hfull ⊢
      exact ih hstep hord hfull
  | @pass c cs found out full _ ih =>
      have hstep : IsFaithful (before ++ c :: cs) (before ++ [c]) found := by
        refine ⟨hs.sound, ?_, hs.least⟩
        intro d hd
        refine hfull found hs.sound full d ?_
        rcases List.mem_append.mp hd with hd | hd
        · exact List.mem_append_left _ hd
        · rw [List.mem_singleton.mp hd]
          simp
      rw [List.append_cons] at hstep hord hfull ⊢
      exact ih hstep hord hfull

/-! ## What is met -/

/-- The searches from all nodes meet the elementary cycles of the allowed lengths, each read from its
least node on. -/
theorem mem_met_iff : c ∈ g.met maxDepth g.nodes ↔ g.IsCycle c ∧ 2 ≤ c.length ∧
    c.length ≤ maxDepth ∧ ∃ start, c.head? = some start ∧ ∀ x ∈ c, start ≤ x := by
  have hclosings : ∀ start, c ∈ g.closings start maxDepth [start] ↔ [start] <+: c ∧ g.IsCycle c ∧
      (∀ x ∈ c, start ≤ x) ∧ 2 ≤ c.length ∧ c.length ≤ maxDepth := by
    intro start
    exact mem_closings_iff (isPath_singleton g start) (le_max_right _ _)
  unfold met
  simp only [List.mem_flatMap, hclosings]
  constructor
  · rintro ⟨start, -, ⟨t, rfl⟩, hcycle, hleast, htwo, hmax⟩
    exact ⟨hcycle, htwo, hmax, start, rfl, hleast⟩
  · rintro ⟨hcycle, htwo, hmax, start, hhead, hleast⟩
    obtain ⟨t, rfl⟩ := List.head?_eq_some_iff.mp hhead
    exact ⟨start, hcycle.subset_nodes (List.mem_cons_self ..), ⟨t, rfl⟩, hcycle, hleast, htwo, hmax⟩

/-- The lesser one of two cycles is met first. -/
theorem pairwise_met (hg : g.IsOrdered) : (g.met maxDepth g.nodes).Pairwise (· < ·) := by
  unfold met
  rw [List.pairwise_flatMap]
  constructor
  · intro start _
    exact pairwise_closings hg (isPath_singleton g start) (le_max_right _ _)
  · refine hg.nodes.imp ?_
    intro a b hab c hc d hd
    obtain ⟨⟨s, rfl⟩, -⟩ := (mem_closings_iff (isPath_singleton g a) (le_max_right _ _)).mp hc
    obtain ⟨⟨t, rfl⟩, -⟩ := (mem_closings_iff (isPath_singleton g b) (le_max_right _ _)).mp hd
    exact List.cons_lt_cons_iff.mpr (.inl hab)

/-- The sets of nodes of cycles are those of the cycles that are met. -/
theorem mem_cycleSets_iff {s : Finset String} :
    s ∈ g.cycleSets maxDepth ↔ ∃ c ∈ g.met maxDepth g.nodes, c.toFinset = s := by
  constructor
  · rintro ⟨c, hcycle, htwo, hmax, rfl⟩
    have hne : c ≠ [] := by
      rintro rfl
      simp at htwo
    obtain ⟨m, d, hd, hperm, hleast⟩ := hcycle.exists_least hne
    have hlength := hperm.length_eq
    refine ⟨m :: d, mem_met_iff.mpr ⟨hd, by omega, by omega, m, rfl, ?_⟩,
      List.toFinset_eq_of_perm _ _ hperm⟩
    intro x hx
    exact hleast x (hperm.mem_iff.mp hx)
  · rintro ⟨c, hc, rfl⟩
    obtain ⟨hcycle, htwo, hmax, -⟩ := mem_met_iff.mp hc
    exact ⟨c, hcycle, htwo, hmax, rfl⟩

/-! ## What is found -/

/-- Found cycles that were met are elementary cycles. -/
theorem IsSound.isCycle (h : IsSound (g.met maxDepth g.nodes) found) {x : List String × List String}
    (hx : x ∈ found) : g.IsCycle x.1 :=
  (mem_met_iff.mp (h.entry x hx).1).1

/-- No two found cycles have the same set of nodes. -/
theorem IsSound.nodup_sets (h : IsSound (g.met maxDepth g.nodes) found) :
    (found.map fun x => x.1.toFinset).Nodup := by
  refine List.pairwise_map.mpr ((List.pairwise_map.mp h.nodup).imp_of_mem ?_)
  intro x y hx hy hne heq
  refine hne ?_
  rw [(h.entry x hx).2, (h.entry y hy).2]
  exact (sortedNames_eq_iff (h.isCycle hx).nodup (h.isCycle hy).nodup).mpr heq

/-- If cycles have at most as many sets of nodes as the search takes, none is missing once the limit
is reached. -/
theorem IsSound.complete (h : IsSound (g.met maxDepth g.nodes) found)
    (hsets : (g.cycleSets maxDepth).encard ≤ cycleLimit) (hfull : cycleLimit ≤ found.length) :
    ∀ c ∈ g.met maxDepth g.nodes, sortedNames c ∈ found.map (·.2) := by
  intro c hc
  have hsubset : ((found.map fun x => x.1.toFinset).toFinset : Set (Finset String)) ⊆
      g.cycleSets maxDepth := by
    intro s hs
    rw [Finset.mem_coe, List.mem_toFinset, List.mem_map] at hs
    obtain ⟨x, hx, rfl⟩ := hs
    exact mem_cycleSets_iff.mpr ⟨x.1, (h.entry x hx).1, rfl⟩
  have hcard : (g.cycleSets maxDepth).encard ≤
      ((found.map fun x => x.1.toFinset).toFinset : Set (Finset String)).encard := by
    rw [Set.encard_coe_eq_coe_finsetCard, List.toFinset_card_of_nodup h.nodup_sets, List.length_map]
    exact hsets.trans (by exact_mod_cast hfull)
  have hall := (Finset.finite_toSet _).eq_of_subset_of_encard_le hsubset hcard
  have hmem : c.toFinset ∈ g.cycleSets maxDepth := mem_cycleSets_iff.mpr ⟨c, hc, rfl⟩
  rw [← hall, Finset.mem_coe, List.mem_toFinset, List.mem_map] at hmem
  obtain ⟨x, hx, heq⟩ := hmem
  refine List.mem_map.mpr ⟨x, hx, ?_⟩
  rw [(h.entry x hx).2]
  exact (sortedNames_eq_iff (h.isCycle hx).nodup (mem_met_iff.mp hc).1.nodup).mpr heq

/-- The cycles that the searches from all nodes find. -/
def foundCycles (g : Graph) (maxDepth : Nat) : Found := g.searchFrom maxDepth g.nodes []

theorem isSound_foundCycles (g : Graph) (maxDepth : Nat) :
    IsSound (g.met maxDepth g.nodes) (g.foundCycles maxDepth) := by
  exact (gathers_searchFrom g maxDepth g.nodes []).isSound isSound_nil fun c hc => hc

/-- If cycles have at most as many sets of nodes as the search takes, each set is found by its least
cycle. -/
theorem isFaithful_foundCycles (hg : g.IsOrdered)
    (hsets : (g.cycleSets maxDepth).encard ≤ cycleLimit) :
    IsFaithful (g.met maxDepth g.nodes) (g.met maxDepth g.nodes) (g.foundCycles maxDepth) := by
  have hempty : IsFaithful ([] ++ g.met maxDepth g.nodes) [] [] := by
    refine ⟨isSound_nil, ?_, ?_⟩
    · intro c hc
      cases hc
    · intro x hx
      cases hx
  have hgathers := gathers_searchFrom g maxDepth g.nodes []
  exact hgathers.isFaithful hempty (pairwise_met hg) fun f hf hfull => hf.complete hsets hfull

/-- What is reported are the found cycles that have no other's nodes as a proper part of theirs. -/
theorem mem_cycles_iff : c ∈ g.cycles maxDepth ↔ ∃ x ∈ g.foundCycles maxDepth, x.1 = c ∧
    ∀ y ∈ g.foundCycles maxDepth, ¬ y.1.toFinset ⊂ x.1.toFinset := by
  have hpart : ∀ x ∈ g.foundCycles maxDepth, ∀ y ∈ g.foundCycles maxDepth,
      properPart y.2 x.2 = true ↔ y.1.toFinset ⊂ x.1.toFinset := by
    intro x hx y hy
    have hsound := isSound_foundCycles g maxDepth
    rw [(hsound.entry x hx).2, (hsound.entry y hy).2]
    exact properPart_sortedNames_iff (hsound.isCycle hy).nodup (hsound.isCycle hx).nodup
  unfold cycles
  change c ∈ stableSort cycleLe (((g.foundCycles maxDepth).reverse.filter _).map (·.1)) ↔ _
  simp only [mem_stableSort, List.mem_map, List.mem_filter, List.mem_reverse, Bool.not_eq_true',
    List.any_eq_false, and_assoc]
  refine exists_congr fun x => and_congr_right fun hx => ?_
  rw [and_comm]
  refine and_congr_right fun _ => forall₂_congr fun y hy => ?_
  exact not_congr (hpart x hx y hy)

/-- No two reported cycles have the same set of nodes. -/
theorem nodup_sets_cycles (g : Graph) (maxDepth : Nat) :
    ((g.cycles maxDepth).map List.toFinset).Nodup := by
  have hsublist : ((((g.foundCycles maxDepth).reverse.filter fun x =>
      !(g.foundCycles maxDepth).reverse.any fun y => properPart y.2 x.2).map (·.1)).map
        List.toFinset).Nodup := by
    rw [List.map_map]
    refine List.Nodup.sublist (List.filter_sublist.map _) ?_
    rw [List.map_reverse, List.nodup_reverse]
    exact (isSound_foundCycles g maxDepth).nodup_sets
  exact ((stableSort_perm cycleLe _).map List.toFinset).nodup_iff.mpr hsublist

/-- The reported cycles are in order. -/
theorem pairwise_cycles (g : Graph) (maxDepth : Nat) : (g.cycles maxDepth).Pairwise
    fun c d => c.length < d.length ∨ c.length = d.length ∧ c < d := by
  have hsorted : (g.cycles maxDepth).Pairwise fun c d => cycleLe c d = true :=
    pairwise_stableSort cycleLe_total cycleLe_trans _
  have hnodup : (g.cycles maxDepth).Nodup := (nodup_sets_cycles g maxDepth).of_map
  refine (hsorted.and hnodup).imp ?_
  rintro c d ⟨hle, hne⟩
  rcases cycleLe_iff.mp hle with h | ⟨hlength, h⟩
  · exact .inl h
  · exact .inr ⟨hlength, (le_iff.mp h).resolve_right hne⟩

/-! ## The report -/

/-- Every reported cycle is an elementary cycle of an allowed length that is read from its least node
on. -/
theorem isCycle_of_mem_cycles (hc : c ∈ g.cycles maxDepth) : g.IsCycle c ∧ 2 ≤ c.length ∧
    c.length ≤ maxDepth ∧ ∃ start, c.head? = some start ∧ ∀ x ∈ c, start ≤ x := by
  obtain ⟨x, hx, rfl, -⟩ := mem_cycles_iff.mp hc
  exact mem_met_iff.mp ((isSound_foundCycles g maxDepth).entry x hx).1

/-- Every set of nodes of a cycle is found. -/
theorem exists_found_of_mem_cycleSets (hg : g.IsOrdered)
    (hsets : (g.cycleSets maxDepth).encard ≤ cycleLimit) {s : Finset String}
    (hs : s ∈ g.cycleSets maxDepth) : ∃ x ∈ g.foundCycles maxDepth, x.1.toFinset = s := by
  have hfaithful := isFaithful_foundCycles hg hsets
  obtain ⟨c, hc, rfl⟩ := mem_cycleSets_iff.mp hs
  obtain ⟨x, hx, hnames⟩ := List.mem_map.mp (hfaithful.complete c hc)
  rw [(hfaithful.sound.entry x hx).2] at hnames
  exact ⟨x, hx, (sortedNames_eq_iff (hfaithful.sound.isCycle hx).nodup
    (mem_met_iff.mp hc).1.nodup).mp hnames⟩

/-- The sets of nodes of the reported cycles are the minimal ones. -/
theorem mem_sets_cycles_iff (hg : g.IsOrdered) (hsets : (g.cycleSets maxDepth).encard ≤ cycleLimit)
    {s : Finset String} : s ∈ (g.cycles maxDepth).map List.toFinset ↔
      Minimal (· ∈ g.cycleSets maxDepth) s := by
  have hmem : ∀ x ∈ g.foundCycles maxDepth, x.1.toFinset ∈ g.cycleSets maxDepth := by
    intro x hx
    exact mem_cycleSets_iff.mpr ⟨x.1, ((isSound_foundCycles g maxDepth).entry x hx).1, rfl⟩
  rw [List.mem_map]
  constructor
  · rintro ⟨c, hc, rfl⟩
    obtain ⟨x, hx, rfl, hpart⟩ := mem_cycles_iff.mp hc
    refine ⟨hmem x hx, ?_⟩
    intro t ht hle
    obtain ⟨y, hy, rfl⟩ := exists_found_of_mem_cycleSets hg hsets ht
    by_contra hnot
    exact hpart y hy ⟨hle, hnot⟩
  · intro hs
    obtain ⟨x, hx, rfl⟩ := exists_found_of_mem_cycleSets hg hsets hs.prop
    refine ⟨x.1, mem_cycles_iff.mpr ⟨x, hx, rfl, ?_⟩, rfl⟩
    intro y hy hpart
    exact hpart.2 (hs.le_of_le (hmem y hy) hpart.1)

/-- A reported cycle is the least one over its nodes, wherever the others are read from. -/
theorem le_of_mem_cycles (hg : g.IsOrdered) (hsets : (g.cycleSets maxDepth).encard ≤ cycleLimit)
    (hc : c ∈ g.cycles maxDepth) {d : List String} (hd : g.IsCycle d)
    (heq : d.toFinset = c.toFinset) : c ≤ d := by
  obtain ⟨hcycle, htwo, hmax, start, hhead, hleast⟩ := isCycle_of_mem_cycles hc
  obtain ⟨x, hx, rfl, -⟩ := mem_cycles_iff.mp hc
  have hmem : ∀ y, y ∈ d ↔ y ∈ x.1 := by
    intro y
    rw [← List.mem_toFinset, heq, List.mem_toFinset]
  have hlength : d.length = x.1.length := by
    rw [← List.toFinset_card_of_nodup hd.nodup, heq, List.toFinset_card_of_nodup hcycle.nodup]
  obtain ⟨t, ht⟩ := List.head?_eq_some_iff.mp hhead
  obtain ⟨first, rest, rfl⟩ : ∃ first rest, d = first :: rest := by
    refine List.exists_cons_of_ne_nil ?_
    rintro rfl
    rw [List.length_nil] at hlength
    omega
  rcases (hleast first ((hmem first).mp (List.mem_cons_self ..))).eq_or_lt with rfl | hlt
  · -- read from the least node on, the other cycle is met as well
    have hmet : start :: rest ∈ g.met maxDepth g.nodes := by
      refine mem_met_iff.mpr ⟨hd, by omega, by omega, start, rfl, ?_⟩
      intro y hy
      exact hleast y ((hmem y).mp hy)
    have hfaithful := isFaithful_foundCycles hg hsets
    refine hfaithful.least x hx _ hmet ?_
    rw [(hfaithful.sound.entry x hx).2]
    exact (sortedNames_eq_iff hd.nodup hcycle.nodup).mpr heq
  · rw [ht]
    exact cons_le_cons_iff.mpr (.inl hlt)

/-- Graphs of few nodes have few sets of nodes of cycles. -/
theorem encard_cycleSets_le (g : Graph) (maxDepth : Nat) :
    (g.cycleSets maxDepth).encard ≤ 2 ^ g.nodes.length := by
  have hsubset : g.cycleSets maxDepth ⊆ (g.nodes.toFinset.powerset : Set (Finset String)) := by
    rintro s ⟨c, hc, -, -, rfl⟩
    rw [Finset.mem_coe, Finset.mem_powerset]
    intro x hx
    exact List.mem_toFinset.mpr (hc.subset_nodes (List.mem_toFinset.mp hx))
  refine (Set.encard_le_encard hsubset).trans ?_
  rw [Set.encard_coe_eq_coe_finsetCard, Finset.card_powerset]
  exact_mod_cast Nat.pow_le_pow_right (by decide) (List.toFinset_card_le _)

/-- **The list of cycles is exact.** Every list in it is an elementary cycle of a length from two to
the given one that is read from its least node on; they are in the order of length and then of nodes,
and no two have the same nodes. If cycles have at most a thousand sets of nodes, those of the list are
the minimal ones, and each is there by the least cycle over it. -/
theorem cycles_ofSteps (steps : List Step) (maxDepth : Nat) :
    (∀ c ∈ (ofSteps steps).cycles maxDepth, (ofSteps steps).IsCycle c ∧ 2 ≤ c.length ∧
      c.length ≤ maxDepth ∧ ∃ start, c.head? = some start ∧ ∀ x ∈ c, start ≤ x) ∧
    (((ofSteps steps).cycles maxDepth).Pairwise
      fun c d => c.length < d.length ∨ c.length = d.length ∧ c < d) ∧
    (((ofSteps steps).cycles maxDepth).map List.toFinset).Nodup ∧
    (((ofSteps steps).cycleSets maxDepth).encard ≤ 1000 →
      (∀ s, s ∈ ((ofSteps steps).cycles maxDepth).map List.toFinset ↔
        Minimal (· ∈ (ofSteps steps).cycleSets maxDepth) s) ∧
      ∀ c ∈ (ofSteps steps).cycles maxDepth, ∀ d, (ofSteps steps).IsCycle d →
        d.toFinset = c.toFinset → c ≤ d) := by
  have hordered := isOrdered_ofSteps steps
  refine ⟨fun c hc => isCycle_of_mem_cycles hc, pairwise_cycles _ _, nodup_sets_cycles _ _, ?_⟩
  intro hsets
  refine ⟨?_, ?_⟩
  · intro s
    exact mem_sets_cycles_iff hordered hsets
  · intro c hc d hd heq
    exact le_of_mem_cycles hordered hsets hc hd heq

/-- Two nodes that depend on each other, a detour from one to the other, and a node apart. -/
def detour : List Step :=
  [.edge ⟨"b", "a", .preload, 1⟩, .edge ⟨"a", "b", .preload, 1⟩, .edge ⟨"b", "c", .preload, 2⟩,
    .edge ⟨"c", "a", .load, 1⟩, .node "d"]

/-- The cycle that takes the detour is not reported, as the direct one has fewer nodes. -/
theorem cycles_ofSteps_detour : ((ofSteps detour).cycleSets 3).encard ≤ 1000 ∧
    (ofSteps detour).cycles 3 = [["a", "b"]] ∧
    Minimal (· ∈ (ofSteps detour).cycleSets 3) {"a", "b"} := by
  have hcycles : (ofSteps detour).cycles 3 = [["a", "b"]] := by decide +kernel
  have hnodes : (ofSteps detour).nodes.length = 4 := by decide +kernel
  have hfew : ((ofSteps detour).cycleSets 3).encard ≤ 1000 := by
    refine (encard_cycleSets_le _ 3).trans ?_
    rw [hnodes]
    norm_num
  refine ⟨hfew, hcycles, ?_⟩
  refine (((cycles_ofSteps detour 3).2.2.2 hfew).1 _).mp ?_
  rw [hcycles]
  simp

end GodotLint.Graph
