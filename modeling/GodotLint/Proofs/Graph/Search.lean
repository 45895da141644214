import GodotLint.Proofs.Graph.Cycle

/-!
# What a search for cycles meets

The search goes through the cycles that a depth-first walk meets (`closings`), keeps each of them
over a set of nodes that is new, and passes some over only once it has found enough (`Gathers`,
`gathers_search`). The walk from a node meets exactly the elementary cycles of which that node is
the least, up to the given length (`mem_closings_iff`), and of two cycles it meets the lesser one
first (`pairwise_closings`). So the first one that is met over a set of nodes is the least one
(`Gathers.isFaithful`).
-/

namespace GodotLint.Graph

variable {g : Graph} {start node next x : String} {maxDepth : Nat} {path p c d : List String}

/-! ## The walk -/

/-- The cycles that a search meets which goes on from `path`, in the order in which it meets
them. -/
def closings (g : Graph) (start : String) (maxDepth : Nat) (path : List String) :
    List (List String) :=
  (path.head?.elim [] g.successors).flatMap fun next =>
    if next = start then if 2 ≤ path.length then [path.reverse] else []
    else if next < start ∨ maxDepth ≤ path.length ∨ next ∈ path then []
    else closings g start maxDepth (next :: path)
termination_by maxDepth - path.length
decreasing_by
  rename_i h
  simp only [not_or, Nat.not_le] at h
  simp only [List.length_cons]
  omega

/-- The cycles that a search meets by way of the node that comes next. -/
def closingsBy (g : Graph) (start : String) (maxDepth : Nat) (path : List String) (next : String) :
    List (List String) :=
  if next = start then if 2 ≤ path.length then [path.reverse] else []
  else if next < start ∨ maxDepth ≤ path.length ∨ next ∈ path then []
  else g.closings start maxDepth (next :: path)

theorem closings_cons : g.closings start maxDepth (node :: p) =
    (g.successors node).flatMap (g.closingsBy start maxDepth (node :: p)) := by
  rw [closings]
  rfl

/-- A search does not go on to a node exactly if it is smaller than the start, has no room on the path
or is on it. -/
theorem not_stops_iff : ¬ (next < start ∨ maxDepth ≤ path.length ∨ next ∈ path) ↔
    start ≤ next ∧ path.length < maxDepth ∧ next ∉ path := by
  simp only [not_or, not_lt, not_le]

/-- A path closes, or goes on to a node that is allowed. -/
theorem mem_closingsBy_iff : c ∈ g.closingsBy start maxDepth path next ↔
    (next = start ∧ 2 ≤ path.length ∧ c = path.reverse) ∨
      (start < next ∧ path.length < maxDepth ∧ next ∉ path ∧
        c ∈ g.closings start maxDepth (next :: path)) := by
  unfold closingsBy
  by_cases hstart : next = start
  · subst hstart
    simp
  · have hlt : start < next ↔ start ≤ next :=
      ⟨le_of_lt, fun hle => lt_of_le_of_ne hle (Ne.symm hstart)⟩
    by_cases hstop : next < start ∨ maxDepth ≤ path.length ∨ next ∈ path
    · have hnot : ¬ (start ≤ next ∧ path.length < maxDepth ∧ next ∉ path) :=
        fun h => not_stops_iff.mpr h hstop
      rw [if_neg hstart, if_pos hstop, hlt]
      simp only [List.not_mem_nil, false_iff, hstart, false_and, false_or]
      tauto
    · rw [if_neg hstart, if_neg hstop, hlt]
      have := not_stops_iff.mp hstop
      simp only [hstart, false_and, false_or]
      tauto

/-- A path that a search follows, its last node first: it leads from `start` through larger nodes,
each once. -/
structure IsPath (g : Graph) (start : String) (path : List String) : Prop where
  chain : path.IsChain fun a b => g.hasEdge b a = true
  nodup : path.Nodup
  last : path.getLast? = some start
  least : ∀ x ∈ path, start ≤ x

/-- A search starts with a path of one node. -/
theorem isPath_singleton (g : Graph) (start : String) : g.IsPath start [start] := by
  constructor
  · exact List.IsChain.singleton _
  · exact List.nodup_singleton _
  · rfl
  · intro x hx
    exact (List.mem_singleton.mp hx).ge

/-- A path can go on to a larger node that is not on it. -/
theorem IsPath.cons (h : g.IsPath start (node :: p)) (hedge : g.hasEdge node next = true)
    (hle : start ≤ next) (hnew : next ∉ node :: p) : g.IsPath start (next :: node :: p) := by
  constructor
  · exact List.isChain_cons_cons.mpr ⟨hedge, h.chain⟩
  · exact List.nodup_cons.mpr ⟨hnew, h.nodup⟩
  · rw [List.getLast?_cons_of_ne_nil (List.cons_ne_nil _ _)]
    exact h.last
  · intro x hx
    rcases List.mem_cons.mp hx with rfl | hx
    · exact hle
    · exact h.least x hx

/-- A path starts where the search does. -/
theorem IsPath.head?_reverse (h : g.IsPath start path) : path.reverse.head? = some start := by
  rw [List.head?_reverse]
  exact h.last

/-- A path is a cycle exactly when its last node depends on the first one. -/
theorem IsPath.isCycle_iff (h : g.IsPath start (node :: p)) :
    g.IsCycle (node :: p).reverse ↔ g.hasEdge node start = true := by
  have hchain : ((node :: p).reverse ++ (node :: p).reverse.head?.toList).IsChain
      (fun a b => g.hasEdge a b = true) ↔ g.hasEdge node start = true := by
    rw [h.head?_reverse, Option.toList_some, ← List.reverse_singleton, ← List.reverse_append,
      List.singleton_append, List.isChain_reverse, List.isChain_cons_cons]
    exact and_iff_left h.chain
  constructor
  · intro hcycle
    exact hchain.mp hcycle.chain
  · intro hedge
    exact ⟨List.nodup_reverse.mpr h.nodup, hchain.mpr hedge⟩

/-- A path has a last node. -/
theorem IsPath.exists_eq_cons (h : g.IsPath start path) : ∃ node p, path = node :: p := by
  refine List.exists_cons_of_ne_nil ?_
  rintro rfl
  cases h.last

/-- Where a cycle goes on from a path, a search can follow it. -/
theorem IsPath.follows_of_isCycle {rest : List String} (h : g.IsPath start (node :: p))
    (hcycle : g.IsCycle ((node :: p).reverse ++ next :: rest)) (hle : start ≤ next) :
    g.hasEdge node next = true ∧ start < next ∧ next ∉ node :: p := by
  have hnew : next ∉ node :: p := by
    intro hmem
    exact List.disjoint_of_nodup_append hcycle.nodup (List.mem_reverse.mpr hmem)
      (List.mem_cons_self ..)
  refine ⟨?_, lt_of_le_of_ne hle ?_, hnew⟩
  · have hchain := hcycle.chain
    rw [List.reverse_cons, List.append_assoc, List.append_assoc, List.singleton_append,
      List.cons_append] at hchain
    exact (List.isChain_append_cons_cons.mp hchain).2.1
  · rintro rfl
    exact hnew (List.mem_of_getLast? h.last)

/-- **What a search meets**: the elementary cycles that go on from its path, have no smaller node
than the one it started from, and are not too long. -/
theorem mem_closings_iff (h : g.IsPath start path) (hlen : path.length ≤ max maxDepth 1) :
    c ∈ g.closings start maxDepth path ↔ path.reverse <+: c ∧ g.IsCycle c ∧
      (∀ x ∈ c, start ≤ x) ∧ 2 ≤ c.length ∧ c.length ≤ maxDepth := by
  induction path using closings.induct start maxDepth with
  | case1 path ih =>
      obtain ⟨node, p, rfl⟩ := h.exists_eq_cons
      rw [closings_cons, List.mem_flatMap]
      simp only [mem_closingsBy_iff]
      constructor
      · rintro ⟨next, hnext, ⟨rfl, htwo, rfl⟩ | ⟨hlt, hroom, hnew, hc⟩⟩
        · rw [← hasEdge_iff] at hnext
          refine ⟨List.prefix_rfl, h.isCycle_iff.mpr hnext, ?_, ?_, ?_⟩
          · intro x hx
            exact h.least x (List.mem_reverse.mp hx)
          · rwa [List.length_reverse]
          · rw [List.length_reverse]
            omega
        · rw [← hasEdge_iff] at hnext
          have hnextLen : (next :: node :: p).length ≤ max maxDepth 1 := by
            rw [List.length_cons]
            omega
          obtain ⟨hbegins, hrest⟩ := (ih next (not_stops_iff.mpr ⟨hlt.le, hroom, hnew⟩)
            (h.cons hnext hlt.le hnew) hnextLen).mp hc
          refine ⟨List.IsPrefix.trans ?_ hbegins, hrest⟩
          rw [List.reverse_cons (a := next)]
          exact List.prefix_append _ _
      · rintro ⟨⟨rest, rfl⟩, hcycle, hleast, htwo, hmax⟩
        cases rest with
        | nil =>
            rw [List.append_nil] at hcycle htwo ⊢
            refine ⟨start, hasEdge_iff.mp (h.isCycle_iff.mp hcycle), .inl ⟨rfl, ?_, rfl⟩⟩
            rwa [List.length_reverse] at htwo
        | cons next rest =>
            obtain ⟨hedge, hlt, hnew⟩ := h.follows_of_isCycle hcycle (hleast next (by simp))
            have hroom : (node :: p).length < maxDepth := by
              simp only [List.length_append, List.length_reverse, List.length_cons] at hmax ⊢
              omega
            have hnextLen : (next :: node :: p).length ≤ max maxDepth 1 := by
              rw [List.length_cons]
              omega
            refine ⟨next, hasEdge_iff.mp hedge, .inr ⟨hlt, hroom, hnew, ?_⟩⟩
            refine (ih next (not_stops_iff.mpr ⟨hlt.le, hroom, hnew⟩) (h.cons hedge hlt.le hnew)
              hnextLen).mpr ⟨?_, hcycle, hleast, htwo, hmax⟩
            exact ⟨rest, by simp⟩

/-- What a search meets by way of a node is its path, or has that node behind the path. -/
theorem eq_or_exists_of_mem_closingsBy (h : g.IsPath start (node :: p))
    (hnext : next ∈ g.successors node) (hc : c ∈ g.closingsBy start maxDepth (node :: p) next) :
    (next = start ∧ c = (node :: p).reverse) ∨
      (start < next ∧ ∃ rest, c = (node :: p).reverse ++ next :: rest) := by
  rcases mem_closingsBy_iff.mp hc with ⟨hstart, -, hpath⟩ | ⟨hlt, hroom, hnew, hc⟩
  · exact .inl ⟨hstart, hpath⟩
  · have hlen : (next :: node :: p).length ≤ max maxDepth 1 := by
      rw [List.length_cons]
      omega
    obtain ⟨⟨rest, rfl⟩, -⟩ :=
      (mem_closings_iff (h.cons (hasEdge_iff.mpr hnext) hlt.le hnew) hlen).mp hc
    exact .inr ⟨hlt, rest, by simp⟩

/-- A search meets the lesser one of two cycles first. -/
theorem pairwise_closings (hg : g.IsOrdered) (h : g.IsPath start path)
    (hlen : path.length ≤ max maxDepth 1) :
    (g.closings start maxDepth path).Pairwise (· < ·) := by
  induction path using closings.induct start maxDepth with
  | case1 path ih =>
      obtain ⟨node, p, rfl⟩ := h.exists_eq_cons
      rw [closings_cons, List.pairwise_flatMap]
      constructor
      · intro next hnext
        unfold closingsBy
        split_ifs with hstart htwo hstop
        · exact List.pairwise_singleton _ _
        · exact List.Pairwise.nil
        · exact List.Pairwise.nil
        · obtain ⟨hle, hroom, hnew⟩ := not_stops_iff.mp hstop
          refine ih next hstop (h.cons (hasEdge_iff.mpr hnext) hle hnew) ?_
          rw [List.length_cons]
          omega
      · refine (hg.pairwise_successors node).imp_of_mem ?_
        intro a b ha hb hab c hc d hd
        rcases eq_or_exists_of_mem_closingsBy h ha hc with ⟨rfl, rfl⟩ | ⟨hlt, s, rfl⟩
        · rcases eq_or_exists_of_mem_closingsBy h hb hd with ⟨rfl, -⟩ | ⟨-, t, rfl⟩
          · exact absurd hab (lt_irrefl _)
          · -- a path that goes on begins with the one that closes
            have hlater : (node :: p).reverse ++ [] < (node :: p).reverse ++ b :: t :=
              List.append_left_lt (List.nil_lt_cons b t)
            rwa [List.append_nil] at hlater
        · rcases eq_or_exists_of_mem_closingsBy h hb hd with ⟨rfl, rfl⟩ | ⟨-, t, rfl⟩
          · exact absurd (hlt.trans hab) (lt_irrefl _)
          · exact List.append_left_lt (List.cons_lt_cons_iff.mpr (.inl hab))

/-! ## The search -/

/-- What becomes of the cycles found when a search meets more of them: each is kept, unless its nodes
were met before, and some may be passed over once the limit is reached. -/
inductive Gathers : List (List String) → Found → Found → Prop
  | done (found : Found) : Gathers [] found found
  | keep {c : List String} {cs : List (List String)} {found out : Found}
      (later : Gathers cs (keepCycle c found) out) : Gathers (c :: cs) found out
  | pass {c : List String} {cs : List (List String)} {found out : Found}
      (full : cycleLimit ≤ found.length) (later : Gathers cs found out) :
      Gathers (c :: cs) found out

namespace Gathers

variable {cs ds : List (List String)} {found mid out : Found}

theorem append (h : Gathers cs found mid) (h' : Gathers ds mid out) :
    Gathers (cs ++ ds) found out := by
  induction h with
  | done => exact h'
  | keep _ ih => exact .keep (ih h')
  | pass full _ ih => exact .pass full (ih h')

/-- Once the limit is reached, everything may be passed over. -/
theorem of_full (full : cycleLimit ≤ found.length) (cs : List (List String)) :
    Gathers cs found found := by
  induction cs with
  | nil => exact .done found
  | cons c cs ih => exact .pass full ih

/-- A fold gathers what its steps gather one after the other. -/
theorem foldl {α : Type} {f : Found → α → Found} {met : α → List (List String)} {xs : List α}
    (h : ∀ x ∈ xs, ∀ found, Gathers (met x) found (f found x)) (found : Found) :
    Gathers (xs.flatMap met) found (xs.foldl f found) := by
  induction xs generalizing found with
  | nil => exact .done found
  | cons x xs ih =>
      rw [List.flatMap_cons, List.foldl_cons]
      refine append (h x (List.mem_cons_self ..) found) (ih ?_ _)
      intro y hy
      exact h y (List.mem_cons_of_mem _ hy)

end Gathers

/-- A search gathers the cycles that it meets. -/
theorem gathers_search (g : Graph) (start : String) (maxDepth : Nat) (path : List String)
    (found : Found) :
    Gathers (g.closings start maxDepth path) found (g.search start maxDepth path found) := by
  induction path, found using search.induct start maxDepth with
  | case1 path found full =>
      rw [search, if_pos full]
      exact .of_full full _
  | case2 path found hnot ih =>
      rw [search, if_neg hnot, closings]
      refine Gathers.foldl ?_ found
      intro next _ found
      split_ifs with hstart htwo hstop
      · exact .keep (.done _)
      · exact .done _
      · exact .done _
      · exact ih found next hstop

/-- The cycles that are met from each of the nodes in turn. -/
def met (g : Graph) (maxDepth : Nat) (starts : List String) : List (List String) :=
  starts.flatMap fun start => g.closings start maxDepth [start]

/-- The searches from nodes in turn gather the cycles that they meet. -/
theorem gathers_searchFrom (g : Graph) (maxDepth : Nat) (starts : List String) (found : Found) :
    Gathers (g.met maxDepth starts) found (g.searchFrom maxDepth starts found) := by
  induction starts generalizing found with
  | nil => exact .done found
  | cons start rest ih =>
      have hfirst := gathers_search g start maxDepth [start] found
      unfold searchFrom met
      rw [List.flatMap_cons]
      by_cases hfull : cycleLimit ≤ (g.search start maxDepth [start] found).length
      · simp only [hfull, if_true]
        exact hfirst.append (.of_full hfull _)
      · simp only [hfull, if_false]
        exact hfirst.append (ih _)

end GodotLint.Graph
