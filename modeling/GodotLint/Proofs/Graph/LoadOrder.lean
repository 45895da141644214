import Mathlib
import GodotLint.Graph.LoadOrder

/-!
# Load orders

Names are placed greedily: each time the first one that depends on placed names only (`IsNext`).
What is placed is the well-founded part of the order, the names from which no cycle of dependencies
can be reached (`mem_placedNames_iff`): a placed name depends on names placed before it, and among the
names that stay behind each depends on another one of them. So every name is placed exactly when
there is no cycle, and no name is given twice (`complete_iff`). The main statement, for orders
without repetition, is `compute_isLoadOrder`.
-/

namespace GodotLint.LoadOrder

variable {order placed p u v : List String} {deps : Dependencies} {x y name : String}

/-! ## Dependencies -/

/-- One name of the order depends on another. Dependencies on names outside of the order are not
known. -/
structure DependsOn (order : List String) (deps : Dependencies) (x y : String) : Prop where
  source : x ∈ order
  target : y ∈ order
  recorded : y ∈ (deps.get? x).getD []

/-- A name from which a cycle of dependencies can be reached. -/
def MeetsCycle (order : List String) (deps : Dependencies) (x : String) : Prop :=
  ∃ y, Relation.ReflTransGen (DependsOn order deps) x y ∧
    Relation.TransGen (DependsOn order deps) y y

/-- A name that depends on placed names only. -/
def IsFree (order : List String) (deps : Dependencies) (placed : List String) (x : String) : Prop :=
  ∀ y, DependsOn order deps x y → y ∈ placed

/-- The name that is placed next: the first one in the order that is not placed and depends on
placed names only. -/
def IsNext (order : List String) (deps : Dependencies) (placed : List String) (x : String) : Prop :=
  ∃ before after, order = before ++ x :: after ∧ x ∉ placed ∧ IsFree order deps placed x ∧
    ∀ y ∈ before, y ∉ placed → ¬ IsFree order deps placed y

/-- Each name of the list was next when it was placed. -/
def IsGreedy (order : List String) (deps : Dependencies) (placed : List String) : Prop :=
  ∀ u x v, placed = u ++ x :: v → IsNext order deps u x

theorem IsNext.mem (h : IsNext order deps placed x) : x ∈ order := by
  obtain ⟨before, after, rfl, -⟩ := h
  simp

/-- A name that meets a cycle depends on one that does. -/
theorem MeetsCycle.exists_dependsOn (h : MeetsCycle order deps x) :
    ∃ y, DependsOn order deps x y ∧ MeetsCycle order deps y := by
  obtain ⟨z, hreach, hcycle⟩ := h
  rcases hreach.cases_head with rfl | ⟨y, hxy, hyz⟩
  · obtain ⟨y, hxy, hyx⟩ := Relation.TransGen.head'_iff.mp hcycle
    exact ⟨y, hxy, x, hyx, hcycle⟩
  · exact ⟨y, hxy, z, hyz, hcycle⟩

/-- A name on a cycle is a name of the order. -/
theorem mem_of_transGen (h : Relation.TransGen (DependsOn order deps) x y) : x ∈ order := by
  obtain ⟨z, hxz, -⟩ := Relation.TransGen.head'_iff.mp h
  exact hxz.source

/-- If each name of a list depends on another one of it, all of them meet a cycle. -/
theorem meetsCycle_of_forall {names : List String}
    (h : ∀ x ∈ names, ∃ y ∈ names, DependsOn order deps x y) (hx : x ∈ names) :
    MeetsCycle order deps x := by
  -- some name is met twice by whoever goes on from name to name
  choose next hmem hdep using fun x : { x // x ∈ names } => h x.1 x.2
  let step (x : { x // x ∈ names }) : { x // x ∈ names } := ⟨next x, hmem x⟩
  let walk (n : ℕ) : String := (step^[n] ⟨x, hx⟩).1
  have hstep : ∀ n, DependsOn order deps (walk n) (walk (n + 1)) := by
    intro n
    have := hdep (step^[n] ⟨x, hx⟩)
    simpa only [walk, Function.iterate_succ_apply'] using this
  obtain ⟨i, j, hne, heq⟩ :=
    Finite.exists_ne_map_eq_of_infinite fun n => step^[n] (⟨x, hx⟩ : { x // x ∈ names })
  wlog hij : i < j generalizing i j
  · exact this j i hne.symm heq.symm (lt_of_le_of_ne (not_lt.mp hij) hne.symm)
  have hcycle : Relation.TransGen (DependsOn order deps) (walk i) (walk j) :=
    Nat.rel_of_forall_rel_succ_of_lt _ (fun n => .single (hstep n)) hij
  rw [show walk j = walk i from congrArg Subtype.val heq.symm] at hcycle
  refine ⟨walk i, ?_, hcycle⟩
  exact Nat.rel_of_forall_rel_succ_of_le (Relation.ReflTransGen (DependsOn order deps))
    (fun n => .single (hstep n)) (Nat.zero_le i)

/-! ## One step -/

/-- What the search for the next name asks of a name of the order. -/
theorem isReady_iff (hx : x ∈ order) :
    isReady order deps placed x = true ↔ x ∉ placed ∧ IsFree order deps placed x := by
  simp only [isReady, Bool.and_eq_true, Bool.not_eq_true', List.contains_eq_mem,
    decide_eq_false_iff_not, List.all_eq_true, Bool.or_eq_true, decide_eq_true_eq]
  refine and_congr_right fun _ => ?_
  constructor
  · intro h y hy
    exact (h y hy.recorded).resolve_left (not_not_intro hy.target)
  · intro h y hy
    by_cases hmem : y ∈ order
    · exact .inr (h y ⟨hx, hmem, hy⟩)
    · exact .inl hmem

/-- In which order names were placed does not matter for what is ready. -/
theorem isReady_reverse : isReady order deps placed.reverse = isReady order deps placed := by
  funext x
  simp only [isReady, List.contains_reverse]

/-- The first ready name is the next one. -/
theorem isNext_of_find? (h : order.find? (isReady order deps placed) = some x) :
    IsNext order deps placed x := by
  obtain ⟨hready, before, after, rfl, hbefore⟩ := List.find?_eq_some_iff_append.mp h
  obtain ⟨hnew, hfree⟩ := (isReady_iff (by simp)).mp hready
  refine ⟨before, after, rfl, hnew, hfree, ?_⟩
  intro y hy hout hyfree
  have hyready := (isReady_iff (by simp [hy])).mpr ⟨hout, hyfree⟩
  have hynot := hbefore y hy
  rw [hyready] at hynot
  cases hynot

/-- The next name goes on with a greedy list. -/
theorem IsGreedy.concat (h : IsGreedy order deps p) (hx : IsNext order deps p x) :
    IsGreedy order deps (p ++ [x]) := by
  intro u y v heq
  rcases List.eq_nil_or_concat v with rfl | ⟨v, z, rfl⟩
  · obtain ⟨rfl, hxy⟩ := List.append_inj' heq rfl
    obtain rfl : x = y := by simpa using hxy
    exact hx
  · rw [List.concat_eq_append, ← List.cons_append, ← List.append_assoc] at heq
    exact h u y v (List.append_inj' heq rfl).1

/-- A greedy list was greedy before its last name, which was next then. -/
theorem IsGreedy.of_concat (h : IsGreedy order deps (p ++ [x])) :
    IsGreedy order deps p ∧ IsNext order deps p x := by
  refine ⟨?_, h p x [] rfl⟩
  rintro u y v rfl
  exact h u y (v ++ [x]) (by simp)

/-! ## The run -/

/-- The names that are placed by their dependencies, in the order in which they are placed. -/
def placedNames (order : List String) (deps : Dependencies) : List String :=
  (place order deps order.length []).reverse

/-- A run that starts with a greedy list ends with one. -/
theorem isGreedy_place (h : IsGreedy order deps placed.reverse) (count : ℕ) :
    IsGreedy order deps (place order deps count placed).reverse := by
  induction count generalizing placed with
  | zero => exact h
  | succ count ih =>
      rw [place]
      split
      · rename_i name hname
        rw [← isReady_reverse] at hname
        refine ih ?_
        rw [List.reverse_cons]
        exact h.concat (isNext_of_find? hname)
      · exact h

theorem isGreedy_placedNames (order : List String) (deps : Dependencies) :
    IsGreedy order deps (placedNames order deps) := by
  refine isGreedy_place ?_ order.length
  intro u x v h
  simp at h

/-- A run that may place as many names as are missing goes on until none is ready. -/
theorem find?_place {count : ℕ} (h : (order.filter (· ∉ placed)).length ≤ count) :
    order.find? (isReady order deps (place order deps count placed)) = none := by
  induction count generalizing placed with
  | zero =>
      have hall : ∀ x ∈ order, x ∈ placed := by
        have hnil := List.length_eq_zero_iff.mp (Nat.le_zero.mp h)
        simpa only [List.filter_eq_nil_iff, decide_eq_true_eq, not_not] using hnil
      rw [place, List.find?_eq_none]
      intro x hx hready
      exact ((isReady_iff hx).mp hready).1 (hall x hx)
  | succ count ih =>
      rw [place]
      split
      · rename_i name hname
        have hmem : name ∈ order := List.mem_of_find?_eq_some hname
        have hnew : name ∉ placed := ((isReady_iff hmem).mp (List.find?_some hname)).1
        refine ih ?_
        -- one name less is missing
        have hfilter : order.filter (· ∉ name :: placed) =
            (order.filter (· ∉ placed)).filter (· ≠ name) := by
          rw [List.filter_filter]
          refine List.filter_congr fun x _ => ?_
          simp only [List.mem_cons, not_or, ne_eq, Bool.decide_and]
        have hlt : ((order.filter (· ∉ placed)).filter (· ≠ name)).length <
            (order.filter (· ∉ placed)).length := by
          refine List.length_filter_lt_length_iff_exists.mpr ⟨name, ?_, by simp⟩
          simp [hmem, hnew]
        rw [hfilter]
        omega
      · rename_i hnone
        exact hnone

/-- Every name that is not placed depends on another such name. -/
theorem exists_dependsOn_of_not_mem (hx : x ∈ order) (hout : x ∉ placedNames order deps) :
    ∃ y, y ∉ placedNames order deps ∧ DependsOn order deps x y := by
  have hnone : order.find? (isReady order deps (placedNames order deps)) = none := by
    rw [placedNames, isReady_reverse]
    exact find?_place (by simp)
  have hnot : ¬ IsFree order deps (placedNames order deps) x := by
    intro hfree
    exact List.find?_eq_none.mp hnone x hx ((isReady_iff hx).mpr ⟨hout, hfree⟩)
  unfold IsFree at hnot
  push Not at hnot
  obtain ⟨y, hdep, hy⟩ := hnot
  exact ⟨y, hy, hdep⟩

/-! ## What is placed -/

/-- No name is placed twice. -/
theorem IsGreedy.nodup (h : IsGreedy order deps p) : p.Nodup := by
  induction p using List.reverseRecOn with
  | nil => exact List.nodup_nil
  | append_singleton p x ih =>
      obtain ⟨hp, -, -, -, hnew, -⟩ := h.of_concat
      exact List.nodup_append.mpr ⟨ih hp, by simp, by
        rintro y hy z hz rfl
        exact hnew (List.mem_singleton.mp hz ▸ hy)⟩

/-- No name outside of the order is placed. -/
theorem IsGreedy.mem (h : IsGreedy order deps p) (hx : x ∈ p) : x ∈ order := by
  obtain ⟨u, v, rfl⟩ := List.append_of_mem hx
  exact (h u x v rfl).mem

/-- From a name that is placed no cycle can be reached: the names it depends on were placed before,
and from them none can. -/
theorem IsGreedy.not_meetsCycle (h : IsGreedy order deps p) (hx : x ∈ p) :
    ¬ MeetsCycle order deps x := by
  induction p using List.reverseRecOn generalizing x with
  | nil => cases hx
  | append_singleton p z ih =>
      obtain ⟨hp, -, -, -, -, hfree, -⟩ := h.of_concat
      intro hcycle
      obtain ⟨y, hxy, hy⟩ := hcycle.exists_dependsOn
      rcases List.mem_append.mp hx with hx | hx
      · exact ih hp hx hcycle
      · rw [List.mem_singleton.mp hx] at hxy
        exact ih hp (hfree y hxy) hy

/-- **What is placed**: the names from which no cycle of dependencies can be reached. -/
theorem mem_placedNames_iff :
    x ∈ placedNames order deps ↔ x ∈ order ∧ ¬ MeetsCycle order deps x := by
  have hgreedy := isGreedy_placedNames order deps
  constructor
  · intro hx
    exact ⟨hgreedy.mem hx, hgreedy.not_meetsCycle hx⟩
  · rintro ⟨hx, hfree⟩
    by_contra hout
    -- among the names that stay behind each depends on another one of them
    have hstay : ∀ z ∈ order.filter (· ∉ placedNames order deps),
        ∃ y ∈ order.filter (· ∉ placedNames order deps), DependsOn order deps z y := by
      intro z hz
      simp only [List.mem_filter, decide_eq_true_eq] at hz ⊢
      obtain ⟨y, hy, hdep⟩ := exists_dependsOn_of_not_mem hz.1 hz.2
      exact ⟨y, ⟨hdep.target, hy⟩, hdep⟩
    exact hfree (meetsCycle_of_forall hstay (by simp [hx, hout]))

/-! ## The order -/

theorem compute_fst (order : List String) (deps : Dependencies) : (compute order deps).1 =
    placedNames order deps ++ order.filter (· ∉ placedNames order deps) := by
  simp [compute, addMissing, placedNames]

/-- Every name of the order is loaded. -/
theorem mem_compute_fst (hx : x ∈ order) : x ∈ (compute order deps).1 := by
  rw [compute_fst, List.mem_append, List.mem_filter]
  by_cases h : x ∈ placedNames order deps
  · exact .inl h
  · exact .inr ⟨hx, by simpa using h⟩

/-- **When an order is complete**: there is no cycle of dependencies, and no name is given twice. -/
theorem complete_iff : (compute order deps).2 = true ↔
    order.Nodup ∧ ∀ x, ¬ Relation.TransGen (DependsOn order deps) x x := by
  have hnodup := (isGreedy_placedNames order deps).nodup
  have hsubset : placedNames order deps ⊆ order := fun x hx => (mem_placedNames_iff.mp hx).1
  have hcomplete : (compute order deps).2 = true ↔
      (placedNames order deps).length = order.length := by
    simp [compute, placedNames]
  rw [hcomplete]
  constructor
  · intro hlength
    have hperm : (placedNames order deps).Perm order :=
      (hnodup.subperm hsubset).perm_of_length_le hlength.ge
    refine ⟨hperm.nodup_iff.mp hnodup, ?_⟩
    intro x hcycle
    have hplaced := hperm.mem_iff.mpr (mem_of_transGen hcycle)
    exact (mem_placedNames_iff.mp hplaced).2 ⟨x, .refl, hcycle⟩
  · rintro ⟨horder, hacyclic⟩
    refine ((List.perm_ext_iff_of_nodup hnodup horder).mpr ?_).length_eq
    intro x
    rw [mem_placedNames_iff]
    refine and_iff_left_of_imp fun _ => ?_
    rintro ⟨y, -, hcycle⟩
    exact hacyclic y hcycle

/-- The names of an order without repetition are rearranged. -/
theorem compute_perm (h : order.Nodup) : (compute order deps).1.Perm order := by
  have hnodup : (compute order deps).1.Nodup := by
    rw [compute_fst]
    refine List.nodup_append.mpr ⟨(isGreedy_placedNames order deps).nodup, h.filter _, ?_⟩
    rintro x hx y hy rfl
    simp [hx] at hy
  refine (List.perm_ext_iff_of_nodup hnodup h).mpr fun x => ⟨?_, mem_compute_fst⟩
  rw [compute_fst, List.mem_append, List.mem_filter]
  rintro (hx | hx)
  · exact (mem_placedNames_iff.mp hx).1
  · exact hx.1

/-- The result for an order, of which the names in `placed` are placed by their dependencies. -/
structure IsLoadOrder (order : List String) (deps : Dependencies) (placed : List String)
    (result : List String × Bool) : Prop where
  /-- The names that stay behind follow in their own order. -/
  eq_append : result.1 = placed ++ order.filter (· ∉ placed)
  perm : result.1.Perm order
  complete : result.2 = true ↔ ∀ x, ¬ Relation.TransGen (DependsOn order deps) x x
  mem_placed : ∀ x, x ∈ placed ↔ x ∈ order ∧ ¬ MeetsCycle order deps x
  /-- Each name comes after all that it depends on, and is the first one that may come there. -/
  greedy : IsGreedy order deps placed

/-- **The load order is the greedy one**: the names from which no cycle can be reached are placed one
by one, each time the first one whose dependencies are all placed, and the other names follow as
they stood. -/
theorem compute_isLoadOrder (h : order.Nodup) (deps : Dependencies) :
    ∃ placed, IsLoadOrder order deps placed (compute order deps) := by
  refine ⟨placedNames order deps, ?_⟩
  constructor
  · exact compute_fst order deps
  · exact compute_perm h
  · rw [complete_iff]
    exact and_iff_right h
  · intro x
    exact mem_placedNames_iff
  · exact isGreedy_placedNames order deps

/-- `Main` and `Audio` need each other and `Menu` needs both; `Settings` needs a name that is not in
the order, and `Log` needs `Settings`. -/
theorem compute_isLoadOrder_behind_cycle :
    let order := ["Menu", "Log", "Audio", "Settings", "Main"]
    let deps : Dependencies := .ofList [("Menu", ["Audio", "Main"]), ("Log", ["Settings"]),
      ("Audio", ["Main", "Settings"]), ("Settings", ["Disk"]), ("Main", ["Audio"])]
    order.Nodup ∧ compute order deps = (["Settings", "Log", "Menu", "Audio", "Main"], false) ∧
      ∃ placed, IsLoadOrder order deps placed (compute order deps) :=
  ⟨by decide, by decide, compute_isLoadOrder (by decide) _⟩

end GodotLint.LoadOrder
