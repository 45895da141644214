import GodotLint.Ordering
import GodotLint.Yaml.Stream

/-!
# YAML documents

A document is a tree of nodes. If its text is at fault, the tree holds what was read before, and a
broken node stands where reading stopped: whoever does not get that far may find other faults.
-/

namespace GodotLint.Yaml

/-! ## Nodes -/

/-- A scalar as it is written. -/
structure Scalar where
  text : String
  style : ScalarStyle := .plain
  tag : Option String := none
  deriving DecidableEq, Repr

/-- A node. -/
inductive Node where
  | scalar (mark : Mark) (s : Scalar)
  | seq (mark : Mark) (items : List Node)
  | map (mark : Mark) (entries : List (Node × Node))
  /-- The node that was anchored under a number. -/
  | alias (mark : Mark) (number : Nat)
  /-- A document without a node. -/
  | void (mark : Mark)
  /-- Reading stopped here. -/
  | broken

namespace Node

/-- An empty plain scalar. -/
def empty (mark : Mark) : Node := .scalar mark { text := "" }

/-- The place of a node. -/
def mark : Node → Mark
  | .scalar mark _ => mark
  | .seq mark _ => mark
  | .map mark _ => mark
  | .alias mark _ => mark
  | .void mark => mark
  | .broken => {}

mutual

/-- Whether reading stopped within a node. -/
def isBroken : Node → Bool
  | .seq _ items => anyBroken items
  | .map _ entries => anyEntryBroken entries
  | .broken => true
  | _ => false

/-- Whether reading stopped within some nodes. -/
def anyBroken : List Node → Bool
  | [] => false
  | x :: rest => x.isBroken || anyBroken rest

/-- Whether reading stopped within some entries. -/
def anyEntryBroken : List (Node × Node) → Bool
  | [] => false
  | (key, value) :: rest => key.isBroken || value.isBroken || anyEntryBroken rest

end

end Node

/-- A node that aliases may stand for. A number that is used again stands for the node that starts
last. -/
structure Anchored where
  number : Nat
  /-- How many anchored nodes start before it. -/
  place : Nat
  node : Node

/-- The first document of a text. -/
structure Document where
  root : Node
  anchored : List Anchored := []
  /-- Why reading stopped. -/
  fault : Option Fault := none
  /-- There is more than one document. -/
  hasMore : Bool := false

/-- The node that an alias stands for. -/
def Document.target (d : Document) : Node → Node
  | .alias _ number =>
    ((lastMax? (·.place) (d.anchored.filter (·.number = number))).map (·.node)).getD .broken
  | node => node

/-! ## Composing -/

/-- A document that is being read. -/
structure Composition where
  stream : Stream
  fault : Option Fault := none
  /-- What the handles of tags that the document declares stand for. -/
  handles : List (String × String) := []
  /-- The numbers of the anchors. -/
  anchors : List (String × Nat) := []
  /-- How many nodes with an anchor have started. -/
  started : Nat := 0
  anchored : List Anchored := []

/-- A part of the composer. -/
abbrev Compose := StateM Composition

namespace Compose

/-- Stops reading. -/
def stop (fault : Fault) : Compose Node := do
  modify fun s => { s with fault := some fault }
  return .broken

/-- Stops reading at a token. -/
def fail (problem : Problem) (mark : Mark) (during : Option (Activity × Mark)) : Compose Node :=
  stop (.problem problem mark during)

/-- The next token, none where reading stopped. -/
def peek : Compose (Option Lexeme) := fun s =>
  match s.fault with
  | some _ => (none, s)
  | none =>
    match s.stream.peek with
    | .ok (lexeme, stream) => (some lexeme, { s with stream })
    | .error fault => (none, { s with fault := some fault })

/-- Takes the next token. -/
def take : Compose Unit := modify fun s => { s with stream := s.stream.drop }

/-! ### Properties of nodes -/

/-- What stands before the content of a node. -/
structure Properties where
  anchor : Option String := none
  /-- Handle and rest of the tag, and its place. -/
  tag : Option (String × String × Mark) := none
  /-- Where the first of them stands. -/
  start : Option Mark := none

/-- Takes an anchor and a tag, at most `count` of them. -/
def properties : (count : Nat) → Properties → Compose Properties
  | 0, p => pure p
  | count + 1, p => do
    match ← peek with
    | some ⟨.anchor name, mark⟩ =>
      if p.anchor.isSome then return p
      else
        take
        properties count { p with anchor := some name, start := some (p.start.getD mark) }
    | some ⟨.tag handle rest, mark⟩ =>
      if p.tag.isSome then return p
      else
        take
        properties count
          { p with tag := some (handle, rest, mark), start := some (p.start.getD mark) }
    | _ => return p

/-- The handles that every document knows unless it declares them itself. -/
def defaultHandles : List (String × String) := [("!", "!"), ("!!", "tag:yaml.org,2002:")]

/-- The tag for a handle and a rest, if the handle is known. -/
def tagOf? (handles : List (String × String)) (handle rest : String) : Option String :=
  if handle.isEmpty then some rest
  else ((handles ++ defaultHandles).lookup handle).map (· ++ rest)

/-- Numbers an anchor; the answer is what has to be kept to give it its node. -/
def openAnchor (name : String) : Compose (Nat × Nat) := fun s =>
  let number := s.anchors.length
  let anchors := (name, number) :: s.anchors.filter (·.1 != name)
  ((number, s.started), { s with anchors, started := s.started + 1 })

/-- Gives an anchor its node. -/
def closeAnchor (number place : Nat) (node : Node) : Compose Unit :=
  modify fun s => { s with anchored := ⟨number, place, node⟩ :: s.anchored }

/-- Composes a node under an anchor, if it has one. -/
def anchoring (anchor : Option String) (x : Compose Node) : Compose Node := do
  match anchor with
  | none => x
  | some name =>
    let (number, place) ← openAnchor name
    let node ← x
    closeAnchor number place node
    return node

/-- The alias of an anchor. -/
def aliasOf (name : String) (mark : Mark) : Compose Node := do
  match (← get).anchors.lookup name with
  | some number => return .alias mark number
  | none => stop (.unknownAnchor mark)

/-- The tag that a scalar keeps: `!` alone is none. -/
def scalarTag (tag : Option String) : Option String := tag.filter (· != "!")

/-! ### Nodes -/

/-- Whether a token ends an entry of a block. -/
def endsBlockEntry : Token → Bool
  | .key => true
  | .value => true
  | .blockEnd => true
  | _ => false

/-- Whether a token ends an entry of a flow sequence. -/
def endsFlowItem : Token → Bool
  | .flowEntry => true
  | .flowSequenceEnd => true
  | _ => false

/-- Whether a token ends an entry of a flow mapping. -/
def endsFlowEntry : Token → Bool
  | .flowEntry => true
  | .flowMappingEnd => true
  | _ => false

mutual

/-- Composes a node. `inBlock` allows block collections, and `indentless` a sequence that is not
indented. -/
def node : (fuel : Nat) → (inBlock indentless : Bool) → Compose Node
  | 0, _, _ => pure .broken
  | fuel + 1, inBlock, indentless => do
    match ← peek with
    | none => return .broken
    | some ⟨.alias name, mark⟩ =>
      take
      aliasOf name mark
    | some _ =>
      let p ← properties 2 {}
      match ← peek with
      | none => return .broken
      | some lexeme =>
        let start := p.start.getD lexeme.start
        match p.tag with
        | none => anchoring p.anchor (content fuel inBlock indentless start p.start.isSome none)
        | some (handle, rest, mark) =>
          match tagOf? (← get).handles handle rest with
          | none => fail .unknownTagHandle mark (some (.node, start))
          | tag => anchoring p.anchor (content fuel inBlock indentless start true tag)

/-- Composes what stands after the properties of a node. -/
def content : (fuel : Nat) → (inBlock indentless : Bool) → (start : Mark) → (hasProperties : Bool) →
    (tag : Option String) → Compose Node
  | 0, _, _, _, _, _ => pure .broken
  | fuel + 1, inBlock, indentless, start, hasProperties, tag => do
    match ← peek with
    | none => return .broken
    | some ⟨token, mark⟩ =>
      match token, inBlock, indentless with
      | .blockEntry, _, true => return .seq start (← indentlessItems fuel)
      | .scalar text style, _, _ =>
        take
        return .scalar start { text, style, tag := scalarTag tag }
      | .flowSequenceStart, _, _ =>
        take
        return .seq start (← flowItems fuel mark true)
      | .flowMappingStart, _, _ =>
        take
        return .map start (← flowEntries fuel mark true)
      | .blockSequenceStart, true, _ =>
        take
        return .seq start (← blockItems fuel mark)
      | .blockMappingStart, true, _ =>
        take
        return .map start (← blockEntries fuel mark)
      | _, _, _ =>
        if hasProperties then return .scalar start { text := "", tag := scalarTag tag }
        else fail .noContent mark (some (if inBlock then .blockNode else .flowNode, start))

/-- Composes the items of a block sequence that starts at `start`. -/
def blockItems : (fuel : Nat) → (start : Mark) → Compose (List Node)
  | 0, _ => pure [.broken]
  | fuel + 1, start => do
    match ← peek with
    | none => return [.broken]
    | some ⟨.blockEntry, mark⟩ =>
      take
      match ← peek with
      | none => return [.broken]
      | some next =>
        let item ←
          if next.token == .blockEntry || next.token == .blockEnd then pure (.empty mark.next)
          else node fuel true false
        return item :: (← blockItems fuel start)
    | some ⟨.blockEnd, _⟩ =>
      take
      return []
    | some ⟨_, mark⟩ => return [← fail .noEntryMark mark (some (.blockSequence, start))]

/-- Composes the items of a sequence that is not indented. -/
def indentlessItems : (fuel : Nat) → Compose (List Node)
  | 0 => pure [.broken]
  | fuel + 1 => do
    match ← peek with
    | none => return [.broken]
    | some ⟨.blockEntry, mark⟩ =>
      take
      match ← peek with
      | none => return [.broken]
      | some next =>
        let item ←
          if next.token == .blockEntry || endsBlockEntry next.token then pure (.empty mark.next)
          else node fuel true false
        return item :: (← indentlessItems fuel)
    | some _ => return []

/-- Composes the entries of a block mapping that starts at `start`. -/
def blockEntries : (fuel : Nat) → (start : Mark) → Compose (List (Node × Node))
  | 0, _ => pure [(.broken, .broken)]
  | fuel + 1, start => do
    match ← peek with
    | none => return [(.broken, .broken)]
    | some ⟨.key, mark⟩ =>
      take
      match ← peek with
      | none => return [(.broken, .broken)]
      | some next =>
        let key ← if endsBlockEntry next.token then pure (.empty mark.next) else node fuel true true
        let value ← blockValue fuel
        return (key, value) :: (← blockEntries fuel start)
    | some ⟨.blockEnd, _⟩ =>
      take
      return []
    | some ⟨_, mark⟩ => return [(← fail .noKey mark (some (.blockMapping, start)), .broken)]

/-- Composes the value of an entry of a block mapping. -/
def blockValue : (fuel : Nat) → Compose Node
  | 0 => pure .broken
  | fuel + 1 => do
    match ← peek with
    | none => return .broken
    | some ⟨.value, mark⟩ =>
      take
      match ← peek with
      | none => return .broken
      | some next =>
        if endsBlockEntry next.token then return .empty mark.next else node fuel true true
    | some ⟨_, mark⟩ => return .empty mark

/-- Composes the items of a flow sequence that starts at `start`. -/
def flowItems : (fuel : Nat) → (start : Mark) → (isFirst : Bool) → Compose (List Node)
  | 0, _, _ => pure [.broken]
  | fuel + 1, start, isFirst => do
    match ← peek with
    | none => return [.broken]
    | some ⟨.flowSequenceEnd, _⟩ =>
      take
      return []
    | some ⟨token, mark⟩ =>
      if !isFirst && token != .flowEntry then
        return [← fail .noCommaOrBracket mark (some (.flowSequence, start))]
      else
        if !isFirst then take
        match ← peek with
        | none => return [.broken]
        | some ⟨.flowSequenceEnd, _⟩ =>
          take
          return []
        | some ⟨.key, mark⟩ =>
          take
          let pair ← flowPair fuel
          return .map mark pair :: (← flowItems fuel start false)
        | some _ =>
          let item ← node fuel false false
          return item :: (← flowItems fuel start false)

/-- Composes the one entry of a mapping that stands in a flow sequence without braces. A token that
ends the entry before it has a key is skipped. -/
def flowPair : (fuel : Nat) → Compose (List (Node × Node))
  | 0 => pure [(.broken, .broken)]
  | fuel + 1 => do
    match ← peek with
    | none => return [(.broken, .broken)]
    | some ⟨token, mark⟩ =>
      let key ←
        if token == .value || endsFlowItem token then do
          take
          pure (.empty mark.next)
        else node fuel false false
      let value ← flowValue fuel endsFlowItem
      match ← peek with
      | none => return [(key, value), (.broken, .broken)]
      | some _ => return [(key, value)]

/-- Composes the value of an entry in a flow collection. -/
def flowValue : (fuel : Nat) → (endsEntry : Token → Bool) → Compose Node
  | 0, _ => pure .broken
  | fuel + 1, endsEntry => do
    match ← peek with
    | none => return .broken
    | some ⟨.value, _⟩ =>
      take
      match ← peek with
      | none => return .broken
      | some ⟨token, mark⟩ => if endsEntry token then return .empty mark else node fuel false false
    | some ⟨_, mark⟩ => return .empty mark

/-- Composes the entries of a flow mapping that starts at `start`. -/
def flowEntries : (fuel : Nat) → (start : Mark) → (isFirst : Bool) → Compose (List (Node × Node))
  | 0, _, _ => pure [(.broken, .broken)]
  | fuel + 1, start, isFirst => do
    match ← peek with
    | none => return [(.broken, .broken)]
    | some ⟨.flowMappingEnd, _⟩ =>
      take
      return []
    | some ⟨token, mark⟩ =>
      if !isFirst && token != .flowEntry then
        return [(← fail .noCommaOrBrace mark (some (.flowMapping, start)), .broken)]
      else
        if !isFirst then take
        match ← peek with
        | none => return [(.broken, .broken)]
        | some ⟨.flowMappingEnd, _⟩ =>
          take
          return []
        | some ⟨.key, _⟩ =>
          take
          match ← peek with
          | none => return [(.broken, .broken)]
          | some ⟨token, mark⟩ =>
            let key ←
              if token == .value || endsFlowEntry token then pure (.empty mark)
              else node fuel false false
            let value ← flowValue fuel endsFlowEntry
            return (key, value) :: (← flowEntries fuel start false)
        | some _ =>
          let key ← node fuel false false
          match ← peek with
          | none => return [(key, .broken)]
          | some ⟨_, mark⟩ => return (key, .empty mark) :: (← flowEntries fuel start false)

end

/-! ### Documents -/

/-- Takes the directives of a document, at most `count`. -/
def directives : (count : Nat) → (hasVersion : Bool) → Compose Unit
  | 0, _ => pure ()
  | count + 1, hasVersion => do
    match ← peek with
    | some ⟨.versionDirective major minor, mark⟩ =>
      if hasVersion then
        let _ ← fail .repeatedVersion mark none
      else if major = 1 && (minor = 1 || minor = 2) then
        take
        directives count true
      else
        let _ ← fail .strangeVersion mark none
    | some ⟨.tagDirective handle address, mark⟩ =>
      if ((← get).handles.lookup handle).isSome then
        let _ ← fail .repeatedTagDirective mark none
      else
        take
        modify fun s => { s with handles := (handle, address) :: s.handles }
        directives count hasVersion
    | _ => pure ()

/-- Whether a token ends a document that has no node. -/
def endsDocument : Token → Bool
  | .versionDirective _ _ => true
  | .tagDirective _ _ => true
  | .documentStart => true
  | .documentEnd => true
  | .streamEnd => true
  | _ => false

/-- Composes the root of a document that starts with a mark. -/
def markedRoot (fuel : Nat) : Compose Node := do
  directives fuel false
  match ← peek with
  | none => return .broken
  | some ⟨.documentStart, _⟩ =>
    take
    match ← peek with
    | none => return .broken
    | some ⟨token, mark⟩ =>
      if endsDocument token then return .empty mark else node fuel true false
  | some ⟨_, mark⟩ => fail .noDocumentStart mark none

/-- Composes the root of the first document. -/
def root (fuel : Nat) : Compose Node := do
  match ← peek with
  | none => return .broken
  | some ⟨.streamEnd, mark⟩ => return .void mark
  | some ⟨token, _⟩ =>
    if endsDocument token && token != .documentEnd then markedRoot fuel else node fuel true false

/-- Skips marks that end a document, at most `count`, and tells whether something else than the end
of the text follows. -/
def hasMore : (count : Nat) → Compose Bool
  | 0 => pure false
  | count + 1 => do
    match ← peek with
    | some ⟨.documentEnd, _⟩ =>
      take
      hasMore count
    | some ⟨.streamEnd, _⟩ => return false
    | _ => return true

end Compose

/-- Reads the first document of a text. A fault behind it counts as one more document. -/
def Document.read (text : List Char) : Document :=
  match Stream.ofText text with
  | .error fault => { root := .broken, fault := some fault }
  | .ok stream =>
    let fuel := 8 * (text.length + 2)
    let (root, s) := (Compose.root fuel).run { stream }
    let (_, s) := Compose.peek.run s
    let (hasMore, _) := (Compose.hasMore fuel).run s
    { root, anchored := s.anchored, fault := s.fault, hasMore := s.fault.isNone && hasMore }

end GodotLint.Yaml
