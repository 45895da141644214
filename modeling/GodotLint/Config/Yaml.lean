import GodotLint.Config.Schema
import GodotLint.Text.Basic
import GodotLint.Yaml.Meaning

/-!
# Configurations as YAML documents

A configuration is a mapping with some of its keys, or a sequence of the first few of their values.
Keys that it does not have are skipped, and an empty value leaves the defaults. The first mistake in
the order of the document is reported with the path of keys that leads to it; where the document
itself is at fault, what stands before the fault is looked at first.
-/

namespace GodotLint

open Yaml

/-! ## Mistakes -/

/-- A step to a part of a document. -/
inductive DocumentStep where
  | item (index : Nat)
  | member (key : String)
  /-- A member whose key is not written as a scalar. -/
  | unnamed
  deriving DecidableEq, Repr

/-- The steps to a part of a document, the last one first. -/
abbrev DocumentPath := List DocumentStep

/-- The written form of a path. -/
def DocumentPath.render : DocumentPath → String
  | [] => "."
  | .item index :: rest => DocumentPath.render rest ++ "[" ++ toString index ++ "]"
  | .member key :: [] => key
  | .member key :: rest => DocumentPath.render rest ++ "." ++ key
  | .unnamed :: [] => "?"
  | .unnamed :: rest => DocumentPath.render rest ++ ".?"

/-- What a value must not be. -/
inductive ValueMistake where
  /-- A value of another type. -/
  | type (found expected : String)
  /-- A text that is not what its tag says. -/
  | tagged (text expected : String)
  | repeatedKey (key : String)
  | length (found expected : Nat)
  deriving DecidableEq, Repr

/-- The words for a mistake. -/
def ValueMistake.message : ValueMistake → String
  | .type found expected => "invalid type: " ++ found ++ ", expected " ++ expected
  | .tagged text expected =>
    "invalid value: string " ++ Text.quotedString text ++ ", expected " ++ expected
  | .repeatedKey key => "duplicate field \x60" ++ key ++ "\x60"
  | .length found expected =>
    "invalid length " ++ toString found ++ ", expected sequence of " ++ toString expected ++
      if expected = 1 then " element" else " elements"

/-- Why a document is no configuration. -/
inductive DocumentFault where
  /-- The document cannot be read. -/
  | malformed (fault : Yaml.Fault)
  | severalDocuments
  | endOfText
  | mistake (path : DocumentPath) (mark : Mark) (what : ValueMistake)
  /-- A mistake that is told at the place of the structure around it. -/
  | unplaced (what : ValueMistake)
  deriving DecidableEq, Repr

/-- The words for a fault. -/
def DocumentFault.message : DocumentFault → String
  | .malformed fault => fault.message
  | .severalDocuments =>
    "deserializing from YAML containing more than one document is not supported"
  | .endOfText => "EOF while parsing a value"
  | .mistake path mark what =>
    (if path.isEmpty then "" else path.render ++ ": ") ++ what.message ++ mark.words
  | .unplaced what => what.message

/-- The fault with its place, if it has none yet. -/
def DocumentFault.placedAt (path : DocumentPath) (mark : Mark) : DocumentFault → DocumentFault
  | .unplaced what => .mistake path mark what
  | fault => fault

/-! ## Values -/

namespace Yaml.Document

/-- The fault of a document that is needed beyond the place where reading stopped. -/
def stopped (d : Document) : DocumentFault :=
  match d.fault with
  | some fault => .malformed fault
  | none => .endOfText

/-- The words for what a plain scalar stands for. -/
def meaningWords (text : String) : Meaning → String
  | .null => "unit value"
  | .bool b => "boolean \x60" ++ toString b ++ "\x60"
  | .integer n =>
    "integer \x60" ++ toString n ++ "\x60" ++
      if !Meaning.isWide n then "" else if n < 0 then " as i128" else " as u128"
  | .real x => "floating point \x60" ++ str (Decimal.plain x) ++ "\x60"
  | .text => "string " ++ Text.quotedString text

/-- The start of the names of common tags. -/
def commonTag (name : String) : String := "tag:yaml.org,2002:" ++ name

/-- The mistake of a scalar that is not what is expected. -/
def scalarMistake (s : Scalar) (expected : String) : ValueMistake :=
  let meant (m : Meaning) : ValueMistake := .type (meaningWords s.text m) expected
  let orTagged (m : Option Meaning) (what : String) : ValueMistake :=
    (m.map meant).getD (.tagged s.text what)
  match s.tag with
  | some tag =>
    if tag == commonTag "bool" then
      orTagged ((Meaning.bools.lookup s.text).map .bool) "a boolean"
    else if tag == commonTag "int" then
      orTagged ((Meaning.integer? s.text.toList).map .integer) "an integer"
    else if tag == commonTag "float" then
      orTagged ((Meaning.real? s.text.toList).map .real) "a float"
    else if tag == commonTag "null" then
      orTagged (if Meaning.nulls.contains s.text then some .null else none) "null"
    else if tag.startsWith "!" && s.style == .plain then meant (.ofPlain s.text)
    else meant .text
  | none => meant (if s.style == .plain then .ofPlain s.text else .text)

/-- The fault of a node that is not what is expected. -/
def refuse (d : Document) (path : DocumentPath) (node : Node) (expected : String) : DocumentFault :=
  match node with
  | .scalar mark s => .mistake path mark (scalarMistake s expected)
  | .seq mark _ => .mistake path mark (.type "sequence" expected)
  | .map mark _ => .mistake path mark (.type "map" expected)
  | .alias _ _ => .endOfText
  | .void _ => .endOfText
  | .broken => d.stopped

/-- Whether a scalar may be read as a value of a type: it is plain, or a literal block whose tag
names the type. -/
def isReadable (s : Scalar) (type : String) : Bool :=
  s.style == .plain || (s.style == .literal && s.tag == some (commonTag type))

/-- Whether a node is an empty value. -/
def isEmptyValue : Node → Bool
  | .scalar _ s => s.text.isEmpty && s.style == .plain
  | .void _ => true
  | _ => false

/-- A natural number; `type` is what its range is called. -/
def natural (d : Document) (path : DocumentPath) (type : String) (node : Node) :
    Except DocumentFault Nat :=
  let node := d.target node
  let number? := match node with
    | .scalar _ s =>
      if isReadable s "int" then
        (Meaning.natural s.text.toList).filter (· ≤ Meaning.maxNatural)
      else none
    | _ => none
  match number? with
  | some n => .ok n
  | none => .error (d.refuse path node type)

/-- A text, which every scalar is. -/
def text (d : Document) (path : DocumentPath) (expected : String) (node : Node) :
    Except DocumentFault String :=
  match d.target node with
  | .scalar _ s => .ok s.text
  | node => .error (d.refuse path node expected)

/-- The texts of some items, the first of which has the given index. -/
def textItems (d : Document) (path : DocumentPath) (index : Nat) :
    List Node → Except DocumentFault (List String)
  | [] => .ok []
  | item :: rest => do
    let s ← d.text (.item index :: path) "a string" item
    return s :: (← textItems d path (index + 1) rest)

/-- A list of texts. -/
def texts (d : Document) (path : DocumentPath) (node : Node) : Except DocumentFault (List String) :=
  match d.target node with
  | .seq _ items => d.textItems path 0 items
  | node => if isEmptyValue node then .ok [] else .error (d.refuse path node "a sequence")

/-- A bound or nothing. -/
def bound (d : Document) (path : DocumentPath) (node : Node) :
    Except DocumentFault (Option Float) :=
  match d.target node with
  | .void _ => .ok none
  | .scalar mark s =>
    let isNull := if s.tag.isSome then Meaning.nulls.contains s.text else Meaning.isNull s.text
    let mayBeNull := s.style == .plain && (s.tag.isNone || s.tag == some (commonTag "null"))
    if mayBeNull && isNull then .ok none
    else if mayBeNull && s.tag.isSome then .error (.unplaced (.tagged s.text "null"))
    else
      match if isReadable s "float" then Meaning.real? s.text.toList else none with
      | some x => .ok (some x)
      | none => .error (d.refuse path (.scalar mark s) "f64")
  | node => .error (d.refuse path node "f64")

/-! ## Structures -/

/-- The step to the value of an entry. -/
def stepTo : Node → DocumentStep
  | .scalar _ s => .member s.text
  | _ => .unnamed

/-- Reads the entries of a mapping that stands for a structure. `readKey` reads the value of a key
that the structure has; such a key must not come twice. -/
def foldEntries (d : Document) (path : DocumentPath)
    (readKey : String → DocumentPath → Node → σ → Option (Except DocumentFault σ)) :
    (seen : List String) → List (Node × Node) → σ → Except DocumentFault σ
  | _, [], c => .ok c
  | seen, (key, value) :: rest, c => do
    let name ← d.text path "field identifier" key
    match readKey name (stepTo key :: path) value c with
    | none =>
      if value.isBroken then .error d.stopped else foldEntries d path readKey seen rest c
    | some read =>
      if seen.contains name then .error (.unplaced (.repeatedKey name))
      else foldEntries d path readKey (name :: seen) rest (← read)

/-- Reads a structure from a mapping, a sequence or an empty value. `readItems` reads values by
their places and `count` is their number. -/
def record (d : Document) (path : DocumentPath) (type : String) (count : Nat)
    (readKey : String → DocumentPath → Node → σ → Option (Except DocumentFault σ))
    (readItems : List Node → σ → Except DocumentFault σ) (node : Node) (c : σ) :
    Except DocumentFault σ :=
  match d.target node with
  | .map mark entries => (foldEntries d path readKey [] entries c).mapError (·.placedAt path mark)
  | .seq mark items => do
    let c ← (readItems items c).mapError (·.placedAt path mark)
    if (items.drop count).any (·.isBroken) then .error d.stopped
    else if count < items.length then
      .error (.mistake path mark (.length items.length count))
    else return c
  | node => if isEmptyValue node then .ok c else .error (d.refuse path node ("struct " ++ type))

/-! ## Overrides -/

/-- An override. -/
def override (d : Document) (path : DocumentPath) (node : Node) :
    Except DocumentFault ThresholdOverride :=
  let schema := ThresholdOverride.schema
  d.record path ThresholdOverride.typeName schema.length
    (fun name path value o => (schema.lookup name).map fun (_, set) =>
      (d.bound path value).map fun x => set x o)
    (fun items o => ((schema.zip items).zipIdx).foldlM (fun o (((_, _, set), item), index) =>
      (d.bound (.item index :: path) item).map fun x => set x o) o)
    node {}

/-- Overrides by the id of a check, a later one replacing an earlier one. -/
def overrides (d : Document) (path : DocumentPath) (node : Node) :
    Except DocumentFault (SortedMap ThresholdOverride) :=
  match d.target node with
  | .map _ entries =>
    entries.foldlM (fun m (key, value) => do
      let name ← d.text path "a string" key
      return m.insert name (← d.override (stepTo key :: path) value)) .empty
  | node => if isEmptyValue node then .ok .empty else .error (d.refuse path node "a map")

end Yaml.Document

/-! ## Configurations -/

mutual

/-- Reads a setting of a configuration. -/
def Setting.readNode (d : Document) (path : DocumentPath) (node : Node) (c : Config) :
    Setting → Except DocumentFault Config
  | .natural type _ set => (d.natural path type node).map (set · c)
  | .texts _ set => (d.texts path node).map (set · c)
  | .overrides => (d.overrides path node).map fun thresholds => { c with thresholds }
  | .group type entries =>
    d.record path type entries.length
      (fun name path node c => readMember d name path node c entries)
      (fun items c => readItems d path 0 items c entries) node c

/-- Reads the value of a key, if there is a setting of that name. -/
def Setting.readMember (d : Document) (name : String) (path : DocumentPath) (node : Node)
    (c : Config) : List (String × Setting) → Option (Except DocumentFault Config)
  | [] => none
  | (key, s) :: rest =>
    if key == name then some (s.readNode d path node c) else readMember d name path node c rest

/-- Reads settings by their places, the first of which has the given index. -/
def Setting.readItems (d : Document) (path : DocumentPath) (index : Nat) (items : List Node)
    (c : Config) : List (String × Setting) → Except DocumentFault Config
  | [] => .ok c
  | (_, s) :: rest =>
    match items with
    | [] => .ok c
    | item :: items => do
      let c ← s.readNode d (.item index :: path) item c
      readItems d path (index + 1) items c rest

end

namespace Config

/-- The configuration that a document holds. -/
def ofDocument (d : Document) : Except DocumentFault Config := do
  let c ← Setting.readNode d [] d.root {} (.group typeName schema)
  match d.fault with
  | some fault => .error (.malformed fault)
  | none => if d.hasMore then .error .severalDocuments else return c

/-- The configuration that a text holds. A blank text holds the default one. -/
def ofText (text : List Char) : Except DocumentFault Config :=
  if Text.isAllBlank text then .ok {} else ofDocument (.read text)

end Config

end GodotLint
