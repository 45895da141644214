import GodotLint.Check.Basic

/-!
# Check of inheritance

The chain of bases of a script is followed until it reaches a root class, leaves the project or
comes back to a script that it has visited.
-/

namespace GodotLint

/-- The chain of bases of a script, which it starts with. -/
structure Chain where
  links : List String
  /-- The chain came back to a script that it had visited. -/
  isCycle : Bool
  deriving DecidableEq, Repr

namespace Chain

/-- The number of steps from a script to a base. -/
def depth (c : Chain) : Nat := c.links.length - 1

/-- A link in front of a chain. -/
def cons (link : String) (c : Chain) : Chain := { c with links := link :: c.links }

/-- The chain that ends here. -/
def nil : Chain := ⟨[], false⟩

/-- How a script is called in chains: by its class, or else by its path. -/
def label (ix : Index) (file : String) : String := (ix.classOfFile.get? file).getD file

/-- The name of a base and the file that declares it, as seen from a file. -/
def step (ix : Index) (file : String) (base : Extends) : String × Option String :=
  if base.isPath then
    match Path.resolveString? file base.target with
    | some path => (label ix path, some path)
    | none => (base.target, none)
  else (base.target, ix.classFile? base.target)

/-- The chain from the base of `file` on, at most `count` steps; `visited` lists the files on the
way. -/
def follow (p : Project) : (count : Nat) → (visited : List String) → (file : String) →
    Option Extends → Chain
  | 0, _, _, _ => nil
  | _, _, _, none => nil
  | count + 1, visited, file, some base =>
    let (name, next) := step p.index file base
    cons name <|
      if Builtin.roots.contains name then nil
      else
        match next with
        | none => nil
        | some next =>
          if visited.contains next then ⟨[], true⟩
          else follow p count (next :: visited) next ((p.script? next).bind (·.facts.base))

/-- The chain of a script. Every step but the last two enters another script of the project. -/
def ofScript (p : Project) (s : Script) : Chain :=
  cons (label p.index s.path) (follow p (p.scripts.length + 2) [s.path] s.path s.facts.base)

end Chain

namespace Check

/-- The issue of a chain that comes back or is too long. -/
def chainIssue? (limit : Nat) (file : String) (line : Nat) (chain : Chain) : Option Issue :=
  let shown := joinWith " -> " chain.links
  if chain.isCycle then some
    { check := "inheritance", file, line, kind := "inheritance_cycle"
      message := "extends cycle: " ++ shown
      severity := .error }
  else if limit < chain.depth then some
    { check := "inheritance", file, line, kind := "deep_inheritance"
      message := "inheritance depth " ++ toString chain.depth ++ " exceeds " ++ toString limit ++
        ": " ++ shown
      severity := .warning
      suggestion := some "prefer composition over another subclass level" }
  else none

/-- Chains of bases end, and are not too long. -/
def inheritance : Check where
  id := "inheritance"
  name := "Inheritance depth"
  category := .codeStructure
  threshold := { metric := "summary.cycles", failIfGe := some 1.0 }
  run c :=
    let limit := c.limit c.config.inheritanceDepth
    let chains := c.scripts.filterMap fun s =>
      s.facts.base.map fun base => (s.path, base.line, Chain.ofScript c.project s)
    let issues := chains.filterMap fun (file, line, chain) => chainIssue? limit file line chain
    .finished
      { summary := .ofList [
          ("max_depth", .nat (chains.foldl (fun d (_, _, chain) => max d chain.depth) 0)),
          ("deep_chains", countKind "deep_inheritance" issues),
          ("cycles", countKind "inheritance_cycle" issues),
          ("limit", .nat limit)]
        issues }

end Check

end GodotLint
