import GodotLint.Config.Document
import GodotLint.Main
import GodotLint.Pattern.Render
import GodotLint.Proofs.Fix.Relexing
import GodotLint.Proofs.Fix.Spans
import GodotLint.Proofs.Fix.Preload
import GodotLint.Proofs.Fix.Readback
import GodotLint.Proofs.Fix.Spot
import GodotLint.Proofs.Fix.Written
import GodotLint.Proofs.Graph.Enumeration
import GodotLint.Proofs.Graph.LoadOrder
import GodotLint.Proofs.Graph.Cutoff
import GodotLint.Proofs.Line.Scanners
import GodotLint.Proofs.Check.Autoloads
import GodotLint.Proofs.Check.AutoloadUse
import GodotLint.Proofs.Float.Counts
import GodotLint.Proofs.Index.Growth
import GodotLint.Proofs.Run.Status
import GodotLint.Proofs.Check.CyclicImports
import GodotLint.Proofs.Check.Naming
import GodotLint.Proofs.Run.Failure
import GodotLint.Proofs.Script.Comments
import GodotLint.Proofs.Offset.Fix
import GodotLint.Proofs.Project.MissingFiles
import GodotLint.Proofs.Run.Projection
import GodotLint.Proofs.Run.Comments
import GodotLint.Proofs.Run.Directives
import GodotLint.Proofs.Script.Mentions
import GodotLint.Proofs.Check.Pitfalls
import GodotLint.Proofs.Check.State
import GodotLint.Proofs.Check.DeadCode
import GodotLint.Proofs.Script.Ranges
import GodotLint.Proofs.Check.Hierarchy
import GodotLint.Proofs.Script.Labels
import GodotLint.Proofs.Check.Branches
import GodotLint.Proofs.Check.Coupling
import GodotLint.Proofs.Check.ClassNames
import GodotLint.Proofs.Check.Duplicates
import GodotLint.Proofs.Naming.Stems
import GodotLint.Proofs.Check.KeyTypos
import GodotLint.Proofs.Project.Paths
import GodotLint.Proofs.Project.SceneTree
import GodotLint.Proofs.Settings.Recovery
import GodotLint.Proofs.Script.Tabs
import GodotLint.Proofs.Script.Nesting
import GodotLint.Proofs.Script.Literals
import GodotLint.Proofs.Project.Discovery
import GodotLint.Proofs.Script.Enums
import GodotLint.Proofs.Graph.Records
import GodotLint.Proofs.Offset.NumberTokens
import GodotLint.Proofs.Check.TopLevel
import GodotLint.Proofs.Check.Screens
