import ModuleLoader.Main
import ModuleLoader.Proofs.Once
import ModuleLoader.Proofs.States
import ModuleLoader.Proofs.Surfacing
import ModuleLoader.Proofs.Depth
import ModuleLoader.Proofs.Exits
import ModuleLoader.Proofs.Chains
import ModuleLoader.Proofs.Globals
import ModuleLoader.Proofs.Coverage
import ModuleLoader.Proofs.Spans
import ModuleLoader.Proofs.Isolation
import ModuleLoader.Proofs.Accounts
import ModuleLoader.Proofs.Nesting
import ModuleLoader.Proofs.Canonical
import ModuleLoader.Proofs.Depictions
import ModuleLoader.Proofs.Identifiers
import ModuleLoader.Proofs.Destinations
import ModuleLoader.Proofs.Climbs
import ModuleLoader.Proofs.Acceptable
import ModuleLoader.Proofs.Refusals
import ModuleLoader.Proofs.Dispatch
import ModuleLoader.Proofs.Characters
import ModuleLoader.Proofs.Joins
import ModuleLoader.Proofs.IndexKeys
import ModuleLoader.Proofs.Hoisting
import ModuleLoader.Proofs.Escapes
import ModuleLoader.Proofs.Separators
import ModuleLoader.Proofs.Concatenations
import ModuleLoader.Proofs.Limits
import ModuleLoader.Proofs.Renderings
import ModuleLoader.Proofs.Assignments
import ModuleLoader.Proofs.Orderings
import ModuleLoader.Proofs.InterpreterLines
import ModuleLoader.Proofs.Progress
