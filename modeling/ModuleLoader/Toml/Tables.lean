import ModuleLoader.Dict
import ModuleLoader.Toml.Value

/-!
Tables under construction. Headers and dotted keys may each open a table once, and neither may
open what the other has opened or what an inline value has closed; these rules live here, away
from the reading of text.
-/
namespace ModuleLoader.Toml

/-- How a table came to be. -/
inductive Origin where
  /-- A header names it. -/
  | header
  /-- A header names a table below it. -/
  | implied
  /-- A dotted key leads through it. -/
  | dotted
deriving Repr, DecidableEq

/-- An entry of a table under construction. -/
inductive Node where
  | leaf (value : Toml)
  | table (origin : Origin) (entries : List (String × Node))
  | tables (items : List (List (String × Node)))

abbrev Entries := List (String × Node)

def Entries.add (entries : Entries) (key : String) (node : Node) : Option Entries :=
  if Dict.contains entries key then none else some (entries ++ [(key, node)])

/-- Enters a value under a dotted key. Only tables that dotted keys have made may be entered so,
though the way to one may lead through others that are not named by a header. -/
def Entries.insert (entries : Entries) (key : String) (value : Toml) : List String → Option Entries
  | [] => entries.add key (.leaf value)
  | part :: path =>
    match Dict.get? entries part with
    | none => do
      let below ← insert [] key value path
      entries.add part (.table .dotted below)
    | some (.table origin below) =>
      if origin = .header ∨ (path = [] ∧ origin ≠ .dotted) then none
      else do return Dict.insert entries part (.table origin (← insert below key value path))
    | some (.tables items) =>
      match path, items.reverse with
      | [], _ => none
      | _, [] => none
      | path, last :: before => do
        let last ← insert last key value path
        return Dict.insert entries part (.tables (before.reverse ++ [last]))
    | some (.leaf _) => none

/-- Changes the table at a path that headers may take: through every table, and into the last of a
list of tables. Tables that are missing on the way are made. -/
def Entries.modify (entries : Entries) (change : Entries → Option Entries) :
    List String → Option Entries
  | [] => change entries
  | part :: path =>
    match Dict.get? entries part with
    | none => do
      let below ← modify [] change path
      entries.add part (.table .implied below)
    | some (.table origin below) => do
      return Dict.insert entries part (.table origin (← modify below change path))
    | some (.tables items) =>
      match items.reverse with
      | [] => none
      | last :: before => do
        let last ← modify last change path
        return Dict.insert entries part (.tables (before.reverse ++ [last]))
    | some (.leaf _) => none

def Entries.openTable (key : String) (entries : Entries) : Option Entries :=
  match Dict.get? entries key with
  | none => entries.add key (.table .header [])
  | some (.table .implied below) => some (Dict.insert entries key (.table .header below))
  | _ => none

/-- Opens a further table in the list of tables that a header names. -/
def Entries.openItem (key : String) (entries : Entries) : Option Entries :=
  match Dict.get? entries key with
  | none => entries.add key (.tables [[]])
  | some (.tables items) => some (Dict.insert entries key (.tables (items ++ [[]])))
  | _ => none

mutual

def Node.finish : Node → Toml
  | .leaf value => value
  | .table _ entries => .table (finishEntries entries)
  | .tables items => .array (finishTables items)

def finishEntries : List (String × Node) → List (String × Toml)
  | [] => []
  | (key, node) :: rest => (key, node.finish) :: finishEntries rest

def finishTables : List (List (String × Node)) → List Toml
  | [] => []
  | entries :: rest => .table (finishEntries entries) :: finishTables rest

end

end ModuleLoader.Toml
