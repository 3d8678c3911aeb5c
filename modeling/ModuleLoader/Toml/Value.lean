/-!
TOML values. Dates and times are told apart from everything else, but not from each other.
-/
namespace ModuleLoader

/-- A TOML value. -/
inductive Toml where
  | string (text : String)
  | integer (value : Int)
  | float (value : Float)
  | boolean (value : Bool)
  | datetime
  | array (items : List Toml)
  | table (fields : List (String × Toml))

end ModuleLoader
