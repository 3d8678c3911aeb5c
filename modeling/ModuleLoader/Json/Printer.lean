import ModuleLoader.Json.Basic

/-!
JSON text, compact or indented. The indented form puts each member on a line of its own, two
spaces deeper than its container; empty containers are written the same in both forms.
-/
namespace ModuleLoader.Json

def hexDigit (n : Nat) : Char :=
  Nat.digitChar n

def escapeChar (c : Char) : List Char :=
  if c = '"' then ['\\', '"']
  else if c = '\\' then ['\\', '\\']
  else if c = '\x08' then ['\\', 'b']
  else if c = '\x0c' then ['\\', 'f']
  else if c = '\n' then ['\\', 'n']
  else if c = '\r' then ['\\', 'r']
  else if c = '\t' then ['\\', 't']
  else if c.toNat < 0x20 then
    ['\\', 'u', '0', '0', hexDigit (c.toNat / 16), hexDigit (c.toNat % 16)]
  else [c]

def quote (s : String) : List Char :=
  '"' :: s.toList.flatMap escapeChar ++ ['"']

def numberText : JsonNumber → List Char
  | .integer i => (Number.integerText i).toList
  | .float x =>
    match Number.Reading.ofFloat x with
    | .finite b => (Number.jsonLayout.text b).toList
    | _ => "null".toList

def newline (depth : Nat) : List Char :=
  '\n' :: List.replicate (2 * depth) ' '

mutual

def compactOnto (rest : List Char) : Json → List Char
  | .null => "null".toList ++ rest
  | .bool true => "true".toList ++ rest
  | .bool false => "false".toList ++ rest
  | .number n => numberText n ++ rest
  | .string s => quote s ++ rest
  | .array items => '[' :: compactItemsOnto rest items
  | .object fields => '\x7b' :: compactFieldsOnto rest fields

def compactItemsOnto (rest : List Char) : List Json → List Char
  | [] => ']' :: rest
  | [last] => compactOnto (']' :: rest) last
  | item :: next :: more => compactOnto (',' :: compactItemsOnto rest (next :: more)) item

def compactFieldsOnto (rest : List Char) : List (String × Json) → List Char
  | [] => '\x7d' :: rest
  | [(key, value)] => quote key ++ ':' :: compactOnto ('\x7d' :: rest) value
  | (key, value) :: next :: more =>
    quote key ++ ':' :: compactOnto (',' :: compactFieldsOnto rest (next :: more)) value

end

mutual

/-- Indented text, put in front of more text; the value stands at a depth. -/
def prettyOnto (depth : Nat) (rest : List Char) : Json → List Char
  | .null => "null".toList ++ rest
  | .bool true => "true".toList ++ rest
  | .bool false => "false".toList ++ rest
  | .number n => numberText n ++ rest
  | .string s => quote s ++ rest
  | .array [] => '[' :: ']' :: rest
  | .array (item :: more) => '[' :: prettyItemsOnto depth rest (item :: more)
  | .object [] => '\x7b' :: '\x7d' :: rest
  | .object (field :: more) => '\x7b' :: prettyFieldsOnto depth rest (field :: more)

/-- The items of an array, each on its line, up to the closing bracket. -/
def prettyItemsOnto (depth : Nat) (rest : List Char) : List Json → List Char
  | [] => ']' :: rest
  | [last] => newline (depth + 1) ++ prettyOnto (depth + 1) (newline depth ++ ']' :: rest) last
  | item :: next :: more =>
    newline (depth + 1) ++
      prettyOnto (depth + 1) (',' :: prettyItemsOnto depth rest (next :: more)) item

/-- The members of an object, each on its line, up to the closing brace. -/
def prettyFieldsOnto (depth : Nat) (rest : List Char) : List (String × Json) → List Char
  | [] => '\x7d' :: rest
  | [(key, value)] =>
    newline (depth + 1) ++ quote key ++ ':' :: ' ' ::
      prettyOnto (depth + 1) (newline depth ++ '\x7d' :: rest) value
  | (key, value) :: next :: more =>
    newline (depth + 1) ++ quote key ++ ':' :: ' ' ::
      prettyOnto (depth + 1) (',' :: prettyFieldsOnto depth rest (next :: more)) value

end

def compact (j : Json) : String :=
  String.ofList (compactOnto [] j)

def pretty (j : Json) : String :=
  String.ofList (prettyOnto 0 [] j)

end ModuleLoader.Json
