import FmTuner.Text.Bytes
import FmTuner.Toml.Value

/-!
# Printing TOML

Every table is printed under a header of its own: first its plain fields, then the tables below it.
A table that holds nothing but tables needs no header. Tables are set apart by blank lines.
-/

namespace FmTuner.Toml

/-- The text of a character inside a basic string: control characters are written by number. -/
def quotedChar (c : Char) : List Char :=
  if c = '"' ∨ c = '\\' then ['\\', c]
  else if c.toNat < 0x20 ∨ c.toNat = 0x7f then
    ['\\', 'u', '0', '0', Text.hexDigit (c.toNat / 16), Text.hexDigit (c.toNat % 16)]
  else [c]

mutual

def valueChars : Value → List Char
  | .string s => '"' :: s.toList.flatMap quotedChar ++ ['"']
  | .integer i => (toString i).toList
  | .boolean b => (toString b).toList
  | .float literal => literal.toList
  | .datetime literal => literal.toList
  | .array items => '[' :: itemsChars items ++ [']']
  | .table fields => '\x7b' :: ' ' :: fieldsChars fields ++ [' ', '\x7d']

def itemsChars : List Value → List Char
  | [] => []
  | [v] => valueChars v
  | v :: rest => valueChars v ++ ',' :: ' ' :: itemsChars rest

def fieldsChars : List (String × Value) → List Char
  | [] => []
  | [(name, v)] => name.toList ++ " = ".toList ++ valueChars v
  | (name, v) :: rest =>
      name.toList ++ " = ".toList ++ valueChars v ++ ',' :: ' ' :: fieldsChars rest

end

def isTabular : Value → Bool
  | .table _ => true
  | .array (.table _ :: _) => true
  | _ => false

/-- The header line of a table, repeated if it is one of several, and its plain fields. -/
def plainLines (path : List String) (repeated : Bool) (fields : List (String × Value)) :
    List String :=
  let plain := fields.filter fun (_, v) ↦ !isTabular v
  let name := String.intercalate "." path
  let header := if repeated then s!"[[{name}]]" else s!"[{name}]"
  let lines := plain.map fun (name, v) ↦ s!"{name} = {String.ofList (valueChars v)}"
  if path = [] then lines
  else if plain = [] && !fields.isEmpty && !repeated then []
  else header :: lines

mutual

/-- The blocks of lines of a table and the tables below it. -/
def blocks (path : List String) (repeated : Bool) : Value → List (List String)
  | .table fields => plainLines path repeated fields :: fieldBlocks path fields
  | .array items => rowBlocks path items
  | _ => []

def fieldBlocks (path : List String) : List (String × Value) → List (List String)
  | [] => []
  | (name, v) :: rest => blocks (path ++ [name]) false v ++ fieldBlocks path rest

def rowBlocks (path : List String) : List Value → List (List String)
  | [] => []
  | v :: rest => blocks path true v ++ rowBlocks path rest

end

def documentLines (fields : List (String × Value)) : List String :=
  let parts := (blocks [] false (.table fields)).filter fun block ↦ !block.isEmpty
  List.intercalate [""] parts

end FmTuner.Toml
