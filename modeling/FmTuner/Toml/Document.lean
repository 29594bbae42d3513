import FmTuner.Toml.Number
import FmTuner.Toml.Quoted

/-!
# TOML documents

A document is read line by line into a tree of tables. A table remembers how it came to be, because
that decides what may still be added to it: tables with a header of their own are complete, those
that are only implied by longer headers can still get their own, and those made by dotted keys can
only grow by dotted keys and by headers below them.
-/

namespace FmTuner.Toml

inductive Origin where
  | header
  | implied
  | dotted
  deriving DecidableEq, Repr

inductive Node where
  | leaf (v : Value)
  | table (origin : Origin) (fields : List (String × Node))
  /-- The tables under a repeated header. -/
  | rows (tables : List (List (String × Node)))
  deriving Inhabited

abbrev Fields := List (String × Node)

mutual

def Node.value : Node → Value
  | .leaf v => v
  | .table _ fields => .table (fieldValues fields)
  | .rows tables => .array (rowValues tables)

def fieldValues : List (String × Node) → List (String × Value)
  | [] => []
  | (name, node) :: rest => (name, node.value) :: fieldValues rest

def rowValues : List (List (String × Node)) → List Value
  | [] => []
  | fields :: rest => .table (fieldValues fields) :: rowValues rest

end

namespace Fields

/-- Puts a node in the place of the one with its name, or at the end. -/
def put (name : String) (node : Node) : Fields → Fields
  | [] => [(name, node)]
  | (other, old) :: rest =>
      if other = name then (name, node) :: rest else (other, old) :: put name node rest

/-- Changes the fields at the end of a path, making the tables that are missing on the way. In a
dotted path those made by a header are closed. The change is told whether the table at the end was
made by a dotted key. -/
def within (dotted : Bool) (change : Bool → Fields → Option Fields) :
    List String → Bool → Fields → Option Fields
  | [], isDotted, fields => change isDotted fields
  | name :: path, _, fields =>
      match fields.lookup name with
      | none =>
          (within dotted change path dotted []).map fun sub ↦
            put name (.table (if dotted then .dotted else .implied) sub) fields
      | some (.leaf _) => none
      | some (.rows tables) =>
          match tables.getLast? with
          | none => none
          | some last =>
              (within dotted change path false last).map fun sub ↦
                put name (.rows (tables.dropLast ++ [sub])) fields
      | some (.table origin sub) =>
          if dotted && origin = .header then none
          else
            (within dotted change path (origin = .dotted) sub).map fun sub ↦
              put name (.table origin sub) fields

/-- Adds a value under a dotted key. The last table on the way must have been made by dotted keys
if there is one, and the name must be new. -/
def add (path : List String) (name : String) (v : Value) (fields : Fields) : Option Fields :=
  within true
    (fun isDotted fields ↦
      if isDotted = path.isEmpty || (fields.lookup name).isSome then none
      else some (put name (.leaf v) fields))
    path false fields

def openTable (path : List String) (name : String) (fields : Fields) : Option Fields :=
  within false
    (fun _ fields ↦
      match fields.lookup name with
      | none => some (put name (.table .header []) fields)
      | some (.table .implied sub) => some (put name (.table .header sub) fields)
      | some _ => none)
    path false fields

def openRow (path : List String) (name : String) (fields : Fields) : Option Fields :=
  within false
    (fun _ fields ↦
      match fields.lookup name with
      | none => some (put name (.rows [[]]) fields)
      | some (.rows tables) => some (put name (.rows (tables ++ [[]])) fields)
      | some _ => none)
    path false fields

end Fields

/-! ## Keys and values -/

/-- How deeply arrays and inline tables may be nested, and how long a dotted key may be. -/
def nestingLimit : Nat := 79

/-- Reads a key without dots, with the blanks around it. -/
def simpleKey (cs : List Char) : Option (Rest String) := do
  let cs := skipBlanks cs
  let (name, cs) ←
    match cs with
    | '"' :: _ => quotedLine cs
    | '\'' :: _ => quotedLine cs
    | _ =>
        let name := cs.takeWhile isBareKey
        if name = [] then none else some (String.ofList name, cs.dropWhile isBareKey)
  some (name, skipBlanks cs)

/-- Reads a dotted key of at most `fuel` parts. -/
def keyWith : Nat → List Char → Option (Rest (List String))
  | 0, _ => none
  | fuel + 1, cs => do
      let (name, cs) ← simpleKey cs
      match cs with
      | '.' :: cs =>
          let (path, cs) ← keyWith fuel cs
          some (name :: path, cs)
      | cs => some ([name], cs)

/-- Reads a dotted key: the path to the last table and the name in it. -/
def key (cs : List Char) : Option (Rest (List String × String)) := do
  let (names, cs) ← keyWith nestingLimit cs
  some ((names.dropLast, ← names.getLast?), cs)

/-- Reads a value that contains no others. -/
def scalar (cs : List Char) : Option (Rest Value) :=
  match cs with
  | [] => none
  | c :: _ =>
      if c = '"' ∨ c = '\'' then (quoted cs).map fun (s, cs) ↦ (.string s, cs)
      else if c = 't' then
        (word? ['t', 'r', 'u', 'e'] cs).map fun cs ↦ (.boolean true, cs)
      else if c = 'f' then
        (word? ['f', 'a', 'l', 's', 'e'] cs).map fun cs ↦ (.boolean false, cs)
      else number cs

/-- Reads the items of an array up to its closing bracket; a comma may follow the last. -/
def items (item : List Char → Option (Rest Value)) : Nat → List Char → Option (Rest (List Value))
  | 0, _ => none
  | fuel + 1, cs =>
      match skipLayout cs with
      | ']' :: cs => some ([], cs)
      | cs => do
          let (v, cs) ← item cs
          match skipLayout cs with
          | ',' :: cs =>
              let (vs, cs) ← items item fuel cs
              some (v :: vs, cs)
          | ']' :: cs => some ([v], cs)
          | _ => none

/-- Reads the fields of an inline table up to its closing brace; no comma follows the last. -/
def inlineFields (item : List Char → Option (Rest Value)) : Nat → Fields → List Char → Option (Rest Fields)
  | 0, _, _ => none
  | fuel + 1, fields, cs => do
      let ((path, name), cs) ← key cs
      let (v, cs) ← item (skipBlanks (← expect '=' cs))
      let fields ← fields.add path name v
      match skipBlanks cs with
      | ',' :: cs => inlineFields item fuel fields cs
      | '\x7d' :: cs => some (fields, cs)
      | _ => none

/-- Reads a value inside of which at most `depth` others are nested. -/
def valueWith : Nat → List Char → Option (Rest Value)
  | 0, cs => scalar cs
  | depth + 1, cs =>
      match cs with
      | '[' :: cs => (items (valueWith depth) (cs.length + 1) cs).map fun (vs, cs) ↦ (.array vs, cs)
      | '\x7b' :: cs =>
          match skipBlanks cs with
          | '\x7d' :: cs => some (.table [], cs)
          | cs =>
              (inlineFields (valueWith depth) (cs.length + 1) [] cs).map fun (fields, cs) ↦
                (.table (fieldValues fields), cs)
      | cs => scalar cs

def value (cs : List Char) : Option (Rest Value) := valueWith nestingLimit cs

/-! ## Lines -/

/-- The tables read so far, and the path of the table that lines are added to. -/
structure Draft where
  root : Fields := []
  current : List String := []

namespace Draft

def assignment (d : Draft) (cs : List Char) : Option (Draft × List Char) := do
  let ((path, name), cs) ← key cs
  let (v, cs) ← value (skipBlanks (← expect '=' cs))
  let cs ← lineEnd cs
  let root ← d.root.within false (fun _ fields ↦ fields.add path name v) d.current false
  some ({ d with root }, cs)

/-- Reads a line with a header, after its first bracket. -/
def header (d : Draft) (cs : List Char) : Option (Draft × List Char) :=
  match cs with
  | '[' :: cs => do
      let ((path, name), cs) ← key cs
      let cs ← lineEnd (← expect ']' (← expect ']' cs))
      some ({ root := ← d.root.openRow path name, current := path ++ [name] }, cs)
  | cs => do
      let ((path, name), cs) ← key cs
      let cs ← lineEnd (← expect ']' cs)
      some ({ root := ← d.root.openTable path name, current := path ++ [name] }, cs)

/-- Reads the lines that are left, at most `fuel` of them. -/
def lines : Nat → Draft → List Char → Option Fields
  | 0, _, _ => none
  | fuel + 1, d, cs =>
      match skipBlanks cs with
      | [] => some d.root
      | '[' :: cs => do
          let (d, cs) ← d.header cs
          lines fuel d cs
      | '#' :: cs => do lines fuel d (← lineEnd ('#' :: cs))
      | '\n' :: cs => lines fuel d cs
      | '\r' :: cs => do lines fuel d (← newline ('\r' :: cs))
      | cs => do
          let (d, cs) ← d.assignment cs
          lines fuel d cs

end Draft

/-- Reads a document. A byte order mark at its beginning does not count. -/
def parse? (s : String) : Option (List (String × Value)) :=
  let cs :=
    match s.toList with
    | '\ufeff' :: cs => cs
    | cs => cs
  (Draft.lines (cs.length + 1) {} cs).map fieldValues

end FmTuner.Toml
