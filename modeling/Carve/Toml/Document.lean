import Carve.Toml.Basic
/-!
Putting the lines of a TOML text together. A header opens a table once, or adds a table to a list
of tables; dotted keys open tables of their own, which nothing but dotted keys may add to. What a
line writes is never replaced by another.
-/

namespace Carve.Toml

inductive Opening where
  /-- By a header of its own. -/
  | header
  /-- On the way to a table with a header. -/
  | between
  | dotted
  deriving DecidableEq, Repr

/-- Part of a text that is still being put together. Values are complete. -/
inductive Item where
  | value (v : Toml)
  | table (opening : Opening) (fields : List (String × Item))
  | tables (items : List (List (String × Item)))

abbrev Fields := List (String × Item)

namespace Item

instance : Inhabited Item := ⟨table .between []⟩

mutual
def toToml : Item → Toml
  | value v => v
  | table _ fields => .table (fieldsToToml fields)
  | tables items => .array (itemsToToml items)

def fieldsToToml : List (String × Item) → List (String × Toml)
  | [] => []
  | (name, item) :: rest => (name, item.toToml) :: fieldsToToml rest

def itemsToToml : List (List (String × Item)) → List Toml
  | [] => []
  | fields :: rest => .table (fieldsToToml fields) :: itemsToToml rest
end

end Item

namespace Fields

def set (name : String) (item : Item) : Fields → Fields
  | [] => [(name, item)]
  | (n, i) :: rest => if n = name then (n, item) :: rest else (n, i) :: set name item rest

def inLast (f : Fields → Option Fields) (items : List Fields) : Option Item := do
  let last ← items.getLast?
  return .tables (items.dropLast ++ [← f last])

/-- Puts a value under a dotted key. Unless the key is plain, the table that the value goes into
must have been opened by dotted keys. -/
def put (value : Toml) : Bool → List String → Fields → Option Fields
  | _, [], _ => none
  | isOpen, [name], fields =>
    match fields.lookup name with
    | some _ => none
    | none => if isOpen then some (fields ++ [(name, .value value)]) else none
  | _, name :: path, fields =>
    match fields.lookup name with
    | none => do return fields ++ [(name, .table .dotted (← put value true path []))]
    | some (.table .dotted inner) => do
      return set name (.table .dotted (← put value true path inner)) fields
    | some (.table .between inner) => do
      return set name (.table .between (← put value false path inner)) fields
    | some (.tables items) => do
      return set name (← inLast (put value false path) items) fields
    | some (.table .header _) | some (.value _) => none

/-- Changes what a header's path leads to. Tables on the way are opened as needed. -/
def descend (change : Option Item → Option Item) : List String → Fields → Option Fields
  | [], _ => none
  | [name], fields => do return set name (← change (fields.lookup name)) fields
  | name :: path, fields =>
    match fields.lookup name with
    | none => do return fields ++ [(name, .table .between (← descend change path []))]
    | some (.table opening inner) => do
      return set name (.table opening (← descend change path inner)) fields
    | some (.tables items) => do return set name (← inLast (descend change path) items) fields
    | some (.value _) => none

end Fields

structure Section where
  path : List String := []
  /-- The header adds to a list of tables. -/
  isElement : Bool := false
  entries : List (List String × Toml) := []

namespace Section

def fill (s : Section) (fields : Fields) : Option Fields :=
  s.entries.foldlM (fun fields e => Fields.put e.2 true e.1 fields) fields

/-- A table that was only passed through may still get its header. -/
def openTable (s : Section) : Option Item → Option Item
  | none => do return .table .header (← s.fill [])
  | some (.table .between fields) => do return .table .header (← s.fill fields)
  | some _ => none

def addTable (s : Section) : Option Item → Option Item
  | none => do return .tables [← s.fill []]
  | some (.tables items) => do return .tables (items ++ [← s.fill []])
  | some _ => none

def addTo (fields : Fields) (s : Section) : Option Fields :=
  if s.path.isEmpty then s.fill fields
  else Fields.descend (if s.isElement then s.addTable else s.openTable) s.path fields

end Section

def ofSections? (sections : List Section) : Option Toml := do
  return .table (Item.fieldsToToml (← sections.foldlM Section.addTo []))

def ofEntries? (entries : List (List String × Toml)) : Option Toml :=
  ofSections? [{ entries }]

end Carve.Toml
