import UmlText.Settings.Value

/-!
# Tables under construction

While a configuration file is read, each table keeps how it came about, because that decides what
may be added to it. A table that is only on the way to another may get fields by dotted keys and
may still get a header; one made by dotted keys gets no header; one that has had its header gets
neither another nor fields by dotted keys from outside.
-/

namespace UmlText.Toml

/-- How a table came about. -/
inductive Origin where
  /-- On the way of a header to a table inside it. -/
  | implied
  /-- By dotted keys. -/
  | dotted
  /-- By its own header. -/
  | declared
deriving DecidableEq, Repr, Inhabited

/-- What stands behind a key so far. -/
inductive Node where
  | value (value : ConfigValue)
  | table (origin : Origin) (fields : List (String × Node))
  /-- A list of tables, the last one first. -/
  | tables (items : List (List (String × Node)))
deriving Inhabited

/-- The fields of a table under construction, in the order of their first mention. -/
abbrev Fields := List (String × Node)

/-- Changes what stands behind a key; a new key goes to the end. -/
def edit? (key : String) (change : Option Node → Option Node) : Fields → Option Fields
  | [] => do return [(key, ← change none)]
  | (k, node) :: rest =>
    if k = key then do return (k, ← change (some node)) :: rest
    else do return (k, node) :: (← edit? key change rest)

/-- Changes the fields of the table that a header leads through, of a list of tables those of the
last one. -/
def through? (change : Fields → Option Fields) : Option Node → Option Node
  | none => do return .table .implied (← change [])
  | some (.table origin fields) => do return .table origin (← change fields)
  | some (.tables (last :: earlier)) => do return .tables ((← change last) :: earlier)
  | some (.tables []) | some (.value _) => none

/-- Changes the table at the path of a header. -/
def inTable? (change : Fields → Option Fields) : List String → Fields → Option Fields
  | [], fields => change fields
  | key :: path, fields => edit? key (through? (inTable? change path)) fields

/-- Gives a table its header. -/
def declare? : Option Node → Option Node
  | none => some (.table .declared [])
  | some (.table .implied fields) => some (.table .declared fields)
  | some _ => none

/-- Starts a new table of a list. -/
def append? : Option Node → Option Node
  | none => some (.tables [[]])
  | some (.tables items) => some (.tables ([] :: items))
  | some _ => none

/-- Opens what the path of a header names. -/
def openHeader? (change : Option Node → Option Node) (path : List String) (fields : Fields) :
    Option Fields := do
  inTable? (edit? (← path.getLast?) change) path.dropLast fields

/-- Gives a value to a dotted key. The key leads through tables that have had no header, and through
the last table of a list; the latter is closed itself, but not the tables inside it. -/
def assign? (value : ConfigValue) : List String → Fields → Option Fields
  | [], _ => none
  | [key], fields =>
    edit? key (fun node => if node.isSome then none else some (.value value)) fields
  | key :: path, fields =>
    edit? key
      (fun
        | none => do return .table .dotted (← assign? value path [])
        | some (.table .declared _) => none
        | some (.table origin inner) => do return .table origin (← assign? value path inner)
        | some (.tables (last :: earlier)) =>
          if path.length = 1 then none
          else do return .tables ((← assign? value path last) :: earlier)
        | some (.tables []) | some (.value _) => none)
      fields

mutual

/-- The value of a finished node. -/
def Node.toValue : Node → ConfigValue
  | .value value => value
  | .table _ fields => .table (fieldValues fields)
  | .tables items => .list (itemValues items).reverse false

def fieldValues : List (String × Node) → ConfigFields
  | [] => []
  | (key, node) :: rest => (key, node.toValue) :: fieldValues rest

def itemValues : List (List (String × Node)) → List ConfigValue
  | [] => []
  | fields :: rest => .table (fieldValues fields) :: itemValues rest

end

end UmlText.Toml
