import RenderVerdict.Number.Binary

/-! TOML values, and tables as headers and dotted keys build them up. -/
namespace RenderVerdict.Toml

inductive Value where
  | string (text : String)
  | integer (value : Int)
  | float (value : Double)
  | boolean (value : Bool)
  | datetime (text : String)
  | array (items : List Value)
  | table (fields : List (String × Value))
deriving Inhabited

mutual

inductive Item where
  | value (value : Value)
  | table (table : Table)
  /-- The tables of one name with headers in double brackets. -/
  | tables (elements : List Table)

/-- A table while a document is read: whether it came to be only as part of a longer path, whether
dotted keys made it, and its entries. -/
inductive Table where
  | mk (implicit dotted : Bool) (entries : List (String × Item))

end

namespace Table

def empty : Table := ⟨false, false, []⟩

instance : Inhabited Table := ⟨empty⟩

def implicit : Table → Bool
  | ⟨implicit, _, _⟩ => implicit

def dotted : Table → Bool
  | ⟨_, dotted, _⟩ => dotted

def entries : Table → List (String × Item)
  | ⟨_, _, entries⟩ => entries

def put (key : String) (item : Item) : Table → Table
  | ⟨implicit, dotted, entries⟩ =>
    if (entries.lookup key).isSome then
      ⟨implicit, dotted, entries.map fun entry => if entry.1 = key then (key, item) else entry⟩
    else ⟨implicit, dotted, entries ++ [(key, item)]⟩

/-- Changes the table at the end of a path. Tables that are not there are made on the way; of
tables with double brackets the last is meant. A path of dotted keys leads only through tables
that dotted keys or longer paths made. -/
def modify (byDots : Bool) (change : Table → Option Table) : List String → Table → Option Table
  | [], table => change table
  | key :: path, table => do
    match table.entries.lookup key with
    | none => return table.put key (.table (← modify byDots change path ⟨true, byDots, []⟩))
    | some (.table inner) =>
      if byDots && !inner.implicit then none
      else return table.put key (.table (← modify byDots change path inner))
    | some (.tables elements) =>
      let last ← elements.getLast?
      return table.put key (.tables (elements.dropLast ++ [← modify byDots change path last]))
    | some (.value _) => none

/-- Puts a value under a key that is new. A table made by dotted keys takes more entries from
dotted keys only, and any other takes them from plain keys only. -/
def define (plain : Bool) (key : String) (value : Value) (table : Table) : Option Table :=
  if table.dotted == plain || (table.entries.lookup key).isSome then none
  else some (table.put key (.value value))

def assign (path : List String) (key : String) (value : Value) (table : Table) : Option Table :=
  table.modify true (define path.isEmpty key value) path

/-- Opens the table of a header: a new one, or one that so far only lies on longer paths. -/
def openTable (key : String) (table : Table) : Option Table :=
  match table.entries.lookup key with
  | none => some (table.put key (.table empty))
  | some (.table ⟨true, false, entries⟩) => some (table.put key (.table ⟨false, false, entries⟩))
  | some _ => none

def openElement (key : String) (table : Table) : Option Table :=
  match table.entries.lookup key with
  | none => some (table.put key (.tables [empty]))
  | some (.tables elements) => some (table.put key (.tables (elements ++ [empty])))
  | some _ => none

mutual

def itemValue : Item → Value
  | .value value => value
  | .table table => .table (fields table)
  | .tables elements => .array (elementValues elements)

def elementValues : List Table → List Value
  | [] => []
  | element :: rest => .table (fields element) :: elementValues rest

def entryValues : List (String × Item) → List (String × Value)
  | [] => []
  | (key, item) :: rest => (key, itemValue item) :: entryValues rest

def fields : Table → List (String × Value)
  | ⟨_, _, entries⟩ => entryValues entries

end

end Table

end RenderVerdict.Toml
