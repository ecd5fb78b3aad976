import VaultConsole.Toml.Statement

/-!
# TOML documents

The statements of a document make up one table. A key of several parts goes through tables, which it makes
where there are none. Nothing is defined twice: a table may have one header, a table made by keys takes no
header, and what was given as a value is not added to.
-/

namespace VaultConsole.Toml

/-- What a key leads to while a document is read. -/
inductive Part where
  /-- A value that nothing is added to. -/
  | closed (v : Toml)
  /-- A table: whether it was made on the way only, and whether that way was an assignment. -/
  | table (implied dotted : Bool) (entries : List (String × Part))
  /-- The tables of an array, latest first. -/
  | tables (items : List (List (String × Part)))
  deriving Inhabited

/-- A table while it is read. -/
structure Grid where
  implied : Bool
  dotted : Bool
  entries : List (String × Part)
  deriving Inhabited

/-- Entries with a part put under a key, in place if the key is there already. -/
def putPart (key : String) (p : Part) : List (String × Part) → List (String × Part)
  | [] => [(key, p)]
  | (k, old) :: es => if k == key then (k, p) :: es else (k, old) :: putPart key p es

/-- Changes the table at the end of a key. On the way a key goes into the latest table of an array; keys of
assignments do not go through tables that have a header. -/
def descend (dotted : Bool) (f : Grid → Option Grid) : Key → Grid → Option Grid
  | [], g => f g
  | k :: ks, g =>
    let put (p : Part) : Grid := { g with entries := putPart k p g.entries }
    let asTable (g : Grid) : Part := .table g.implied g.dotted g.entries
    match g.entries.lookup k with
    -- A missing table is made on the way, and the kind of the statement is kept with it.
    | none => (descend dotted f ks ⟨true, dotted, []⟩).map fun g => put (asTable g)
    | some (.closed _) => none
    | some (.table implied wasDotted entries) =>
      -- A table with a header of its own takes no entries through keys of several parts.
      if dotted && !implied then none
      else (descend dotted f ks ⟨implied, wasDotted, entries⟩).map fun g => put (asTable g)
    | some (.tables []) => none
    | some (.tables (last :: items)) =>
      (descend dotted f ks ⟨false, false, last⟩).map fun g => put (.tables (g.entries :: items))

/-- A key as the way to a table and the last part in it. -/
def splitKey? (key : Key) : Option (Key × String) := key.getLast?.map fun last => (key.dropLast, last)

/-- Puts a value under a key into a table. The table at the end of the way has to be one that was made by
assignments, unless the key has one part only. -/
def assign (key : Key) (v : Toml) (g : Grid) : Option Grid :=
  match splitKey? key with
  | none => none
  | some (way, last) =>
    descend true (fun g =>
      -- A key of one part goes to the table of the statement, which no assignment has made.
      if g.dotted == way.isEmpty then none
      else if (g.entries.lookup last).isSome then none
      else some { g with entries := putPart last (.closed v) g.entries }) way g

mutual

/-- The value of a part. -/
def Part.value : Part → Toml
  | .closed v => v
  | .table _ _ entries => .table (entryValues entries)
  | .tables items => .array (itemValues items).reverse

def entryValues : List (String × Part) → List (String × Toml)
  | [] => []
  | (k, p) :: es => (k, p.value) :: entryValues es

def itemValues : List (List (String × Part)) → List Toml
  | [] => []
  | es :: items => .table (entryValues es) :: itemValues items

end

mutual

/-- The value that was written, unless its keys clash. -/
def Term.value? : Term → Option Toml
  | .scalar v => some v
  | .array items => (termValues? items).map .array
  | .table entries => (assignTerms? entries ⟨false, false, []⟩).map fun g => .table (entryValues g.entries)

def termValues? : List Term → Option (List Toml)
  | [] => some []
  | t :: ts => t.value?.bind fun v => (termValues? ts).map (v :: ·)

/-- Puts the entries of an inline table into a table. -/
def assignTerms? : List (Key × Term) → Grid → Option Grid
  | [], g => some g
  | (k, t) :: es, g => t.value?.bind fun v => (assign k v g).bind fun g => assignTerms? es g

end

/-- A document while it is read: its table, and the key of the table that assignments go to. -/
structure Draft where
  grid : Grid
  current : Key
  deriving Inhabited

/-- Opens the table of a header; a table that was made on the way to another one by headers may get a header
of its own. -/
def openTable (last : String) (g : Grid) : Option Grid :=
  match g.entries.lookup last with
  | none => some { g with entries := putPart last (.table false false []) g.entries }
  | some (.table true false entries) =>
    some { g with entries := putPart last (.table false false entries) g.entries }
  | some _ => none

/-- Opens a further table of an array of tables. -/
def openItem (last : String) (g : Grid) : Option Grid :=
  match g.entries.lookup last with
  | none => some { g with entries := putPart last (.tables [[]]) g.entries }
  | some (.tables items) => some { g with entries := putPart last (.tables ([] :: items)) g.entries }
  | some _ => none

/-- A document with one more statement. -/
def Draft.add? (d : Draft) : Statement → Option Draft
  | .table key =>
    (splitKey? key).bind fun (way, last) =>
      (descend false (openTable last) way d.grid).map fun grid => ⟨grid, key⟩
  | .item key =>
    (splitKey? key).bind fun (way, last) =>
      (descend false (openItem last) way d.grid).map fun grid => ⟨grid, key⟩
  | .assignment key term =>
    term.value?.bind fun v =>
      (descend false (assign key v) d.current d.grid).map fun grid => ⟨grid, d.current⟩

/-- A document with further statements. -/
def Draft.addAll? (d : Draft) : List Statement → Option Draft
  | [] => some d
  | s :: ss => (d.add? s).bind fun d => d.addAll? ss

/-- A document without statements. -/
def Draft.empty : Draft := ⟨⟨false, false, []⟩, []⟩

/-- The table that a text holds, if it is a document. -/
def read? (text : String) : Option (List (String × Toml)) :=
  (statements? text).bind fun ss => (Draft.empty.addAll? ss).map fun d => entryValues d.grid.entries

end VaultConsole.Toml
