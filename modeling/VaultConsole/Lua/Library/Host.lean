import VaultConsole.FrontMatter
import VaultConsole.Lua.Library.Arguments
import VaultConsole.Text.Utf8
import VaultConsole.Yaml.Reader

/-!
# Functions of the host

Printing and logging, and the questions that a script asks about the vault. Whatever goes wrong in one of
these functions is raised as an error object of the host, which keeps its cause.
-/

namespace VaultConsole.Lua.Library

/-- The traceback that an error of a host function carries. -/
def traceback : String := "stack traceback:\n\t[C]: in ?"

/-- Fails with an error of a host function. -/
def failHost (e : ScriptError) : Action α := Action.failHost (.callback traceback e)

/-! ## Texts -/

/-- The text that a string or a number is, or why a value is none. -/
def textOf (v : Value) : Except ScriptError String :=
  match v.toBytes? with
  | none => .error (.conversion v.kind "String" (some "expected string or number"))
  | some s =>
    match Text.Utf8.decode s with
    | .ok t => .ok t
    | .error f => .error (.conversion v.kind "String" (some f.message))

/-- The argument of a host function that takes a text. -/
def textArgument (args : Args) : Action String :=
  match textOf (args.get 1) with
  | .ok s => pure s
  -- Which argument it is, is told with why it is none.
  | .error e => failHost (.argument 1 e)

/-- The error of the host that a raised text or a host error is. A text goes up to its first NUL byte and is
told with a traceback. -/
def toldError? (h : Heap) : Value → Option ScriptError
  | .failure r => some (h.failures.getD r default)
  | .string s =>
    if Value.string s == memoryError then some (.memory memoryMessage)
    else some (.runtime (Text.Utf8.lossy (beforeNul s.toList).toByteArray ++ "\n" ++ traceback))
  | _ => none

/-- The text of a value, with errors caught. -/
def tellText (e : Value) : Action (List Value) :=
  Action.call (.builtin (.base .pcall)) [.builtin (.base .tostring), e]

/-- The error of the host that a raised value is. Values that are neither a text nor an error of the host
are told by their text. -/
def raisedError : Nat → Value → Action ScriptError
  | 0, _ => pure (.runtime "error in error handling")
  | fuel + 1, e => do
    match ← Action.inspect (toldError? · e) with
    | some told => return told
    | none =>
      match ← tellText e with
      -- A text that is no string is told in turn.
      | .bool true :: v :: _ => raisedError fuel v
      -- So is an error in telling.
      | _ :: e :: _ => raisedError fuel e
      | _ => return .runtime ""

/-- The number of errors in telling an error that are told themselves. -/
def maxRaised : Nat := 200

/-- Calls a value with its errors caught. -/
def callProtected (f : Value) (args : List Value) : Action (Except ScriptError (List Value)) := do
  match ← Action.call (.builtin (.base .pcall)) (f :: args) with
  | .bool true :: vs => return .ok vs
  | _ :: e :: _ => return .error (← raisedError maxRaised e)
  | _ => return .ok []

/-- The value of an object under a key along a chain of metatables, with errors caught. -/
def fieldProtected : Nat → Value → Value → Action (Except ScriptError Value)
  | 0, _, _ => pure (.error (.runtime "'__index' chain too long; possibly a loop"))
  | fuel + 1, object, key => do
    -- What is in the table itself is not asked for.
    let direct ← match object with
      | .table r => Action.inspect (·.rawGet r key)
      | _ => pure Value.nil
    if !direct.isNil then return .ok direct
    match ← Action.inspect (·.metafield object Event.indexKey) with
    | .nil =>
      match object with
      | .table _ => return .ok .nil
      | v =>
        let type ← Action.inspect (·.typeName v)
        return .error (.runtime ("attempt to index a " ++ Text.Utf8.lossy type ++ " value"))
    | f =>
      if f.type == .function then return (← callProtected f [object, key]).map (·.headD .nil)
      else fieldProtected fuel f key

/-- The value of a global, with its metamethods. -/
def globalValue (name : String) : Action Value := do
  let globals ← Action.inspect (·.globals)
  match ← fieldProtected Metamethod.maxChain (.table globals) (.text name) with
  | .ok v => return v
  | .error e => failHost e

/-- The text under which a value is printed and logged: a string is itself, and any other value is
converted by what the global `tostring` is at the time. -/
def shownText (v : Value) : Action String :=
  match v with
  | .string s => pure (Text.Utf8.lossy s)
  | v => do
    let f ← globalValue "tostring"
    if f.type != .function then failHost (.conversion f.kind "function" none)
    else
      match ← callProtected f [v] with
      | .error e => failHost e
      | .ok vs =>
        match textOf (vs.headD .nil) with
        | .ok s => return s
        | .error e => failHost e

/-- The texts of values, in order. -/
def shownTexts : List Value → Action (List String)
  | [] => pure []
  | v :: vs => do
    let s ← shownText v
    return s :: (← shownTexts vs)

/-! ## Descriptions and front matter -/

/-- The entries of a description; a content that was not read is absent. -/
def descriptorEntries (d : Descriptor) : List (String × String) :=
  [("path", d.path), ("name", d.name), ("basename", d.basename), ("extension", d.extension)]
    ++ (d.content?.map fun c => ("content", c)).toList

/-- A description as a table. -/
def descriptorTable (d : Descriptor) : Action Value :=
  Action.newTable ((descriptorEntries d).foldl (fun t (k, v) => t.setText k (.text v)) Table.empty)
    (Table.lawful_foldl Table.lawful_empty fun _ _ _ lawful => lawful.setText _ _)

/-- Descriptions as a table. -/
def descriptorTables (ds : List Descriptor) : Action Value := do
  let items ← ds.mapM descriptorTable
  Action.newTable ((Table.withRoom items.length 0).setItems 0 items)
    ((Table.lawful_withRoom _ _).setItems _ _)

mutual

/-- The value of a document: null is nil, a sequence is a table with its metatable, and a mapping is a
table of its entries. -/
def ofYaml : Yaml → Action Value
  | .null => pure .nil
  | .bool b => pure (.bool b)
  | .int n =>
    pure (if n < 0x8000000000000000 then .int (Int64.ofInt n)
      else .float ((UInt64.ofNat n.toNat).toFloat.toBits))
  | .float b => pure (.float b)
  | .string s => pure (.text s)
  | .sequence items => do
    -- The table is there before its items, as numbers of tables show in their addresses.
    let r ← Action.update (fun h =>
      h.newTable { Table.withRoom items.length 0 with metatable? := some h.sequenceMeta })
      fun h => h.grows_newTable ((Table.lawful_withRoom _ _).withMetatable _)
    putItems r 1 items
    return .table r
  | .mapping entries => do
    let r ← Action.update (·.newTable (Table.withRoom 0 entries.length))
      fun h => h.grows_newTable (Table.lawful_withRoom _ _)
    putEntries r entries
    return .table r
  | .tagged tag v => do
    let r ← Action.update (·.newTable (Table.withRoom 0 1))
      fun h => h.grows_newTable (Table.lawful_withRoom _ _)
    let v ← ofYaml v
    Metamethod.rawSet r (.text tag) v
    return .table r

/-- Puts the items of a sequence into a table, from an index on. -/
def putItems (r : Nat) (i : Nat) : List Yaml → Action Unit
  | [] => pure ()
  | v :: vs => do
    let v ← ofYaml v
    Metamethod.rawSet r (Value.ofNat i) v
    putItems r (i + 1) vs

/-- Puts the entries of a mapping into a table. -/
def putEntries (r : Nat) : List (Yaml × Yaml) → Action Unit
  | [] => pure ()
  | (k, v) :: es => do
    let k ← ofYaml k
    let v ← ofYaml v
    Metamethod.rawSet r k v
    putEntries r es

end

/-- Carries out an action whose faults are faults of a host function. -/
def hosted (a : Action α) : Action α where
  run h :=
    match a.run h with
    -- A key that is nil or no number is told like any other fault of the function.
    | .fail (.runtime message) h => (failHost (.runtime (Text.Utf8.lossy message))).run h
    | act => act
  grows h := by
    have grows := a.grows h
    split
    · rename_i failed
      rw [failed] at grows
      exact (Action.grows _ _).mono grows.begins
    · exact grows

/-- What reading a text in YAML gives, or its fault as an error of a host function. -/
def orFault (r : Except Yaml.Fault α) : Action α :=
  match r with
  | .ok a => pure a
  | .error fault => failHost (.host (.yaml fault.message))

/-- Carries out a function of the host. -/
def host (f : HostFunction) (args : Args) : Action (List Value) :=
  match f with
  | .print => do
    let texts ← shownTexts args
    Action.change (·.print ("\t".intercalate texts)) fun h => h.grows_print _
    return []
  | .log => do
    -- Only the first argument is logged, and it is given back.
    let text ← shownText (args.get 1)
    Action.change (·.log text) fun h => h.grows_log _
    return [args.get 1]
  | .failureText =>
    match args.get 1 with
    | .failure r => do return [.text (← Action.inspect fun h => (h.failures.getD r default).text)]
    | _ => pure [.text ""]
  | .name => do
    match ← Action.ask .name with
    | .text s => return [.text s]
    | _ => return [.nil]
  | .activeFile => do
    match ← Action.ask .activeFile with
    | .file (some d) => return [← descriptorTable d]
    | _ => return [.nil]
  | .allFiles => do
    match ← Action.ask .allFiles with
    | .files ds => return [← descriptorTables ds]
    | _ => return [.nil]
  | .note => do
    match ← Action.ask (.document (← textArgument args)) with
    | .document d => return [← descriptorTable d]
    | .failed e => failHost (.host e)
    | _ => return [.nil]
  | .noteContent => do
    match ← Action.ask (.document (← textArgument args)) with
    | .document d => return [.text (d.content?.getD "")]
    | .failed e => failHost (.host e)
    | _ => return [.nil]
  | .parseYaml => do
    let y ← orFault (Yaml.read (← textArgument args))
    return [← hosted (ofYaml y)]
  | .frontMatter => do
    match ← orFault (FrontMatter.read (← textArgument args)) with
    | some y => return [← hosted (ofYaml y)]
    | none => return [.nil]

end VaultConsole.Lua.Library
