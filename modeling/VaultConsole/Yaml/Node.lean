import VaultConsole.Yaml.Lexer

/-!
# Nodes of YAML documents

A document is one node; a stream that is read here holds at most one document. Anchors are numbered, and an
alias refers to a node by number. A node gets as its number how many anchors of different names came
before it, so where names are used again a later node may take over a number.
-/

namespace VaultConsole.Yaml

/-- What stands before the content of a node. -/
structure Properties where
  anchor? : Option Nat
  tag? : Option String
  deriving Inhabited

/-- No properties. -/
def Properties.none : Properties := ⟨.none, .none⟩

/-- A node. -/
inductive Node where
  | alias (number : Nat)
  | scalar (p : Properties) (text : String) (isPlain : Bool)
  | sequence (p : Properties) (items : List Node)
  | mapping (p : Properties) (entries : List (Node × Node))
  deriving Inhabited

namespace Node

/-- A node that is not written. -/
def empty : Node := .scalar .none "" true

/-- What is left to read of a stream, and what is known so far. -/
structure Reading where
  rest : List Token
  /-- The names of anchors with their numbers. -/
  anchors : List (String × Nat)
  /-- The handles of tags with what they stand for. -/
  handles : List (String × String)
  deriving Inhabited

/-- A part of reading a stream. -/
abbrev Reader := StateT Reading (Except Fault)

/-- Handles of tags that need no directive. -/
def standardHandles : List (String × String) := [("!", "!"), ("!!", "tag:yaml.org,2002:")]

/-- The next token. -/
def peek : Reader (Option Token) := return (← get).rest.head?

/-- Passes over the next token. -/
def skip : Reader Unit := modify fun s => { s with rest := s.rest.tail }

/-- Whether the next token is among the given ones; the end of the text is none. -/
def isNext (ts : List Token) : Reader Bool := do
  match ← peek with
  | some t => return ts.contains t
  | none => return false

/-- Whether the next token is the given one, which is then passed over. -/
def take (t : Token) : Reader Bool := do
  if (← peek) == some t then
    skip
    return true
  else return false

/-- Numbers an anchor. -/
def defineAnchor (name : String) : Reader Nat := do
  let s ← get
  let n := s.anchors.length
  -- From here on the name stands for this node, also if it stood for another one.
  let anchors := if (s.anchors.lookup name).isSome then
      s.anchors.map fun (a, k) => if a == name then (a, n) else (a, k)
    else (name, n) :: s.anchors
  set { s with anchors }
  return n

/-- The tag with a handle. -/
def resolveTag (handle suffix : String) : Reader String := do
  if handle.isEmpty then return suffix
  else match (← get).handles.lookup handle with
    | some start => return start ++ suffix
    | none => throw .tag

/-- The anchor and the tag of a node, in any order. The anchor is numbered when the content begins. -/
def properties : Reader (Option String × Option String) := do
  match ← peek with
  | some (.anchor name) =>
    skip
    match ← peek with
    | some (.tag handle suffix) =>
      skip
      return (some name, some (← resolveTag handle suffix))
    | _ => return (some name, none)
  | some (.tag handle suffix) =>
    skip
    match ← peek with
    | some (.anchor name) =>
      skip
      return (some name, some (← resolveTag handle suffix))
    | _ => return (none, some (← resolveTag handle suffix))
  | _ => return (none, none)

mutual

/-- A node. Block collections are read if `block` is set, and sequences without indentation of their own if
`compact` is. -/
def read : Nat → Bool → Bool → Reader Node
  | 0, _, _ => throw .node
  | fuel + 1, block, compact => do
    match ← peek with
    | some (.alias name) =>
      skip
      match (← get).anchors.lookup name with
      | some n => return .alias n
      | none => throw .unknownAnchor
    | _ =>
      let (name?, tag?) ← properties
      let number (name? : Option String) : Reader (Option Nat) :=
        match name? with
        | some name => return some (← defineAnchor name)
        | none => return none
      match ← peek with
      | some .blockEntry =>
        -- A dash that has no indentation of its own is an item, or comes after a node that is not written.
        if compact then
          let p : Properties := ⟨← number name?, tag?⟩
          return .sequence p (← compactItems fuel [])
        else if name?.isSome || tag?.isSome then
          return .scalar ⟨← number name?, tag?⟩ "" true
        else throw .node
      | some (.scalar text isPlain) =>
        skip
        return .scalar ⟨← number name?, tag?⟩ text isPlain
      | some .flowSequence =>
        skip
        let p : Properties := ⟨← number name?, tag?⟩
        return .sequence p (← flowItems fuel true [])
      | some .flowMapping =>
        skip
        let p : Properties := ⟨← number name?, tag?⟩
        return .mapping p (← flowEntries fuel true [])
      | t? =>
        if block && t? == some .blockSequence then
          skip
          let p : Properties := ⟨← number name?, tag?⟩
          return .sequence p (← blockItems fuel [])
        else if block && t? == some .blockMapping then
          skip
          let p : Properties := ⟨← number name?, tag?⟩
          return .mapping p (← blockEntries fuel [])
        else if name?.isSome || tag?.isSome then
          return .scalar ⟨← number name?, tag?⟩ "" true
        else throw .node

/-- A node, or an empty one if one of the given tokens follows. -/
def readUnless : Nat → Bool → Bool → List Token → Reader Node
  | 0, _, _, _ => throw .node
  | fuel + 1, block, compact, ts => do
    if ← isNext ts then return empty else read fuel block compact

/-- The items of a block sequence after those read, latest first. -/
def blockItems : Nat → List Node → Reader (List Node)
  | 0, _ => throw .node
  | fuel + 1, items => do
    if ← take .blockEntry then
      let v ← readUnless fuel true false [.blockEntry, .blockEnd]
      blockItems fuel (v :: items)
    else if ← take .blockEnd then return items.reverse
    else throw .node

/-- The items of a sequence without indentation of its own after those read, latest first. -/
def compactItems : Nat → List Node → Reader (List Node)
  | 0, _ => throw .node
  | fuel + 1, items => do
    if ← take .blockEntry then
      let v ← readUnless fuel true false [.blockEntry, .key, .value, .blockEnd]
      compactItems fuel (v :: items)
    else return items.reverse

/-- The entries of a block mapping after those read, latest first. -/
def blockEntries : Nat → List (Node × Node) → Reader (List (Node × Node))
  | 0, _ => throw .node
  | fuel + 1, entries => do
    let separators := [Token.key, .value, .blockEnd]
    if ← take .blockEnd then return entries.reverse
    else if ← take .key then
      let k ← readUnless fuel true true separators
      let v ← if ← take .value then readUnless fuel true true separators else pure empty
      blockEntries fuel ((k, v) :: entries)
    else throw .node

/-- The items of a flow sequence after those read, latest first. A single entry of a mapping may stand for
the mapping. -/
def flowItems : Nat → Bool → List Node → Reader (List Node)
  | 0, _, _ => throw .node
  | fuel + 1, first, items => do
    if ← take .flowSequenceEnd then return items.reverse
    else
      if !first then
        if !(← take .flowEntry) then throw .node
      if ← take .flowSequenceEnd then return items.reverse
      else if ← take .key then
        let separators := [Token.value, .flowEntry, .flowSequenceEnd]
        let k ←
          if ← isNext separators then
            -- what follows a missing key is passed over
            skip
            pure empty
          else read fuel false false
        let v ← if ← take .value then readUnless fuel false false separators.tail else pure empty
        flowItems fuel false (.mapping .none [(k, v)] :: items)
      else
        let v ← read fuel false false
        flowItems fuel false (v :: items)

/-- The entries of a flow mapping after those read, latest first. -/
def flowEntries : Nat → Bool → List (Node × Node) → Reader (List (Node × Node))
  | 0, _, _ => throw .node
  | fuel + 1, first, entries => do
    if ← take .flowMappingEnd then return entries.reverse
    else
      if !first then
        if !(← take .flowEntry) then throw .node
      if ← take .flowMappingEnd then return entries.reverse
      else if ← take .key then
        let separators := [Token.value, .flowEntry, .flowMappingEnd]
        let k ← readUnless fuel false false separators
        let v ← if ← take .value then readUnless fuel false false separators.tail else pure empty
        flowEntries fuel false ((k, v) :: entries)
      else
        let k ← read fuel false false
        flowEntries fuel false ((k, empty) :: entries)

end

/-! ## Documents -/

/-- The directives before a document: whether there is a version already, and the handles. -/
def directives : Nat → Bool → List (String × String) → Reader (Bool × List (String × String))
  | 0, _, _ => throw .directive
  | fuel + 1, versioned, handles => do
    match ← peek with
    | some (.version major minor) =>
      -- The versions that are known are 1.1 and 1.2.
      if versioned || major != 1 || (minor != 1 && minor != 2) then throw .directive
      skip
      directives fuel true handles
    | some (.tagHandle handle start) =>
      if (handles.lookup handle).isSome then throw .directive
      skip
      directives fuel versioned ((handle, start) :: handles)
    | _ => return (versioned, handles)

/-- The content of a document after its start. -/
def content (fuel : Nat) : Reader Node := do
  match ← peek with
  | none => return empty
  | some .documentStart | some .documentEnd | some (.version ..) | some (.tagHandle ..) => return empty
  | _ => read fuel true false

/-- Passes over the ends of documents. -/
def skipEnds : Nat → Reader Unit
  | 0 => pure ()
  | fuel + 1 => do
    if ← take .documentEnd then skipEnds fuel

/-- The document of a stream, if there is one, and no more. -/
def document (fuel : Nat) : Reader (Option Node) := do
  match ← peek with
  | none => return none
  | _ =>
    let (versioned, handles) ← directives fuel false []
    modify fun s => { s with handles := handles ++ standardHandles }
    let explicit ← take .documentStart
    -- Directives are only for a document whose start is written.
    if !explicit && (versioned || !handles.isEmpty) then throw .directive
    let node ← if explicit then content fuel else read fuel true false
    skipEnds fuel
    if (← peek).isSome then throw .documents
    return some node

/-- The document of a text, if it has one. -/
def ofText (text : List Char) : Except Fault (Option Node) := do
  let tokens ← Lexer.tokensOf text
  return (← (document (4 * tokens.length + 8)).run ⟨tokens, [], []⟩).1

end Node

end VaultConsole.Yaml
