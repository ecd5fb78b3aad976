import VaultConsole.Toml.Scalar

/-!
# The statements of a TOML document

A document is read line by line: a line holds a header, an assignment, or nothing, and may end with a
comment. A value in brackets may go on over several lines. Values are nested up to a limit.
-/

namespace VaultConsole.Toml

/-- The nesting of brackets that is taken. -/
def maxNesting : Nat := 80

/-- What follows a comment, if there is one; nothing if the comment holds a character that it may not. -/
def skipComment? : List Char → Option (List Char)
  | '#' :: r =>
    let after := r.dropWhile isPlain
    if after.isEmpty || (afterNewline? after).isSome then some after else none
  | r => some r

/-- What follows the end of a line, before which there may be blanks and a comment. -/
def endLine? (cs : List Char) : Option (List Char) :=
  match skipComment? (skipSpace cs) with
  | some [] => some []
  | some r => afterNewline? r
  | none => none

/-- What follows blanks, comments and ends of lines; every step takes a character at least. -/
def skipAll? : Nat → List Char → Option (List Char)
  | 0, cs => some cs
  | n + 1, cs =>
    match skipComment? (skipSpace cs) with
    | none => none
    | some r =>
      match afterNewline? r with
      | some r => skipAll? n r
      | none => some r

/-! ## Keys -/

/-- The characters of keys that are not in quotes. -/
def isKeyChar (c : Char) : Bool := c.isAlphanum || c == '_' || c == '-'

/-- One part of a key. -/
def keyPart? (cs : List Char) : Option (String × List Char) :=
  match cs with
  | '"' :: _ => quotedText? cs
  | '\'' :: _ => quotedText? cs
  | _ =>
    let part := cs.takeWhile isKeyChar
    if part.isEmpty then none else some (String.ofList part, cs.dropWhile isKeyChar)

/-- A key and what follows it and blanks; the parts that came before are the latest first. -/
def keyAfter? (seen : Key) : Nat → List Char → Option (Key × List Char)
  | 0, _ => none
  | n + 1, cs =>
    match keyPart? (skipSpace cs) with
    | none => none
    | some (part, r) =>
      match skipSpace r with
      | '.' :: r => keyAfter? (part :: seen) n r
      | r => some ((part :: seen).reverse, r)

/-- A key and what follows it and blanks. -/
def key? (cs : List Char) : Option (Key × List Char) := keyAfter? [] (cs.length + 1) cs

/-! ## Values -/

mutual

/-- A value; `depth` brackets are open. -/
def value? : Nat → Nat → List Char → Option (Term × List Char)
  | 0, _, _ => none
  | n + 1, depth, cs =>
    match cs with
    | '"' :: _ => (text? cs).map fun (s, r) => (.scalar (.string s), r)
    | '\'' :: _ => (text? cs).map fun (s, r) => (.scalar (.string s), r)
    | '[' :: r => if depth < maxNesting then items? n (depth + 1) [] r else none
    | '\x7b' :: r => if depth < maxNesting then entries? n (depth + 1) [] r else none
    | _ =>
      let (word, r) := takeWord cs
      (word? word).map fun v => (.scalar v, r)

/-- The items of an array up to its closing bracket; those that came before are the latest first. -/
def items? : Nat → Nat → List Term → List Char → Option (Term × List Char)
  | 0, _, _, _ => none
  | n + 1, depth, seen, cs => do
    match ← skipAll? cs.length cs with
    | ']' :: r => return (.array seen.reverse, r)
    | cs =>
      let (v, r) ← value? n depth cs
      match ← skipAll? r.length r with
      | ',' :: r => items? n depth (v :: seen) r
      | ']' :: r => return (.array (v :: seen).reverse, r)
      | _ => none

/-- The entries of an inline table up to its closing bracket; those that came before are the latest
first. -/
def entries? : Nat → Nat → List (Key × Term) → List Char → Option (Term × List Char)
  | 0, _, _, _ => none
  | n + 1, depth, seen, cs => do
    match ← skipAll? cs.length cs with
    | '\x7d' :: r => return (.table seen.reverse, r)
    | cs =>
      let (key, r) ← key? cs
      let (v, r) ← value? n depth (skipSpace (← after? '=' r))
      match ← skipAll? r.length r with
      | ',' :: r => entries? n depth ((key, v) :: seen) r
      | '\x7d' :: r => return (.table ((key, v) :: seen).reverse, r)
      | _ => none

end

/-! ## Statements -/

/-- A header, after its opening brackets, with its closing ones and the end of the line. -/
def header? (close : List Char) (cs : List Char) : Option (Key × List Char) := do
  let (key, r) ← key? cs
  let r ← if close.isPrefixOf r then some (r.drop close.length) else none
  return (key, ← endLine? r)

/-- An assignment with the end of the line. -/
def assignment? (cs : List Char) : Option (Statement × List Char) := do
  let (key, r) ← key? cs
  let r ← after? '=' r
  let (v, r) ← value? (r.length + 1) 0 (skipSpace r)
  return (.assignment key v, ← endLine? r)

/-- The statement of a line, if it holds one, and what follows the line. -/
def line? (cs : List Char) : Option (Option Statement × List Char) :=
  match skipSpace cs with
  -- Two brackets are looked for first, since one of them begins a header too.
  | '[' :: '[' :: r => (header? [']', ']'] r).map fun (key, r) => (some (.item key), r)
  | '[' :: r => (header? [']'] r).map fun (key, r) => (some (.table key), r)
  | r =>
    match endLine? r with
    | some r => some (none, r)
    | none => (assignment? r).map fun (s, r) => (some s, r)

/-- The statements of the lines of a text; those that came before are the latest first, and every line
takes a character at least. -/
def lines? (seen : List Statement) : Nat → List Char → Option (List Statement)
  | _, [] => some seen.reverse
  | 0, _ => none
  | n + 1, cs =>
    match line? cs with
    | some (some s, r) => lines? (s :: seen) n r
    | some (none, r) => lines? seen n r
    | none => none

/-- The mark that may stand at the start of a text. -/
def byteOrderMark : Char := '\uFEFF'

/-- The statements of a text. -/
def statements? (text : String) : Option (List Statement) :=
  let cs := match text.toList with
    | c :: r => if c == byteOrderMark then r else c :: r
    | [] => []
  lines? [] cs.length cs

end VaultConsole.Toml
