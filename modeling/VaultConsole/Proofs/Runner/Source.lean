import VaultConsole.Lua.Session
import VaultConsole.Proofs.Code
import VaultConsole.Proofs.Utf8

/-!
# The code of the helper

The helper that calls chunks is compiled from its source when a session starts. Here is what the compiler
makes of the source: the function that sets up the helper, and the three functions in it. What the helper
does can then be read off its code.
-/

namespace VaultConsole.Lua.Runner

/-- The name of the helper in messages. -/
def chunk : ByteArray := "runner".toUTF8

/-- The parameter of the handler. -/
def errorCode : Code := .local (.slot 0) "err".toUTF8

/-- The message field of the error, as the handler reads it on a line. -/
def messageCode (line : Nat) : Code := .index errorCode (.const (.text "message")) line

/-- The conditions of the handler: the error is a table, and it has a message. -/
def isTable : Code :=
  .binary .eq (.call (.carried 0 "type".toUTF8) [errorCode] 5) (.const (.text "table")) 5

def hasMessage : Code := .binary .ne (messageCode 5) (.const .nil) 5

/-- What the handler does with such an error, and with any other one. -/
def telling : List Step := [.tailCall (.call (.carried 1 "tostring".toUTF8) [messageCode 6] 6)]

def keeping : List Step := [.ret [errorCode] 8]

/-- The function that turns an error table with a message into the text of that message. -/
def handler : Proto :=
  .mk chunk [.slot 0] false 1 0 [(.slot 1, "type".toUTF8), (.slot 2, "tostring".toUTF8)]
    (.branch (.and isTable hasMessage) telling [] :: keeping)

/-- The function that gives back the values of a chunk, or raises its error again. -/
def finish : Proto :=
  .mk chunk [.slot 0] true 1 0 [(.slot 3, "error".toUTF8)]
    [.branch (.local (.slot 0) "ok".toUTF8) [.ret [.dots] 13] [],
    .call (.call (.carried 0 "error".toUTF8) [.paren .dots, .const (.int 0)] 15)]

/-- The function that calls a chunk with the handler. -/
def caller : Proto :=
  .mk chunk [.slot 0] false 1 0
    [(.slot 5, "finish".toUTF8), (.slot 0, "xpcall".toUTF8), (.slot 4, "handler".toUTF8)]
    [.tailCall (.call (.carried 0 "finish".toUTF8)
      [.call (.carried 1 "xpcall".toUTF8)
        [.local (.slot 0) "chunk".toUTF8, .carried 2 "handler".toUTF8] 19] 19)]

/-- The global functions that the helper holds. -/
def heldNames : List String := ["xpcall", "type", "tostring", "error"]

/-- The function that sets up the helper. -/
def setup : Proto :=
  .mk chunk [] true 6 0 [(.carried 0, "_ENV".toUTF8)]
    [.locals [.slot 0, .slot 1, .slot 2, .slot 3]
      (heldNames.map fun name => .index (.carried 0 "_ENV".toUTF8) (.const (.text name)) 2),
    .localFunction (.slot 4) handler,
    .localFunction (.slot 5) finish,
    .ret [.function caller] 18]

set_option maxRecDepth 3000 in
/-- The source of the helper compiles to the function that sets it up. -/
theorem compile_source : Chunk.compile 0 runnerName.toUTF8 runnerSource.toUTF8 = .ok setup := by
  -- The source is taken by its characters: the bytes of a long text are slow to evaluate.
  obtain ⟨cs, source, checked⟩ : ∃ cs, runnerSource = String.ofList cs ∧
      (Block.ofSource 0 (Text.Utf8.encode cs)).toOption.any (fun body =>
        (Proto.ofBlock (Chunk.display runnerName.toUTF8) body).same setup) = true :=
    ⟨_, rfl, by decide +kernel⟩
  have bytes : runnerSource.toUTF8.toList = Text.Utf8.encode cs := by
    rw [source, Text.Utf8.toList_toUTF8, String.toList_ofList]
  rw [Chunk.compile, bytes]
  generalize Block.ofSource 0 (Text.Utf8.encode cs) = parsed at checked
  cases parsed with
  | error f => cases checked
  | ok body => exact congrArg Except.ok (Proto.eq_of_same _ setup checked)

end VaultConsole.Lua.Runner
