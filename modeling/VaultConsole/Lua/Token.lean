import VaultConsole.Lua.Number
import VaultConsole.Text.Bytes

/-!
# Tokens

The tokens of a chunk: reserved words and operators, names, literals, single bytes that begin no
token, and the end of the source. A token placed in its source knows the line on which it ends and its
text in messages.
-/

namespace VaultConsole.Lua

/-- Reserved words, operators and separators. -/
inductive Mark where
  | and | «break» | «do» | «else» | elseif | «end» | «false» | «for» | function | goto | «if» | «in»
  | «local» | nil | not | or | «repeat» | «return» | «then» | «true» | «until» | «while»
  | plus | minus | star | slash | doubleSlash | percent | caret | hash | ampersand | tilde | pipe
  | shiftLeft | shiftRight | equal | notEqual | lessEqual | greaterEqual | less | greater | assign
  | openParen | closeParen | openBrace | closeBrace | openBracket | closeBracket | doubleColon
  | semicolon | colon | comma | dot | concat | dots
  deriving DecidableEq, Repr, Inhabited

namespace Mark

/-- The spelling of a mark. -/
def text : Mark → String
  | and => "and" | «break» => "break" | «do» => "do" | «else» => "else" | elseif => "elseif"
  | «end» => "end" | «false» => "false" | «for» => "for" | function => "function" | goto => "goto"
  | «if» => "if" | «in» => "in" | «local» => "local" | nil => "nil" | not => "not" | or => "or"
  | «repeat» => "repeat" | «return» => "return" | «then» => "then" | «true» => "true"
  | «until» => "until" | «while» => "while"
  | plus => "+" | minus => "-" | star => "*" | slash => "/" | doubleSlash => "//" | percent => "%"
  | caret => "^" | hash => "#" | ampersand => "&" | tilde => "~" | pipe => "|" | shiftLeft => "<<"
  | shiftRight => ">>" | equal => "==" | notEqual => "~=" | lessEqual => "<=" | greaterEqual => ">="
  | less => "<" | greater => ">" | assign => "=" | openParen => "(" | closeParen => ")"
  | openBrace => "\x7b" | closeBrace => "\x7d" | openBracket => "[" | closeBracket => "]"
  | doubleColon => "::" | semicolon => ";" | colon => ":" | comma => "," | dot => "."
  | concat => ".." | dots => "..."

/-- The reserved words. -/
def words : List Mark :=
  [and, «break», «do», «else», elseif, «end», «false», «for», function, goto, «if», «in», «local»,
   nil, not, or, «repeat», «return», «then», «true», «until», «while»]

/-- The reserved word that is spelled by the bytes. -/
def word? (bytes : ByteArray) : Option Mark := words.find? fun w => w.text.toUTF8 == bytes

end Mark

/-- A token. -/
inductive Token where
  | mark (m : Mark)
  | name (s : ByteArray)
  | string (s : ByteArray)
  | number (n : Number)
  /-- A byte that begins no token. -/
  | stray (b : UInt8)
  | eof
  deriving DecidableEq, Inhabited

/-- A token in its source. -/
structure Lexeme where
  token : Token
  /-- The line on which the token ends. -/
  line : Nat
  /-- The text of a name or a literal as messages quote it. -/
  spelling : List UInt8
  deriving Inhabited

/-- Why a source is no chunk. -/
structure SyntaxFault where
  line : Nat
  message : List UInt8
  /-- The quoted text near the fault, if there is one. -/
  near? : Option (List UInt8)
  deriving DecidableEq, Inhabited

/-- The bytes of a text. -/
def utf8 (s : String) : List UInt8 := s.toUTF8.toList

/-- The bytes before the first NUL, which is where quoting stops. -/
def beforeNul (bytes : List UInt8) : List UInt8 := bytes.takeWhile (· != 0)

/-- Bytes between single quotes. -/
def quoted (bytes : List UInt8) : List UInt8 := 39 :: (beforeNul bytes ++ [39])

/-- The quoted text of a token in messages. -/
def Lexeme.near (l : Lexeme) : List UInt8 :=
  match l.token with
  | .mark m => quoted (utf8 m.text)
  | .stray b =>
    if 32 ≤ b && b ≤ 126 then quoted [b] else utf8 ("'<\\" ++ toString b.toNat ++ ">'")
  | .eof => utf8 "<eof>"
  | _ => quoted l.spelling

end VaultConsole.Lua
