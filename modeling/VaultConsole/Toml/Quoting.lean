import VaultConsole.Decimal.Rounded
import VaultConsole.Toml.Text

/-!
# Writing texts in TOML

A text is written in the plainest quotes that can hold it without an escape: double quotes, single quotes,
three double quotes, three single quotes, in this order. If none can, it is written in double quotes with
escapes, three of them if the text has several lines.
-/

namespace VaultConsole.Toml

/-- The quotes around a text. -/
inductive Quoting where
  | basic | literal | basicLines | literalLines
  deriving DecidableEq, Repr

namespace Quoting

/-- The quotes themselves. -/
def delimiter : Quoting → List Char
  | .basic => ['"']
  | .literal => ['\'']
  | .basicLines => ['"', '"', '"']
  | .literalLines => ['\'', '\'', '\'']

/-- Whether texts in these quotes may have several lines. -/
def hasLines : Quoting → Bool
  | .basicLines => true
  | .literalLines => true
  | _ => false

/-- Whether a backslash begins an escape in these quotes. -/
def hasEscapes : Quoting → Bool
  | .basic => true
  | .basicLines => true
  | _ => false

/-- The number of double quotes in a row that need no escape. -/
def quotesAllowed : Quoting → Nat
  | .basicLines => 2
  | _ => 0

end Quoting

/-- The length of the longest row of a character, where `run` of them have just come and `longest` is the
longest row before. -/
def longestRun (c : Char) (run longest : Nat) : List Char → Nat
  | [] => max run longest
  | d :: r => if d == c then longestRun c (run + 1) longest r else longestRun c 0 (max run longest) r

/-- A character that no quotes can hold without an escape. -/
def needsEscape (c : Char) : Bool := !isPlain c && c != '\n'

/-- The plainest quotes for a text. -/
def Quoting.of (cs : List Char) : Quoting :=
  let escapes := cs.any needsEscape
  let backslash := cs.contains '\\'
  let lines := cs.contains '\n'
  let singles := longestRun '\'' 0 0 cs
  let doubles := longestRun '"' 0 0 cs
  if !escapes && !backslash && !lines && doubles == 0 then .basic
  else if !escapes && !lines && singles == 0 then .literal
  else if !escapes && !backslash && doubles ≤ 2 then .basicLines
  else if !escapes && singles ≤ 2 then .literalLines
  else if lines then .basicLines
  else .basic

/-- A character in quotes with escapes. -/
def writeChar (q : Quoting) (c : Char) : List Char :=
  match c with
  | '\x08' => ['\\', 'b']
  | '\t' => ['\\', 't']
  | '\x0c' => ['\\', 'f']
  | '\r' => ['\\', 'r']
  | '\\' => ['\\', '\\']
  | '\n' => if q.hasLines then ['\n'] else ['\\', 'n']
  | c => if isPlain c then [c] else ['\\', 'u'] ++ Decimal.Rounded.hexDigits true 4 c.toNat

/-- The inside of quotes with escapes, where `run` double quotes have just come. -/
def writeEscaped (q : Quoting) (run : Nat) : List Char → List Char
  | [] => []
  | c :: r =>
    if c == '"' then
      if run < q.quotesAllowed then '"' :: writeEscaped q (run + 1) r
      else '\\' :: '"' :: writeEscaped q 0 r
    else writeChar q c ++ writeEscaped q 0 r

/-- A text in given quotes. A text of several lines begins on a line of its own. -/
def writeQuoted (q : Quoting) (cs : List Char) : List Char :=
  let start := if q.hasLines && cs.contains '\n' then ['\n'] else []
  let inside := if q.hasEscapes then writeEscaped q 0 cs else cs
  q.delimiter ++ start ++ inside ++ q.delimiter

/-- A text in the plainest quotes. -/
def writeText (s : String) : List Char := writeQuoted (Quoting.of s.toList) s.toList

end VaultConsole.Toml
