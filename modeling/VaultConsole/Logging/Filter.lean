import VaultConsole.Decimal.Numeral
import VaultConsole.Logging.Event
import VaultConsole.Text.Blank
import VaultConsole.Text.Pieces

/-!
# Filters of events

A filter is a list of directives, each with the targets that it is for and the least important level that it
lets through. Of the directives for an event the one with the longest target counts. A directive for a target
is also for every target that begins with it.
-/

namespace VaultConsole

/-- What passes a directive: events up to a level, or none. -/
abbrev Threshold := Option Level

namespace Threshold

/-- Whether a level passes. -/
def admits (t : Threshold) (level : Level) : Bool := t.any fun least => level.rank ≤ least.rank

/-- The threshold of a number. -/
def ofNumber? : Nat → Option Threshold
  | 0 => some none
  | 1 => some (some .error)
  | 2 => some (some .warn)
  | 3 => some (some .info)
  | 4 => some (some .debug)
  | 5 => some (some .trace)
  | _ => none

/-- The number that characters spell, after an optional plus sign. -/
def number? (cs : List Char) : Option Nat :=
  Decimal.natOfDigits? 10 (match cs with
    | '+' :: r => r
    | r => r)

/-- The threshold that characters name; the case of ASCII letters does not matter. -/
def ofChars? (cs : List Char) : Option Threshold :=
  match (number? cs).bind ofNumber? with
  | some t => some t
  | none =>
    match String.ofList (cs.map Char.toLower) with
    | "" => some (some .error)
    | "error" => some (some .error)
    | "warn" => some (some .warn)
    | "info" => some (some .info)
    | "debug" => some (some .debug)
    | "trace" => some (some .trace)
    | "off" => some none
    | _ => none

end Threshold

/-- A directive of a filter. -/
structure Directive where
  /-- The beginning of the targets that the directive is for. -/
  target : List Char
  threshold : Threshold
  /-- Whether the directive is for what happens inside of spans, of which there are none here. -/
  spansOnly : Bool
  deriving DecidableEq, Repr, Inhabited

namespace Directive

/-- A directive for all targets. -/
def ofThreshold (t : Threshold) : Directive := ⟨[], t, false⟩

/-- A character that a directive may begin with. -/
def isStart (c : Char) : Bool :=
  c == '-' || c == ':' || c == '_' || c.isAlphanum || (0x7F < c.toNat && !Text.isBlank c)

/-- The threshold after an equals sign; none is given by no characters. -/
def level? (cs : List Char) : Option Threshold :=
  if cs.isEmpty then some (some .trace) else Threshold.ofChars? cs

/-- A directive whose target came before a description of spans, at what follows that description. -/
def afterSpan? (target : List Char) : List Char → Option Directive
  | [] => some ⟨target, some .trace, true⟩
  | '=' :: r => (level? r).map fun t => ⟨target, t, true⟩
  | _ => none

/-- The directive that characters are: a threshold, a target, or a target with a threshold; a target may be
followed by a description of spans in brackets. Blanks belong to what they stand beside, but no threshold is
given after blanks at the start. -/
def ofChars? (cs : List Char) : Option Directive :=
  let isEnd (c : Char) : Bool := c == '=' || c == '['
  let body := Text.dropBlankStart cs
  match body with
  | [] => none
  | c :: _ =>
    if c != '[' && !isStart c then none
    else if body.length < cs.length && body.contains '=' then none
    else
      let word := cs.takeWhile (!isEnd ·)
      match cs.dropWhile (!isEnd ·) with
      | '=' :: r => (level? r).map fun t => ⟨word, t, false⟩
      | '[' :: r =>
        match r.dropWhile (· != ']') with
        | ']' :: r => afterSpan? word r
        | _ => none
      | _ =>
        match Threshold.ofChars? word with
        | some t => some (ofThreshold t)
        | none => some ⟨word, some .trace, false⟩

/-- Whether a directive is for a target. -/
def isFor (d : Directive) (target : String) : Bool := d.target.isPrefixOf target.toList

end Directive

/-- A filter. -/
abbrev Filter := List Directive

namespace Filter

/-- The filter of a level. -/
def ofLevel (level : Level) : Filter := [Directive.ofThreshold (some level)]

/-- The filter that a text is: directives between commas. One without directives lets errors through. -/
def ofText? (text : String) : Option Filter :=
  let parts := (Text.pieces ',' text.toList).filter (!·.isEmpty)
  (parts.mapM Directive.ofChars?).map fun ds => if ds.isEmpty then ofLevel .error else ds

/-- The directive for a target that counts: the one with the longest target, and of two the later one. -/
def directive? (f : Filter) (target : String) : Option Directive :=
  (f.filter fun d => !d.spansOnly && d.isFor target).foldl (fun best d =>
    match best with
    -- Equally long targets are the same one here, since both begin the same text; the later takes over.
    | some b => if b.target.length ≤ d.target.length then some d else some b
    | none => some d) none

/-- Whether an event passes. -/
def admits (f : Filter) (e : LogEvent) : Bool :=
  (f.directive? e.target).any fun d => d.threshold.admits e.level

end Filter

end VaultConsole
