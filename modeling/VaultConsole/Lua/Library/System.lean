import VaultConsole.Lua.Library.Streams

/-!
# Functions on the system

Time, the environment, commands, files by their names, the locale, and the end of the process: all of them are
calls to the platform. Dates are tables here, and dates of a calendar there.
-/

namespace VaultConsole.Lua.Library

/-! ## Dates -/

/-- The numbers of a date under the names of their fields. -/
def dateNumbers (d : CalendarDate) : List (String × Int) :=
  [("year", d.year), ("month", d.month), ("day", d.day), ("hour", d.hour), ("min", d.min), ("sec", d.sec),
    ("yday", d.yearday), ("wday", d.weekday)]

/-- The fields of a date as values. -/
def dateFields (d : CalendarDate) : List (String × Value) :=
  (dateNumbers d).map (fun (name, n) => (name, .int (Int64.ofInt n))) ++
    (d.isSummer?.map fun b => ("isdst", .bool b)).toList

/-- Puts the fields of a date into a table. -/
def setDate (r : Nat) (d : CalendarDate) : Action Unit :=
  (dateFields d).forM fun (name, v) => Metamethod.setIndex (.table r) (.text name) v

/-- A field of a date, which the process counts from `base` on. -/
def dateField (r : Nat) (name : String) (other? : Option Int) (base : Int) : Action Int := do
  let v ← Metamethod.index (.table r) (.text name)
  match v.toInt? with
  | some n =>
    let n := n.toInt
    -- What is left has to be one of the small integers of the process.
    if if 0 ≤ n then n - base ≤ 0x7FFFFFFF else base - 0x80000000 ≤ n then return n
    else Action.failLocated s!"field '{name}' is out-of-bound"
  | none =>
    if !v.isNil then Action.failLocated s!"field '{name}' is not an integer"
    else match other? with
      | some d => return d
      | none => Action.failLocated s!"field '{name}' missing in date table"

/-- The date that the fields of a table make up. -/
def dateOf (r : Nat) : Action CalendarDate := do
  let year ← dateField r "year" none 1900
  let month ← dateField r "month" none 1
  let day ← dateField r "day" none 0
  let hour ← dateField r "hour" (some 12) 0
  let min ← dateField r "min" (some 0) 0
  let sec ← dateField r "sec" (some 0) 0
  let summer ← Metamethod.index (.table r) (.text "isdst")
  return { year, month, day, hour, min, sec, weekday := 1, yearday := 1
           isSummer? := if summer.isNil then none else some summer.isTruthy }

/-- A time in seconds, which there has to be. -/
def orNoTime : Option Int64 → Action (List Value)
  | some t => pure [.int t]
  | none => Action.failLocated "time result cannot be represented in this installation"

/-- The time now, or that of a date, whose table is put in order. -/
def time (args : Args) : Action (List Value) := do
  if args.isNone 1 then orNoTime (← Action.platform .time)
  else
    let r ← args.table 1
    let answer : Option Int64 × CalendarDate ← Action.platform (.timeOf (← dateOf r))
    setDate r answer.2
    orNoTime answer.1

/-- A part of the form of a date. -/
inductive DatePart where
  | byte (b : UInt8)
  /-- What is put for the letters after a percent sign. -/
  | conversion (letters : ByteArray)
  deriving Inhabited

/-- Whether a byte alone is a conversion. -/
def isConversion (b : UInt8) : Bool := (utf8 "aAbBcCdDeFgGhHIjmMnprRStTuUVwWxXyYzZ%").contains b

/-- Whether two bytes together are a conversion. -/
def isLongConversion (a b : UInt8) : Bool :=
  (a == 69 && (utf8 "cCxXyY").contains b) || (a == 79 && (utf8 "deHImMSuUVwWy").contains b)

/-- The parts of the form of a date, or the bytes at which no conversion begins. -/
def dateParts : List UInt8 → Except (List UInt8) (List DatePart)
  | [] => .ok []
  | 37 :: a :: b :: r =>
    if isConversion a then (dateParts (b :: r)).map (.conversion ⟨#[a]⟩ :: ·)
    else if isLongConversion a b then (dateParts r).map (.conversion ⟨#[a, b]⟩ :: ·)
    else .error (a :: b :: r)
  | [37, a] => if isConversion a then .ok [.conversion ⟨#[a]⟩] else .error [a]
  | [37] => .error []
  | b :: r => (dateParts r).map (.byte b :: ·)

/-- A date in the form of parts. -/
def formatDate (d : CalendarDate) (parts : List DatePart) : Action ByteArray := do
  let pieces ← parts.mapM fun
    | .byte b => pure [b]
    | .conversion letters => do
      let piece : ByteArray ← Action.platform (.format d letters)
      pure piece.toList
  return pieces.flatten.toByteArray

/-- The date of a time in a form, or its fields. -/
def date (args : Args) : Action (List Value) := do
  let form := (← args.bytesOr 1 "%c".toUTF8).toList
  let t : Option Int64 ← if args.isNone 2 then Action.platform .time else some <$> args.int 2
  let universal := form.head? == some 33
  let form := if universal then form.tail else form
  let answer : Option CalendarDate ← Action.platform (.date (t.getD (-1)) universal)
  match answer with
  | none => Action.failLocated "date result cannot be represented in this installation"
  | some d =>
    if beforeNul form == utf8 "*t" then
      let r ← Action.update (·.newTable (Table.withRoom 0 9)) fun h => h.grows_newTable (Table.lawful_withRoom _ _)
      setDate r d
      return [.table r]
    else
      match dateParts form with
      | .ok parts => return [.string (← formatDate d parts)]
      | .error rest =>
        Action.fail (.argument 1
          ("invalid conversion specifier '%".toUTF8 ++ (beforeNul rest).toByteArray ++ "'".toUTF8))

/-! ## The functions -/

/-- The categories of locales by name. -/
def localeCategories : List (String × LocaleCategory) :=
  [("all", .all), ("collate", .collate), ("ctype", .ctype), ("monetary", .monetary), ("numeric", .numeric),
    ("time", .time)]

/-- A string, or nil where there is none. -/
def stringOr : Option ByteArray → Value
  | some s => .string s
  | none => .nil

/-- Leaves the process. -/
def exit (args : Args) : Action (List Value) := do
  let status ← match args.get 1 with
    | .bool b => pure (if b then 0 else 1)
    | _ => args.intOr 1 0
  let never : Empty ← Action.platform (.exit status (args.get 2).isTruthy)
  nomatch never

/-- Carries out a function on the system. -/
def os (f : OsFunction) (args : Args) : Action (List Value) :=
  match f with
  | .clock => do
    let t : UInt64 ← Action.platform .clock
    return [.float t]
  | .date => date args
  | .difftime => do
    let a ← args.int 1
    let b ← args.int 2
    return [.float (Real.sub (Real.ofInt a) (Real.ofInt b))]
  | .execute => do
    match ← args.name? 1 with
    | some command => return commandResult (← Action.platform (.execute command))
    | none =>
      let found : Bool ← Action.platform .hasShell
      return [.bool found]
  | .exit => exit args
  | .getenv => do return [stringOr (← Action.platform (.getenv (← args.name 1)))]
  | .remove => do
    let name ← args.name 1
    return callResult (some name) (← Action.platform (.remove name))
  | .rename => do
    let name ← args.name 1
    return callResult none (← Action.platform (.rename name (← args.name 2)))
  | .setlocale => do
    let name? ← args.name? 1
    let category ← args.option 2 (some "all") (localeCategories.map Prod.fst)
    return [stringOr (← Action.platform (.setlocale name? ((localeCategories.lookup category).getD .all)))]
  | .time => time args
  | .tmpname => do
    let name? : Option ByteArray ← Action.platform .tmpname
    match name? with
    | some name => return [.string name]
    | none => Action.failLocated "unable to generate a unique filename"

end VaultConsole.Lua.Library
