import VaultConsole.Lua.Platform
import VaultConsole.Lua.Token

/-!
# A bare process

A platform that can be run: its clock stands still, it has no files, no commands and no variables, and its standard
input has ended. It has the locales that every process has, and keeps back what is written to the standard output
until that is flushed or the process ends.
-/

namespace VaultConsole.Lua.Bare

/-! ## Dates -/

/-- The number of days from the first day of 1970 to a day of a month, which may lie outside of the year. -/
def daysFrom1970 (year month day : Int) : Int :=
  let m := (month - 3).fmod 12
  let y := year + (month - 3).fdiv 12
  365 * y + y.fdiv 4 - y.fdiv 100 + y.fdiv 400 + (153 * m + 2).fdiv 5 + day - 1 - 719468

/-- The year, the month and the day of a month of a day, counted from the first day of 1970. -/
def dayOf (days : Int) : Int × Int × Int :=
  let z := days + 719468
  let era := z.fdiv 146097
  let d := z - era * 146097
  let y := (d - d.fdiv 1460 + d.fdiv 36524 - d.fdiv 146096).fdiv 365
  let rest := d - (365 * y + y.fdiv 4 - y.fdiv 100)
  let m := (5 * rest + 2).fdiv 153
  let month := if m < 10 then m + 3 else m - 9
  (y + era * 400 + (if month ≤ 2 then 1 else 0), month, rest - (153 * m + 2).fdiv 5 + 1)

/-- The date of a time. -/
def dateOf (time : Int) : CalendarDate :=
  let days := time.fdiv 86400
  let seconds := time - days * 86400
  let (year, month, day) := dayOf days
  { year, month, day, hour := seconds.fdiv 3600, min := seconds.fdiv 60 % 60, sec := seconds % 60
    weekday := (days + 4).fmod 7 + 1, yearday := days - daysFrom1970 year 1 1 + 1, isSummer? := some false }

/-- The time of a date. -/
def timeOf (d : CalendarDate) : Int :=
  ((daysFrom1970 d.year d.month d.day * 24 + d.hour) * 60 + d.min) * 60 + d.sec

def dayNames : List String := ["Sunday", "Monday", "Tuesday", "Wednesday", "Thursday", "Friday", "Saturday"]

def monthNames : List String :=
  ["January", "February", "March", "April", "May", "June", "July", "August", "September", "October", "November",
    "December"]

/-- A number with a filling in front, in so many places. -/
def padded (places : Nat) (fill : Char) (n : Int) : String :=
  let digits := (toString n).toList
  String.ofList (List.replicate (places - digits.length) fill ++ digits)

/-- A date in the form of the last letter of a conversion. -/
def formatted (d : CalendarDate) (letter : Char) : String :=
  let dayName := dayNames.getD (d.weekday - 1).toNat ""
  let monthName := monthNames.getD (d.month - 1).toNat ""
  let short (s : String) : String := String.ofList (s.toList.take 3)
  let two := padded 2 '0'
  let hour12 := (d.hour + 11) % 12 + 1
  let clock := two d.hour ++ ":" ++ two d.min ++ ":" ++ two d.sec
  let slashed := two d.month ++ "/" ++ two d.day ++ "/" ++ two (d.year % 100)
  -- The week in which most days of it lie, counted from Mondays, tells the year of a week.
  let monday := d.yearday - 1 - (d.weekday + 5) % 7
  let thursday := dateOf ((daysFrom1970 d.year 1 1 + monday + 3) * 86400)
  match letter with
  | 'a' => short dayName
  | 'A' => dayName
  | 'b' | 'h' => short monthName
  | 'B' => monthName
  | 'c' =>
    short dayName ++ " " ++ short monthName ++ " " ++ padded 2 ' ' d.day ++ " " ++ clock ++ " " ++ toString d.year
  | 'C' => two (d.year.fdiv 100)
  | 'd' => two d.day
  | 'D' | 'x' => slashed
  | 'e' => padded 2 ' ' d.day
  | 'F' => toString d.year ++ "-" ++ two d.month ++ "-" ++ two d.day
  | 'g' => two (thursday.year % 100)
  | 'G' => toString thursday.year
  | 'H' => two d.hour
  | 'I' => two hour12
  | 'j' => padded 3 '0' d.yearday
  | 'm' => two d.month
  | 'M' => two d.min
  | 'n' => "\n"
  | 'p' => if d.hour < 12 then "AM" else "PM"
  | 'r' => two hour12 ++ ":" ++ two d.min ++ ":" ++ two d.sec ++ (if d.hour < 12 then " AM" else " PM")
  | 'R' => two d.hour ++ ":" ++ two d.min
  | 'S' => two d.sec
  | 't' => "\t"
  | 'T' | 'X' => clock
  | 'u' => toString ((d.weekday + 5) % 7 + 1)
  | 'U' => two ((d.yearday + 7 - d.weekday).fdiv 7)
  | 'V' => two ((thursday.yearday - 1).fdiv 7 + 1)
  | 'w' => toString (d.weekday - 1)
  | 'W' => two ((d.yearday + 6 - (d.weekday + 5) % 7).fdiv 7)
  | 'y' => two (d.year % 100)
  | 'Y' => toString d.year
  | 'z' => "+0000"
  | 'Z' => "GMT"
  | _ => "%"

/-! ## Locales -/

/-- The name of a locale that there is, as it is told; an empty name is that of the standard one. -/
def localeName? (name : ByteArray) : Option ByteArray :=
  if name.isEmpty || name == "C".toUTF8 || name == "POSIX".toUTF8 then some "C".toUTF8
  else if name == "C.UTF-8".toUTF8 then some name
  else none

/-- The locale of a category after calls, latest first. -/
def localeOf (category : LocaleCategory) : List PlatformCall → ByteArray
  | [] => "C".toUTF8
  | .setlocale (some name) set :: calls =>
    match localeName? name with
    | some found => if set = .all || set = category then found else localeOf category calls
    | none => localeOf category calls
  | _ :: calls => localeOf category calls

/-- The parts of a locale by the names under which they are told together; the last ones are set only with all
others. -/
def localeParts : List (String × LocaleCategory) :=
  [("LC_CTYPE", .ctype), ("LC_NUMERIC", .numeric), ("LC_TIME", .time), ("LC_COLLATE", .collate),
    ("LC_MONETARY", .monetary), ("LC_MESSAGES", .all), ("LC_PAPER", .all), ("LC_NAME", .all),
    ("LC_ADDRESS", .all), ("LC_TELEPHONE", .all), ("LC_MEASUREMENT", .all), ("LC_IDENTIFICATION", .all)]

/-- The current locale: where its parts differ, each is told. -/
def currentLocale (calls : List PlatformCall) : LocaleCategory → ByteArray
  | .all =>
    let parts := localeParts.map fun (name, category) => (name, localeOf category calls)
    let whole := localeOf .all calls
    if parts.all (·.2 == whole) then whole
    else (List.intercalate [59] (parts.map fun (name, part) => utf8 name ++ 61 :: part.toList)).toByteArray
  | category => localeOf category calls

/-! ## Streams -/

def noEntry : PlatformFault := ⟨"No such file or directory".toUTF8, 2⟩

/-- The fault of reading from a stream for writing, or the other way round. -/
def badDescriptor : PlatformFault := ⟨"Bad file descriptor".toUTF8, 9⟩

def illegalSeek : PlatformFault := ⟨"Illegal seek".toUTF8, 29⟩

/-- What has been written to the standard output and is kept back, after calls, latest first. -/
def pending : List PlatformCall → List UInt8
  | [] => []
  | .flush .output :: _ => []
  | .write .output bytes :: calls => pending calls ++ bytes.toList
  | _ :: calls => pending calls

/-- The answer to a call. -/
def answer (calls : List PlatformCall) : (c : PlatformCall) → Option c.Answer
  | .exit .. => none
  -- A hundredth.
  | .clock => some (0x3F847AE147AE147B : UInt64)
  | .time => some (some (1700000000 : Int64))
  | .date t _ => some (some (dateOf t.toInt))
  | .timeOf d => some (some (Int64.ofInt (timeOf d)), dateOf (timeOf d))
  | .format d letters => some (formatted d (Char.ofNat (letters.toList.getLast?.getD 37).toNat)).toUTF8
  | .hasShell => some false
  | .execute _ => some (.ok (⟨false, 127⟩ : CommandEnd))
  | .getenv _ => some (none : Option ByteArray)
  | .remove _ | .rename .. => some (.error noEntry : Except PlatformFault Unit)
  | .tmpname => some (some "/tmp/lua_XXXXXX".toUTF8)
  | .setlocale none category => some (some (currentLocale calls category))
  | .setlocale (some name) _ => some (localeName? name)
  | .open .. | .popen .. | .tmpfile => some (.error noEntry : Except PlatformFault Nat)
  | .close _ | .flush _ | .setvbuf .. => some (.ok () : Except PlatformFault Unit)
  | .wait _ => some (.ok (⟨false, 0⟩ : CommandEnd))
  | .read .input .all => some (⟨some ByteArray.empty, none⟩ : ReadAnswer)
  | .read .input _ => some (⟨none, none⟩ : ReadAnswer)
  | .read .. => some (⟨none, some badDescriptor⟩ : ReadAnswer)
  | .write .input _ => some (.error badDescriptor : Except PlatformFault Unit)
  | .write .. => some (.ok () : Except PlatformFault Unit)
  | .seek .. => some (.error illegalSeek : Except PlatformFault Int64)
  | .source none => some (.ok ByteArray.empty : Except SourceFault ByteArray)
  | .source (some _) => some (.error ⟨false, noEntry⟩ : Except SourceFault ByteArray)
  | .readable _ => some false

/-- The process. -/
def platform : Platform where
  answer := answer
  writes calls c := if c = .flush .output then pending calls else []
  takes _ _ := false
  rest := pending

end VaultConsole.Lua.Bare
