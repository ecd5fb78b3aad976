import VaultConsole.Lua.Heap
import VaultConsole.Script.About

/-!
# The globals of a new session

Which functions and values a session starts with, and under which names. Functions that inspect running
code are left out, and packages that are not written in the language cannot be loaded.
-/

namespace VaultConsole.Lua.Library

/-! ## Names -/

/-- Functions without a table, by name. -/
def baseFunctions : List (String × BaseFunction) :=
  [("assert", .assert), ("collectgarbage", .collectgarbage), ("dofile", .dofile), ("error", .error),
    ("getmetatable", .getmetatable), ("ipairs", .ipairs), ("loadfile", .loadfile), ("load", .load),
    ("next", .next), ("pairs", .pairs), ("pcall", .pcall), ("warn", .warn), ("rawequal", .rawequal),
    ("rawlen", .rawlen), ("rawget", .rawget), ("rawset", .rawset), ("require", .require),
    ("select", .select), ("setmetatable", .setmetatable), ("tonumber", .tonumber),
    ("tostring", .tostring), ("type", .type), ("xpcall", .xpcall)]

/-- Functions on strings, by name. -/
def stringFunctions : List (String × StringFunction) :=
  [("byte", .byte), ("char", .char), ("dump", .dump), ("find", .find), ("format", .format),
    ("gmatch", .gmatch), ("gsub", .gsub), ("len", .len), ("lower", .lower), ("match", .match),
    ("rep", .rep), ("reverse", .reverse), ("sub", .sub), ("upper", .upper), ("pack", .pack),
    ("packsize", .packsize), ("unpack", .unpack)]

/-- Functions on tables, by name. -/
def tableFunctions : List (String × TableFunction) :=
  [("concat", .concat), ("insert", .insert), ("pack", .pack), ("unpack", .unpack),
    ("remove", .remove), ("move", .move), ("sort", .sort)]

/-- Functions on numbers, by name. -/
def mathFunctions : List (String × MathFunction) :=
  [("abs", .abs), ("ceil", .ceil), ("floor", .floor), ("max", .max), ("min", .min), ("fmod", .fmod),
    ("modf", .modf), ("log", .log), ("exp", .exp), ("sqrt", .sqrt), ("sin", .sin), ("cos", .cos),
    ("tan", .tan), ("asin", .asin), ("acos", .acos), ("atan", .atan), ("deg", .deg), ("rad", .rad),
    ("random", .random), ("randomseed", .randomseed), ("tointeger", .tointeger), ("type", .type),
    ("ult", .ult)]

/-- Functions on UTF-8 text, by name. -/
def utf8Functions : List (String × Utf8Function) :=
  [("offset", .offset), ("codepoint", .codepoint), ("char", .char), ("len", .len), ("codes", .codes)]

/-- Functions on coroutines, by name. -/
def coroutineFunctions : List (String × CoroutineFunction) :=
  [("create", .create), ("resume", .resume), ("running", .running), ("status", .status),
    ("wrap", .wrap), ("yield", .yield), ("isyieldable", .isyieldable), ("close", .close)]

/-- Functions on the system, by name. -/
def osFunctions : List (String × OsFunction) :=
  [("clock", .clock), ("date", .date), ("difftime", .difftime), ("execute", .execute), ("exit", .exit),
    ("getenv", .getenv), ("remove", .remove), ("rename", .rename), ("setlocale", .setlocale),
    ("time", .time), ("tmpname", .tmpname)]

/-- Functions on streams, by name. -/
def ioFunctions : List (String × IoFunction) :=
  [("close", .close), ("flush", .flush), ("input", .input), ("lines", .lines), ("open", .open),
    ("output", .output), ("popen", .popen), ("read", .read), ("tmpfile", .tmpfile), ("type", .type),
    ("write", .write)]

/-- Methods of streams. -/
def streamMethods : List String := ["close", "flush", "lines", "read", "seek", "setvbuf", "write"]

/-- Operations on strings that spell numbers, by name. -/
def stringOperations : List (String × StringArithmetic) :=
  [("__add", .add), ("__sub", .sub), ("__mul", .mul), ("__mod", .mod), ("__pow", .pow), ("__div", .div),
    ("__idiv", .idiv), ("__unm", .unm)]

/-- Functions of the host that are globals, by name. -/
def hostFunctions : List (String × HostFunction) :=
  [("log", .log), ("Note", .note), ("getNoteContent", .noteContent), ("print", .print)]

/-- Functions of the host on the vault, by name. -/
def appFunctions : List (String × HostFunction) :=
  [("getName", .name), ("getActiveFile", .activeFile), ("getAllFiles", .allFiles),
    ("getFrontmatter", .frontMatter), ("parseYaml", .parseYaml)]

/-- The places where a package is looked for. -/
def packagePath : String :=
  "/usr/local/share/lua/5.4/?.lua;/usr/local/share/lua/5.4/?/init.lua;/usr/local/lib/lua/5.4/?.lua;"
    ++ "/usr/local/lib/lua/5.4/?/init.lua;./?.lua;./?/init.lua"

/-- The places where a package that is not written in the language would be looked for. -/
def nativePath : String :=
  "/usr/local/lib/lua/5.4/?.so;/usr/local/lib/lua/5.4/loadall.so;./?.so"

/-- What separates the parts of paths. -/
def pathConfiguration : String := "/\n;\n?\n!\n-\n"

/-- The pattern that matches one character of UTF-8 text. -/
def charPattern : ByteArray :=
  ⟨#[0x5B, 0x00, 0x2D, 0x7F, 0xC2, 0x2D, 0xFD, 0x5D, 0x5B, 0x80, 0x2D, 0xBF, 0x5D, 0x2A]⟩

/-- What the language calls itself. -/
def languageVersion : String := "Lua 5.4"

/-! ## Installation -/

/-- Functions as named values. -/
def named (build : α → Builtin) (fs : List (String × α)) : List (String × Value) :=
  fs.map fun (name, f) => (name, .builtin (build f))

/-- A table with entries under texts. -/
def tableOf (entries : List (String × Value)) : Table :=
  entries.foldl (fun t (k, v) => t.setText k v) (Table.withRoom 0 entries.length)

/-- Adds a table with entries under texts. -/
def addTable (h : Heap) (entries : List (String × Value)) : Heap × Nat := h.newTable (tableOf entries)

/-- Adds tables with entries under texts, and gives them back under their names. -/
def addTables (h : Heap) : List (String × List (String × Value)) → Heap × List (String × Value)
  | [] => (h, [])
  | (name, entries) :: rest =>
    let (h, r) := addTable h entries
    let (h, tables) := addTables h rest
    (h, (name, .table r) :: tables)

/-- The tables of functions. -/
def libraries : List (String × List (String × Value)) :=
  [("coroutine", named .coroutine coroutineFunctions),
    ("table", named .table tableFunctions),
    ("io", named .io ioFunctions ++
      [("stdin", .stream .input), ("stdout", .stream .output), ("stderr", .stream .error)]),
    ("os", named .os osFunctions),
    ("string", named .string stringFunctions),
    ("math", named .math mathFunctions ++
      [("pi", .float 0x400921FB54442D18), ("huge", .float 0x7FF0000000000000),
        ("maxinteger", .int Int64.maxValue), ("mininteger", .int Int64.minValue)]),
    ("utf8", named .utf8 utf8Functions ++ [("charpattern", .string charPattern)])]

/-- The namespace in which a session finds what it tells about itself. -/
def aboutEntries : List (String × Value) :=
  [("version", .text About.version), ("about", .text About.about),
    ("header", .text (About.banner languageVersion))]

/-- The bytes that a session is taken to use before it runs anything. -/
def startSize : Nat := 30000

/-- A heap without anything. -/
def emptyHeap (limit? : Option Nat) : Heap where
  tables := #[]
  closures := #[]
  cells := #[]
  matchers := #[]
  failures := #[]
  dumped := #[]
  globals := 0
  loaded := 0
  preload := 0
  package := 0
  stringMeta := none
  streamMeta := none
  failureMeta := none
  sequenceMeta := 0
  printed := Capture.empty
  logged := []
  streams := Streams.standard
  calls := []
  random := ⟨0xFF, 0x1234567, 0x89ABCDEF, 0x13579BDF⟩
  used := startSize
  limit? := limit?

/-- The heap of a new session. -/
def startHeap (limit? : Option Nat) : Heap :=
  let h := emptyHeap limit?
  let (h, globals) := addTable h []
  let (h, loaded) := addTable h []
  let (h, tables) := addTables h libraries
  let (h, preload) := addTable h []
  -- They are asked in this order.
  let searchers : List Value :=
    [.builtin (.package .preloadSearcher), .builtin (.package .fileSearcher),
      .builtin (.package .nativeSearcher)]
  let (h, searchers) := h.newTable ((Table.withRoom 3 0).setItems 0 searchers)
  let (h, package) := addTable h
    [("searchpath", .builtin (.package .searchpath)), ("loadlib", .builtin (.package .loadlib)),
      ("preload", .table preload), ("path", .text packagePath), ("cpath", .text nativePath),
      ("config", .text pathConfiguration), ("loaded", .table loaded), ("searchers", .table searchers)]
  let tables := tables ++ [("package", .table package)]
  let (h, app) := addTable h (named .host appFunctions)
  let (h, about) := addTable h aboutEntries
  let (h, strings) := addTable h (named .arithmetic stringOperations ++
    [("__index", (tables.lookup "string").getD .nil)])
  let (h, methods) := addTable h (streamMethods.map fun name =>
    (name, .builtin (.io (.streamMethod name))))
  let (h, streams) := addTable h
    [("__index", .table methods), ("__name", .text "FILE*"),
      ("__gc", .builtin (.io (.streamMethod "gc"))), ("__close", .builtin (.io (.streamMethod "gc"))),
      ("__tostring", .builtin (.io (.streamMethod "tostring")))]
  let (h, failures) := addTable h
    [("__metatable", .bool false), ("__tostring", .builtin (.host .failureText))]
  let (h, sequences) := addTable h [("__metatable", .bool false)]
  -- The tables know one another, so that these two are filled when all are there.
  let h := h.modifyTable loaded fun _ => tableOf (("_G", .table globals) :: tables)
  let h := h.modifyTable globals fun _ => tableOf
    (named .base baseFunctions ++ [("_G", .table globals), ("_VERSION", .text languageVersion)] ++ tables
      ++ [("app", .table app)] ++ named .host hostFunctions ++ [(About.globalName, .table about)])
  { h with
    globals := globals
    loaded := loaded
    preload := preload
    package := package
    stringMeta := some strings
    streamMeta := some streams
    failureMeta := some failures
    sequenceMeta := sequences
    -- What the libraries take is in the size that a session starts with.
    used := startSize }

end VaultConsole.Lua.Library
