import VaultConsole.Lua.Library.Loading

/-!
# Functions on packages

A package is looked for by searchers in turn: among the loaders that are there already, and in files at the places
of a path. Packages that are not written in the language are refused.
-/

namespace VaultConsole.Lua.Library

/-! ## Files of packages -/

/-- Bytes with every occurrence of a part replaced. -/
def replaceAll (part other : List UInt8) : Nat → List UInt8 → List UInt8
  | 0, s => s
  | _ + 1, [] => []
  | fuel + 1, b :: r =>
    if part.isPrefixOf (b :: r) then other ++ replaceAll part other fuel ((b :: r).drop part.length)
    else b :: replaceAll part other fuel r

/-- Bytes with every occurrence of a part that is not empty replaced. -/
def substitute (part other s : List UInt8) : List UInt8 :=
  if part.isEmpty then s else replaceAll part other s.length s

/-- The bytes split at a byte. -/
def splitAt (b : UInt8) : List UInt8 → List (List UInt8)
  | [] => [[]]
  | c :: cs =>
    match splitAt b cs with
    | s :: ss => if c == b then [] :: s :: ss else (c :: s) :: ss
    | [] => [[c]]

/-- The files at the places of a path that a name can be in; `separator` in the name stands for `other`. -/
def candidates (name path separator other : List UInt8) : List ByteArray :=
  let file := substitute separator other name
  (splitAt 59 path).map fun place => (substitute [63] file place).toByteArray

/-- Why no file was found. -/
def missingFiles (files : List ByteArray) : ByteArray :=
  match files.map fun file => "no file '".toUTF8 ++ file ++ "'".toUTF8 with
  | [] => ByteArray.empty
  | l :: ls => ls.foldl (fun t l => t ++ "\n\t".toUTF8 ++ l) l

/-- The first file that can be opened. -/
def firstReadable : List ByteArray → Action (Option ByteArray)
  | [] => pure none
  | file :: files => do
    let found : Bool ← Action.platform (.readable file)
    if found then return some file else firstReadable files

/-- Looks for a package in a file at the places of the path of packages. -/
def searchFile (level : Nat) (args : Args) : Action (List Value) := do
  let name ← args.name 1
  let package ← Action.inspect (·.package)
  match (← Metamethod.index (.table package) (.text "path")).toBytes? with
  | none => Action.failLocated "'package.path' must be a string"
  | some path =>
    let files := candidates name.toList (beforeNul path.toList) (utf8 ".") (utf8 "/")
    match ← firstReadable files with
    | none => return [.string (missingFiles files)]
    | some file =>
      match ← loadNamed level (some file) "bt".toUTF8 none with
      | .ok f => return [f, .string file]
      | .error message =>
        Action.fail (.located ("error loading module '".toUTF8 ++ name ++ "' from file '".toUTF8 ++ file
          ++ "':\n\t".toUTF8 ++ message))

/-! ## The functions -/

/-- Carries out a function on packages; `level` is the nesting that is in use already. -/
def package (level : Nat) (f : PackageFunction) (args : Args) : Action (List Value) :=
  match f with
  | .searchpath => do
    let name ← args.name 1
    let path ← args.name 2
    let separator := (← args.name? 3).getD ".".toUTF8
    let other := (← args.name? 4).getD "/".toUTF8
    let files := candidates name.toList path.toList separator.toList other.toList
    match ← firstReadable files with
    | some file => return [.string file]
    | none => return [.nil, .string (missingFiles files)]
  | .loadlib => Action.failHost (.safety "package.loadlib is disabled in safe mode")
  | .preloadSearcher => do
    let name ← args.bytes 1
    let preload ← Action.inspect (·.preload)
    match ← Metamethod.index (.table preload) (.string name) with
    | .nil => return [.string ("no field package.preload['".toUTF8 ++ name ++ "']".toUTF8)]
    | f => return [f, .text ":preload:"]
  | .fileSearcher => searchFile level args
  | .nativeSearcher => pure [.text "\n\tcan't load C modules in safe mode"]

/-- Asks the searchers from the `i`-th on for a package. -/
def findPackage (name : ByteArray) (searchers : Nat) : Nat → Nat → ByteArray → Action (List Value)
  | 0, _, _ => pure []
  | fuel + 1, i, reasons => do
    match ← Action.inspect (·.rawGet searchers (Value.ofNat i)) with
    | .nil => Action.fail (.located ("module '".toUTF8 ++ name ++ "' not found:".toUTF8 ++ reasons))
    | f =>
      let rs ← Action.call f [.string name]
      let found := rs.headD .nil
      -- Anything but a loader says why there is none.
      if found.type == .function then return [found, rs.getD 1 .nil]
      else
        match found.toBytes? with
        | some s => findPackage name searchers fuel (i + 1) (reasons ++ "\n\t".toUTF8 ++ s)
        | none => findPackage name searchers fuel (i + 1) reasons

/-- Gives a package, loading it if that was not done before. -/
def require (args : Args) : Action (List Value) := do
  let name ← args.bytes 1
  let loaded ← Action.inspect (·.loaded)
  let v ← Metamethod.index (.table loaded) (.string name)
  if v.isTruthy then return [v]
  else
    let package ← Action.inspect (·.package)
    match ← Metamethod.index (.table package) (.text "searchers") with
    | .table searchers =>
      let found ← findPackage name searchers maxTurns 1 ByteArray.empty
      let data := found.getD 1 .nil
      match ← Action.call1 (found.headD .nil) [.string name, data] with
      -- A loader that gives nothing may have stored the package itself.
      | .nil => pure ()
      | r => Metamethod.setIndex (.table loaded) (.string name) r
      let v ← Metamethod.index (.table loaded) (.string name)
      if v.isNil then
        Metamethod.setIndex (.table loaded) (.string name) (.bool true)
        return [.bool true, data]
      else return [v, data]
    | _ => Action.failLocated "'package.searchers' must be a table"

end VaultConsole.Lua.Library
