import VaultConsole.Files.Components
import VaultConsole.Files.Walk
import VaultConsole.Text.Quoted
import VaultConsole.Vault.Basic

/-!
# A vault in a directory

A directory of a file tree as a vault. It lists the markdown files below the directory in the order in which
a walk meets them, each by its path of names; hidden names and names that are no text are passed by. The
directory itself may be hidden. Every document path is followed from the directory, whatever it holds. The
files are looked at anew with every question, so that the listing is that of the tree at the time.
-/

namespace VaultConsole

namespace Path

/-- The segments of a path as names of files. -/
def names (path : String) : List FileName := (segments path.toList).map FileName.ofChars

/-- The path of names joined, if every name is a text. -/
def ofNames? (names : List FileName) : Option String :=
  (names.mapM FileName.chars?).map fun segments => String.ofList (List.intercalate ['/'] segments)

/-- The path that leads from one path to another one below it, if it is a text. -/
def relative? (root path : List UInt8) : Option String :=
  ((components root).isPrefixOf? (components path)).bind fun rest => ofNames? (rest.map Component.bytes)

end Path

/-- A directory of a file tree as a vault. -/
structure DirectoryVault where
  /-- The tree that the directory is in. -/
  files : FileTree
  /-- The directory from which the path of the vault is followed. -/
  base : Location
  /-- The path of the directory of the vault. -/
  root : String
  name : String
  /-- The path of the document that was made the active one. -/
  active? : Option String
  deriving Inhabited

namespace DirectoryVault

/-- The name of a vault whose directory has none. -/
def unnamed : String := "vault"

/-- Where a path leads from a directory, if it can be a path at all. The empty path leads nowhere. -/
def find (files : FileTree) (base : Location) (path : String) : Except FileFault (Location × Nat) :=
  if path.toList.contains '\x00' then .error .nulInName
  else if path.isEmpty then .error .noSuchFile
  else files.follow FileTree.maxLinks base path.toUTF8.toList

/-- The name of the directory at the end of a path. -/
def nameOf (files : FileTree) (base : Location) (root : String) : String :=
  match find files base root with
  | .error _ => unnamed
  | .ok (l, _) =>
    match l.getLast?.bind FileName.chars? with
    | some cs => String.ofList cs
    | none => unnamed

/-- The vault of a directory, with an active document if one is given. The name is that of the directory
at the time, and stays. -/
def new (files : FileTree) (base : Location) (root : String) (active? : Option String) : DirectoryVault :=
  ⟨files, base, root, nameOf files base root, active?⟩

/-- Makes a document the active one. -/
def setActive (v : DirectoryVault) (path? : Option String) : DirectoryVault := { v with active? := path? }

/-! ## The listing -/

/-- What a walk through the vault meets. -/
def visits (v : DirectoryVault) : List Visit :=
  match find v.files v.base v.root with
  | .error fault => [.broken [] fault]
  | .ok (l, links) =>
    match v.files.find? l with
    | some (.directory entries) => v.files.walk links [⟨l, []⟩] [] l entries
    | _ => []

/-- Whether a file with a path of names is one that the vault lists. -/
def lists (names : List FileName) : Bool :=
  names.getLast?.any fun name => name.extension? == some (FileName.ofChars markdownExtension.toList)

/-- The document that a visit below a root finds. -/
def documentOf? (root : List UInt8) (visit : Visit) : Option Document :=
  match visit.file? with
  | some names => if lists names then (Path.relative? root (Path.below root names)).map Document.mk else none
  | none => none

/-- The documents below the directory. -/
def markdownFiles (v : DirectoryVault) : List Document :=
  v.visits.filterMap (documentOf? v.root.toUTF8.toList)

/-! ## Notices of a listing -/

/-- A path of names below the directory, as messages show it. -/
def shownPath (v : DirectoryVault) (names : List FileName) : String :=
  let shown := names.map fun name => String.ofList (Text.Utf8.decodeLossy name)
  if names.isEmpty then v.root
  else v.root ++ (if v.root.endsWith "/" then "" else "/") ++ "/".intercalate shown

/-- Why a visit finds nothing that can be listed. -/
def hindrance? (v : DirectoryVault) : Visit → Option String
  | .file _ => none
  | .broken path fault => some ("IO error for operation on " ++ v.shownPath path ++ ": " ++ fault.message)
  | .loop path above =>
    some ("File system loop found: " ++ v.shownPath path ++ " points to an ancestor " ++ v.shownPath above)

/-- What is noted with every listing. -/
def notices (v : DirectoryVault) : List String :=
  (v.visits.filterMap v.hindrance?).map fun text => "Cannot list " ++ Text.quoted v.root ++ ": " ++ text

/-! ## Documents -/

/-- Where the path of the vault begins. -/
def start (v : DirectoryVault) : Location := origin v.base v.root.toUTF8.toList

/-- The path of a document from where the path of the vault begins: the segments of the vault and those
of the document. -/
def pathOf (v : DirectoryVault) (d : Document) : List FileName := Path.names v.root ++ Path.names d.path

/-- The path of a document below a root, as the file system is given it. -/
def absolute (root : List UInt8) (d : Document) : List UInt8 := Path.below root (Path.names d.path)

/-- The active document; there is one as long as a file is at its path. -/
def activeFile (v : DirectoryVault) : Option Document :=
  (v.active?.map Document.mk).filter fun d =>
    let path := absolute v.root.toUTF8.toList d
    v.files.isFile (origin v.base path) (segmentsOf path)

/-- The content of a document. -/
def read (v : DirectoryVault) (d : Document) : Except ReadFault String :=
  let path := absolute v.root.toUTF8.toList d
  (v.files.readText (origin v.base path) (segmentsOf path)).mapError ReadFault.file

/-- The vault as sessions see it; a content has to be waited for. -/
def view (v : DirectoryVault) : Vault := ⟨v.name, v.markdownFiles, v.activeFile, v.read, true, v.notices⟩

end DirectoryVault

end VaultConsole
