import VaultConsole.Document.Lookup
import VaultConsole.Script.Error

/-!
# Vaults

What a session asks of a vault: its name, the documents that it lists, the active document and the content
of a document. The answers here are those of one moment; whoever changes the vault asks it again.

The host functions of a session are questions about documents, and each has one answer: a description or
the reason why there is none.
-/

namespace VaultConsole

/-- A vault at one moment. -/
structure Vault where
  name : String
  /-- The documents that the vault lists, in its order. -/
  documents : List Document
  active? : Option Document
  read : Document → Except ReadFault String
  /-- Whether reading has to wait for something outside of the session. -/
  waits : Bool
  /-- What is noted whenever the documents are listed. -/
  notices : List String

namespace Vault

/-- The descriptions of all listed documents. -/
def allFiles (v : Vault) : List Descriptor := v.documents.map Descriptor.ofDocument

/-- The description of the active document. -/
def activeFile (v : Vault) : Option Descriptor := v.active?.map Descriptor.ofDocument

/-- The document that a query names, with its content. -/
def document (v : Vault) (query : String) : Except BridgeError Descriptor :=
  match Lookup.resolve v.documents query with
  | none => .error (.documentNotFound query)
  | some d =>
    match v.read d with
    | .ok content => .ok ((Descriptor.ofDocument d).withContent content)
    | .error fault => .error (.read d.path fault.message)

/-- The content of the document that a query names. -/
def content (v : Vault) (query : String) : Except BridgeError String :=
  (v.document query).map fun d => d.content?.getD ""

end Vault

end VaultConsole
