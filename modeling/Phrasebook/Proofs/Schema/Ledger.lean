import Phrasebook.Document.Basic
import Phrasebook.Document.Visit
import Phrasebook.Template.Compiler

/-! # The ledger of accepted texts

A flat account of merging: all that is kept are the paths of the texts accepted so far, each with
its signature, in the order in which they were first met. Whether the next text is accepted, and if
not, which failure it leads to, is told by the ledger alone (`Ledger.accept`). -/

namespace Phrasebook

/-- **The accepted paths**, each with the signature that its first text has set. -/
abbrev Ledger := OrderedMap KeyPath Signature

namespace Ledger

/-- The signature of the text of a key in a locale, or the failure to compile it. -/
def signatureOf (compiler : Compiler) (key locale value : Text) : Except Fault Signature :=
  match compiler value with
  | .ok compiled => .ok compiled.signature
  | .error (.template f) => .error (.problem (.templateSyntax key locale f.reason f.position))
  | .error (.crash c) => .error (.crash c)

/-- **Accepts the text at a path in a locale**, or tells the failure. In this order: a proper
beginning of the path is a text; the path is a proper beginning of a text; the text does not
compile, or has another signature, at a path that is known; another path has the key of this one;
the text does not compile. -/
def accept (compiler : Compiler) (l : Ledger) (locale : Text) (path : KeyPath) (value : Text) :
    Except Fault Ledger :=
  match path.ancestors.find? (· ∈ l.keys) with
  | some ancestor => .error (.problem (.structureMismatch ancestor.key locale))
  | none =>
    if ∃ q ∈ l.keys, path ∈ q.ancestors then
      .error (.problem (.structureMismatch path.key locale))
    else
      match l.get? path with
      | some expected =>
        (signatureOf compiler path.key locale value).bind fun actual =>
          if actual = expected then .ok l
          else .error (.problem (.signatureMismatch path.key locale expected.describe
            actual.describe))
      | none =>
        if ∃ q ∈ l.keys, q.key = path.key then .error (.problem (.keyCollision path.key locale))
        else
          (signatureOf compiler path.key locale value).bind fun actual =>
            .ok (l ++ [(path, actual)])

section Documents
variable (compiler : Compiler) (limit : Int) (locale : Text)

mutual

/-- **Accepts the texts of a tree**, depth first and in order. The tree stands at a path, inside of
a number of containers; no container may be inside of as many as the limit says. -/
def acceptTree (depth : Nat) (path : KeyPath) (l : Ledger) :
    Datum Foreign → Except Fault Ledger
  | .text value => accept compiler l locale path value
  | .map entries =>
    if limit ≤ depth then .error (.problem (.depthExceeded limit path.key))
    else acceptEntries (depth + 1) path l entries
  | .list items =>
    if limit ≤ depth then .error (.problem (.depthExceeded limit path.key))
    else acceptItems (depth + 1) path 0 l items
  | .null | .bool _ | .number _ | .tuple _ | .other _ => .ok l

/-- Accepts the texts of the items of a list from a position on. -/
def acceptItems (depth : Nat) (path : KeyPath) (position : Nat) (l : Ledger) :
    List (Datum Foreign) → Except Fault Ledger
  | [] => .ok l
  | item :: rest =>
    (acceptTree depth (path.child (.name (Numeral.ofNat position))) l item).bind fun l =>
      acceptItems depth path (position + 1) l rest

/-- Accepts the texts of the entries of a mapping. -/
def acceptEntries (depth : Nat) (path : KeyPath) (l : Ledger) :
    List (DatumKey × Datum Foreign) → Except Fault Ledger
  | [] => .ok l
  | (key, value) :: rest =>
    (acceptTree depth (path.child (.name key.toText)) l value).bind fun l =>
      acceptEntries depth path l rest

end

/-- Accepts the texts of a document. The tree must be a container; if it is none, there is a
mismatch at the root, whose key is empty. -/
def acceptDocument (l : Ledger) (document : Document) : Except Fault Ledger :=
  if document.tree.isContainer then
    acceptTree compiler limit document.locale 0 .root l document.tree
  else .error (.problem (.rootMismatch document.locale))

/-- **Accepts the texts of documents**, one document after the other. -/
def acceptDocuments (l : Ledger) : List Document → Except Fault Ledger
  | [] => .ok l
  | document :: rest =>
    (acceptDocument compiler limit l document).bind fun l => acceptDocuments l rest

end Documents

end Ledger

end Phrasebook
