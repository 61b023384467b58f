import ApiSurface.Snapshot.Decode
import ApiSurface.Json.Parser
import ApiSurface.Draft.Finish

/-!
Snapshots: the written form of a surface. A snapshot is decoded first and its surface is built then,
so a document that is no snapshot and one that describes an inconsistent surface fail in different
ways, although both are invalid snapshots.
-/

namespace ApiSurface

/-- A surface as a document describes it. -/
structure Snapshot where
  /-- Where the surface says it comes from. It counts more than where the document was read. -/
  location : Option String := none
  isPartial : Bool := false
  packages : List PackageSpec := []

namespace Snapshot

def decode : Json.Decoder Snapshot := fun levels document => do
  let m ← Json.Decode.closedRecord ["location", "partial_format", "packages"] levels document
  let location ← m.get "location" (Json.Decode.optional Json.Decode.text) none
  let isPartial ← m.get "partial_format" Json.Decode.bool false
  let packages ← m.get "packages" (Json.Decode.list Decode.packageSpec) []
  return { location, isPartial, packages }

/-- The draft of a snapshot before anything is declared in it. -/
def emptyDraft (snapshot : Snapshot) (readFrom : String) : Draft :=
  { location := snapshot.location.getD readFrom, isPartial := snapshot.isPartial }

/-- The surface that a snapshot describes, or the fault of its first element that cannot be
declared. -/
def toSurface (snapshot : Snapshot) (readFrom : String) : Except Fault Surface :=
  match (snapshot.emptyDraft readFrom).add
      (Addition.each Addition.packageSpec snapshot.packages) with
  | (.ok _, draft) => .ok draft.finish
  | (.error fault, _) => .error fault

end Snapshot

inductive SnapshotFailure where
  /-- The text is no snapshot document. -/
  | undecodable
  /-- The document describes a surface that cannot be built. -/
  | inconsistent (fault : Fault)
  deriving DecidableEq, Repr

namespace SnapshotFailure

def undecodableMessage : String := "the text is no snapshot document"

/-- The failure as a fault of the document read from a location. -/
def fault (location : String) : SnapshotFailure → Fault
  | .undecodable => .invalidSnapshot location undecodableMessage
  | .inconsistent fault => .invalidSnapshot location fault.message

end SnapshotFailure

def Surface.ofJson (document : Json) (location : String) : Except SnapshotFailure Surface :=
  match Snapshot.decode Json.depthLimit document with
  | none => .error .undecodable
  | some snapshot => (snapshot.toSurface location).mapError .inconsistent

def Surface.parse (text : String) (location : String) : Except SnapshotFailure Surface :=
  match Json.parse? text with
  | none => .error .undecodable
  | some document => Surface.ofJson document location

end ApiSurface
