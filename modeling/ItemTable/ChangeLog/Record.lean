import ItemTable.Value.Wire
import ItemTable.Request
import ItemTable.ChangeLog.Position
import ItemTable.ChangeLog.Shard

/-!
Change records: as the service sends them, and as they are handed on.

A raw record may lack any of its parts. `Record.ofRaw` fills the gaps, so that a handler meets every
part.
-/
namespace ItemTable.ChangeLog

open ItemTable.Json

/-- What the records of a log carry of an item. -/
inductive ViewType where
  | keysOnly
  | newImage
  | oldImage
  | newAndOldImages
deriving DecidableEq, Repr

namespace ViewType

def name : ViewType → String
  | keysOnly => "KEYS_ONLY"
  | newImage => "NEW_IMAGE"
  | oldImage => "OLD_IMAGE"
  | newAndOldImages => "NEW_AND_OLD_IMAGES"

/-- The view of a record that does not say. -/
def default : ViewType := keysOnly

def choices : List (String × ViewType) :=
  [keysOnly, newImage, oldImage, newAndOldImages].map fun v => (v.name, v)

def ofName? (name : String) : Option ViewType := lookEntry name choices

def decode : Decoder ViewType := Decoder.choice choices

end ViewType

/-- What happened to an item. -/
inductive ChangeKind where
  | insert
  | modify
  | remove
deriving DecidableEq, Repr

namespace ChangeKind

def name : ChangeKind → String
  | insert => "INSERT"
  | modify => "MODIFY"
  | remove => "REMOVE"

def choices : List (String × ChangeKind) := [insert, modify, remove].map fun k => (k.name, k)

def ofName? (name : String) : Option ChangeKind := lookEntry name choices

def decode : Decoder ChangeKind := Decoder.choice choices

end ChangeKind

/-- Who made a change that the service itself made. -/
structure Identity where
  principal : String
  kind : String
deriving DecidableEq, Repr

namespace Identity

def toDocument (i : Identity) : Document :=
  .ofMembers [("PrincipalId", .text i.principal), ("Type", .text i.kind)]

def reader : RecordReader Identity :=
  ((RecordReader.required "PrincipalId" Decoder.text).map mk)
    |>.and (.required "Type" Decoder.text)

def decode : Decoder Identity := reader.decoder "Identity"

end Identity

/-- The change itself, as the service sends it. -/
structure RawChange where
  keys : Item := .empty
  newImage : Option Item := none
  oldImage : Option Item := none
  sequence : Option String := none
  size : Option Int := none
  view : Option ViewType := none
deriving DecidableEq

namespace RawChange

def toDocument (c : RawChange) : Document :=
  .ofPresent [
    itemMember "Keys" c.keys,
    .optional "NewImage" (c.newImage.map Item.toDocument),
    .optional "OldImage" (c.oldImage.map Item.toDocument),
    .text "SequenceNumber" c.sequence,
    .number "SizeBytes" c.size,
    .text "StreamViewType" (c.view.map ViewType.name)]

def reader : RecordReader RawChange :=
  ((RecordReader.defaulted "Keys" Item.decode .empty).map mk)
    |>.and (.optional "NewImage" Item.decode)
    |>.and (.optional "OldImage" Item.decode)
    |>.and (.optional "SequenceNumber" Decoder.text)
    |>.and (.optional "SizeBytes" Decoder.int64)
    |>.and (.optional "StreamViewType" ViewType.decode)

def decode : Decoder RawChange := reader.decoder "RawStreamData"

end RawChange

/-- A record as the service sends it. -/
structure RawRecord where
  id : Option String := none
  kind : Option ChangeKind := none
  version : Option String := none
  source : Option String := none
  region : Option String := none
  change : Option RawChange := none
  identity : Option Identity := none
deriving DecidableEq

namespace RawRecord

def toDocument (r : RawRecord) : Document :=
  .ofPresent [
    .text "eventID" r.id,
    .text "eventName" (r.kind.map ChangeKind.name),
    .text "eventVersion" r.version,
    .text "eventSource" r.source,
    .text "awsRegion" r.region,
    .optional "dynamodb" (r.change.map RawChange.toDocument),
    .optional "userIdentity" (r.identity.map Identity.toDocument)]

def reader : RecordReader RawRecord :=
  ((RecordReader.optional "eventID" Decoder.text).map mk)
    |>.and (.optional "eventName" ChangeKind.decode)
    |>.and (.optional "eventVersion" Decoder.text)
    |>.and (.optional "eventSource" Decoder.text)
    |>.and (.optional "awsRegion" Decoder.text)
    |>.and (.optional "dynamodb" RawChange.decode)
    |>.and (.optional "userIdentity" Identity.decode)

def decode : Decoder RawRecord := reader.decoder "RawRecord"

/-- The record with the view of its log, if it has a body that does not say. -/
def withView (view : Option ViewType) (r : RawRecord) : RawRecord :=
  { r with change := r.change.map fun c => { c with view := c.view.or view } }

end RawRecord

/-- A page of records and the cursor after it; none at the end of a closed shard. -/
structure RecordPage where
  records : List RawRecord
  next : Option Cursor
deriving DecidableEq

/-- What the service says about a log. -/
structure Description where
  shards : List Shard
  view : Option ViewType
deriving DecidableEq

/-- A record as it is handed on. -/
structure Record where
  id : String
  kind : Option ChangeKind
  version : String
  source : String
  region : String
  keys : Item
  newImage : Option Item
  oldImage : Option Item
  sequence : String
  size : Nat
  view : ViewType
  identity : Option Identity
deriving DecidableEq

namespace Record

/-- Empty texts, size zero and keys only stand for parts that a raw record lacks; a negative size
counts as lacking. -/
def ofRaw (raw : RawRecord) : Record :=
  let change := raw.change.getD {}
  { id := raw.id.getD ""
    kind := raw.kind
    version := raw.version.getD ""
    source := raw.source.getD ""
    region := raw.region.getD ""
    keys := change.keys
    newImage := change.newImage
    oldImage := change.oldImage
    sequence := change.sequence.getD ""
    size := (change.size.getD 0).toNat
    view := change.view.getD .default
    identity := raw.identity }

def toDocument (r : Record) : Document :=
  .ofPresent [
    .always "eventID" (.text r.id),
    .always "eventName" (.ofText? (r.kind.map ChangeKind.name)),
    .always "eventVersion" (.text r.version),
    .always "eventSource" (.text r.source),
    .always "awsRegion" (.text r.region),
    .always "dynamodb" (.ofPresent [
      .always "keys" r.keys.toDocument,
      .optional "newImage" (r.newImage.map Item.toDocument),
      .optional "oldImage" (r.oldImage.map Item.toDocument),
      .always "sequenceNumber" (.text r.sequence),
      .always "sizeBytes" (.ofNat r.size),
      .always "viewType" (.text r.view.name)]),
    .optional "userIdentity" (r.identity.map Identity.toDocument)]

end Record

end ItemTable.ChangeLog
