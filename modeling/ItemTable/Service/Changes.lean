import ItemTable.ChangeLog.Record
import ItemTable.Service.Exchange

/-!
The change-log operations of the service.

A log is described page by page: each further request names the shard at which the page before it
ended, and the shards of all pages are gathered.
-/
namespace ItemTable.Service

open ItemTable.ChangeLog
open ItemTable.Json

/-- The operations on change logs, by the name that a request is addressed with. -/
def logTarget (operation : String) : String := "DynamoDBStreams_20120810." ++ operation

/-- A shard as the service sends it. -/
structure SentShard where
  id : Option String
  parent : Option String

/-- One page of a log's description. -/
structure SentDescription where
  shards : List SentShard
  view : Option String
  /-- The shard at which the page ends, if another page follows. -/
  lastShard : Option String

def SentShard.read? : Document → Option SentShard := objectOf? fun d => do
  let id ← member? "ShardId" textOf? d
  let parent ← member? "ParentShardId" textOf? d
  return { id, parent }

/-- Shards without an id are left out. -/
def SentShard.toShard? (s : SentShard) : Option Shard := s.id.map fun id => ⟨id, s.parent⟩

namespace SentDescription

/-- Reads the description itself. -/
def readPage? : Document → Option SentDescription := objectOf? fun d => do
  let shards ← member? "Shards" (listOf? SentShard.read?) d
  let view ← member? "StreamViewType" textOf? d
  let lastShard ← member? "LastEvaluatedShardId" textOf? d
  return { shards := shards.getD [], view, lastShard }

/-- Reads an answer, which may lack the description. -/
def read? : Document → Option (Option SentDescription) :=
  objectOf? (member? "StreamDescription" readPage?)

end SentDescription

/-- Adds a page to a description. The first view that is known counts. -/
def addPage (d : Description) (page : SentDescription) : Description where
  shards := d.shards ++ page.shards.filterMap SentShard.toShard?
  view := d.view.or (page.view.bind ViewType.ofName?)

def describeRequest (log : String) (start : Option String) : Sent where
  target := logTarget "DescribeStream"
  body := .ofPresent [.always "StreamArn" (.text log), .text "ExclusiveStartShardId" start]

/-- Describes a log from a shard on. When no reply is left the answer lacks the description, which
ends the log. -/
def describeFrom (log : String) (start : Option String) (d : Description) (sent : List Sent) :
    List Reply → Except Failure Description × Exchange
  | [] => (.ok d, { replies := [], sent := sent ++ [describeRequest log start] })
  | reply :: replies =>
    let sent := sent ++ [describeRequest log start]
    match reply.result SentDescription.read? with
    | .error f => (.error f, { replies, sent })
    | .ok none => (.ok d, { replies, sent })
    | .ok (some page) =>
      match page.lastShard with
      | some last => describeFrom log (some last) (addPage d page) sent replies
      | none => (.ok (addPage d page), { replies, sent })

def describe (log : String) (x : Exchange) : Except Failure Description × Exchange :=
  describeFrom log none ⟨[], none⟩ x.sent x.replies

def cursorRequest (log shard : String) (position : Position) : Sent where
  target := logTarget "GetShardIterator"
  body := .ofPresent [
    .always "StreamArn" (.text log),
    .always "ShardId" (.text shard),
    .always "ShardIteratorType" (.text position.mode),
    .text "SequenceNumber" position.sequence?]

/-- The cursor at a position of a shard; none if the shard is gone. -/
def acquire (log shard : String) (position : Position) (x : Exchange) :
    Except Failure (Option Cursor) × Exchange :=
  let (token, x) := x.call (cursorRequest log shard position)
    (objectOf? (member? "ShardIterator" textOf?))
  match token with
  | .ok token => (.ok (token.map Cursor.mk), x)
  | .error f => (if f.fault.kind = .resourceNotFound then .ok none else .error f, x)

structure SentChange where
  keys : Option Fields
  newImage : Option Fields
  oldImage : Option Fields
  sequence : Option String
  size : Option Int
  view : Option String

/-- A record as the service sends it. -/
structure SentRecord where
  id : Option String
  kind : Option String
  version : Option String
  source : Option String
  region : Option String
  change : Option SentChange
  /-- The principal and the kind of an identity. -/
  identity : Option (Option String × Option String)

structure SentRecords where
  records : List SentRecord
  next : Option String

def SentChange.read? : Document → Option SentChange := objectOf? fun d => do
  let keys ← member? "Keys" Fields.read? d
  let newImage ← member? "NewImage" Fields.read? d
  let oldImage ← member? "OldImage" Fields.read? d
  let sequence ← member? "SequenceNumber" textOf? d
  let size ← member? "SizeBytes" (wholeOf? (-0x8000000000000000) 0x7FFFFFFFFFFFFFFF) d
  let view ← member? "StreamViewType" textOf? d
  return { keys, newImage, oldImage, sequence, size, view }

def readIdentity? : Document → Option (Option String × Option String) := objectOf? fun d => do
  let principal ← member? "PrincipalId" textOf? d
  let kind ← member? "Type" textOf? d
  return (principal, kind)

def SentRecord.read? : Document → Option SentRecord := objectOf? fun d => do
  let id ← member? "eventID" textOf? d
  let kind ← member? "eventName" textOf? d
  let version ← member? "eventVersion" textOf? d
  let source ← member? "eventSource" textOf? d
  let region ← member? "awsRegion" textOf? d
  let change ← member? "dynamodb" SentChange.read? d
  let identity ← member? "userIdentity" readIdentity? d
  return { id, kind, version, source, region, change, identity }

def SentRecords.read? : Document → Option SentRecords := objectOf? fun d => do
  let records ← member? "Records" (listOf? SentRecord.read?) d
  let next ← member? "NextShardIterator" textOf? d
  return { records := records.getD [], next }

/-- An image, if it is there, without unknown values. -/
def toImage? : Option Fields → Option (Option Item)
  | some fields => some <$> fields.toItem?
  | none => some none

/-- The change, if no value is unknown. A view that is not known counts as none. -/
def SentChange.toRaw? (c : SentChange) : Option RawChange := do
  let keys ← toImage? c.keys
  let newImage ← toImage? c.newImage
  let oldImage ← toImage? c.oldImage
  return {
    keys := keys.getD .empty, newImage, oldImage, sequence := c.sequence, size := c.size
    view := c.view.bind ViewType.ofName? }

/-- The record, if no value is unknown. A kind that is not known counts as none, and a part that an
identity lacks as empty. -/
def SentRecord.toRaw? (r : SentRecord) : Option RawRecord := do
  let change ← match r.change with
    | some change => some <$> change.toRaw?
    | none => some none
  return {
    id := r.id, kind := r.kind.bind ChangeKind.ofName?, version := r.version, source := r.source
    region := r.region, change
    identity := r.identity.map fun i => ⟨i.1.getD "", i.2.getD ""⟩ }

/-- The page, if no value is unknown. -/
def SentRecords.toPage? (p : SentRecords) : Option RecordPage := do
  let records ← p.records.mapM SentRecord.toRaw?
  return { records, next := p.next.map Cursor.mk }

/-- The largest number of records that a request can ask for. -/
def maxFetch : Nat := 0x7FFFFFFF

def fetchRequest (cursor : Cursor) (limit : Nat) : Sent where
  target := logTarget "GetRecords"
  body := .ofPresent [
    .always "ShardIterator" (.text cursor.token),
    .always "Limit" (.ofNat (min limit maxFetch))]

def fetch (cursor : Cursor) (limit : Nat) (x : Exchange) : Except Failure RecordPage × Exchange :=
  let (page, x) := x.call (fetchRequest cursor limit) SentRecords.read?
  (page >>= fun p => known p.toPage?, x)

end ItemTable.Service
