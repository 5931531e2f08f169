import ItemTable.Value.Wire

/-!
The three requests on a table and their wire form.

Members that are not set and maps that bind nothing are left out; the key of an update is always
written.
-/
namespace ItemTable

open ItemTable.Json

/-- Which attributes an update returns. -/
inductive ReturnValues where
  | none
  | allOld
  | updatedOld
  | allNew
  | updatedNew
deriving DecidableEq, Repr

namespace ReturnValues

def name : ReturnValues → String
  | none => "NONE"
  | allOld => "ALL_OLD"
  | updatedOld => "UPDATED_OLD"
  | allNew => "ALL_NEW"
  | updatedNew => "UPDATED_NEW"

/-- What an update returns unless it says otherwise. -/
def default : ReturnValues := none

def choices : List (String × ReturnValues) :=
  [none, allOld, updatedOld, allNew, updatedNew].map fun r => (r.name, r)

def decode : Decoder ReturnValues := Decoder.choice choices

end ReturnValues

/-- Which attributes a query or a scan returns. -/
inductive Selection where
  | allAttributes
  | allProjectedAttributes
  | specificAttributes
  | count
deriving DecidableEq, Repr

namespace Selection

def name : Selection → String
  | allAttributes => "ALL_ATTRIBUTES"
  | allProjectedAttributes => "ALL_PROJECTED_ATTRIBUTES"
  | specificAttributes => "SPECIFIC_ATTRIBUTES"
  | count => "COUNT"

/-- What is returned unless a request says otherwise. -/
def default : Selection := allAttributes

def choices : List (String × Selection) :=
  [allAttributes, allProjectedAttributes, specificAttributes, count].map fun s => (s.name, s)

def decode : Decoder Selection := Decoder.choice choices

end Selection

/-- A request for the items of one partition. -/
structure QueryRequest where
  table : String
  index : Option String
  keyCondition : String
  filter : Option String
  projection : Option String
  names : Bindings String
  values : Bindings AttributeValue
  forward : Option Bool
  limit : Option Int
  startKey : Item
  selection : Option Selection
  consistent : Option Bool
deriving DecidableEq

/-- A request for the items of a whole table or of one of its segments. -/
structure ScanRequest where
  table : String
  index : Option String
  filter : Option String
  projection : Option String
  names : Bindings String
  values : Bindings AttributeValue
  limit : Option Int
  startKey : Item
  segment : Option Int
  totalSegments : Option Int
  selection : Option Selection
  consistent : Option Bool
deriving DecidableEq

/-- A request to change one item. -/
structure UpdateRequest where
  table : String
  key : Item
  update : String
  condition : Option String
  names : Bindings String
  values : Bindings AttributeValue
  returnValues : Option ReturnValues
deriving DecidableEq

/-- A number that 32 signed bits hold. -/
def fitInt32 (n : Nat) : Option Int := if n < 0x80000000 then some n else none

/-- A member for the names that an expression refers to, left out if there are none. -/
def namesMember (names : Bindings String) : Member :=
  if names.isEmpty then none else some ("ExpressionAttributeNames", names.textDocument)

/-- A member for an item, left out if it is empty. -/
def itemMember (name : String) (item : Item) : Member :=
  if item.isEmpty then none else some (name, item.toDocument)

namespace QueryRequest

def toDocument (q : QueryRequest) : Document :=
  .ofPresent [
    .always "TableName" (.text q.table),
    .text "IndexName" q.index,
    .always "KeyConditionExpression" (.text q.keyCondition),
    .text "FilterExpression" q.filter,
    .text "ProjectionExpression" q.projection,
    namesMember q.names,
    itemMember "ExpressionAttributeValues" q.values,
    .flag "ScanIndexForward" q.forward,
    .number "Limit" q.limit,
    itemMember "ExclusiveStartKey" q.startKey,
    .text "Select" (q.selection.map Selection.name),
    .flag "ConsistentRead" q.consistent]

def reader : RecordReader QueryRequest :=
  ((RecordReader.required "TableName" Decoder.text).map mk)
    |>.and (.optional "IndexName" Decoder.text)
    |>.and (.required "KeyConditionExpression" Decoder.text)
    |>.and (.optional "FilterExpression" Decoder.text)
    |>.and (.optional "ProjectionExpression" Decoder.text)
    |>.and (.defaulted "ExpressionAttributeNames" (Decoder.bindings Decoder.text) .empty)
    |>.and (.defaulted "ExpressionAttributeValues" Item.decode .empty)
    |>.and (.optional "ScanIndexForward" Decoder.boolean)
    |>.and (.optional "Limit" Decoder.int32)
    |>.and (.defaulted "ExclusiveStartKey" Item.decode .empty)
    |>.and (.optional "Select" Selection.decode)
    |>.and (.optional "ConsistentRead" Decoder.boolean)

def decode : Decoder QueryRequest := reader.decoder "QueryInput"

end QueryRequest

namespace ScanRequest

def toDocument (s : ScanRequest) : Document :=
  .ofPresent [
    .always "TableName" (.text s.table),
    .text "IndexName" s.index,
    .text "FilterExpression" s.filter,
    .text "ProjectionExpression" s.projection,
    namesMember s.names,
    itemMember "ExpressionAttributeValues" s.values,
    .number "Limit" s.limit,
    itemMember "ExclusiveStartKey" s.startKey,
    .number "Segment" s.segment,
    .number "TotalSegments" s.totalSegments,
    .text "Select" (s.selection.map Selection.name),
    .flag "ConsistentRead" s.consistent]

def reader : RecordReader ScanRequest :=
  ((RecordReader.required "TableName" Decoder.text).map mk)
    |>.and (.optional "IndexName" Decoder.text)
    |>.and (.optional "FilterExpression" Decoder.text)
    |>.and (.optional "ProjectionExpression" Decoder.text)
    |>.and (.defaulted "ExpressionAttributeNames" (Decoder.bindings Decoder.text) .empty)
    |>.and (.defaulted "ExpressionAttributeValues" Item.decode .empty)
    |>.and (.optional "Limit" Decoder.int32)
    |>.and (.defaulted "ExclusiveStartKey" Item.decode .empty)
    |>.and (.optional "Segment" Decoder.int32)
    |>.and (.optional "TotalSegments" Decoder.int32)
    |>.and (.optional "Select" Selection.decode)
    |>.and (.optional "ConsistentRead" Decoder.boolean)

def decode : Decoder ScanRequest := reader.decoder "ScanInput"

end ScanRequest

namespace UpdateRequest

def toDocument (u : UpdateRequest) : Document :=
  .ofPresent [
    .always "TableName" (.text u.table),
    .always "Key" u.key.toDocument,
    .always "UpdateExpression" (.text u.update),
    .text "ConditionExpression" u.condition,
    namesMember u.names,
    itemMember "ExpressionAttributeValues" u.values,
    .text "ReturnValues" (u.returnValues.map ReturnValues.name)]

def reader : RecordReader UpdateRequest :=
  ((RecordReader.required "TableName" Decoder.text).map mk)
    |>.and (.required "Key" Item.decode)
    |>.and (.required "UpdateExpression" Decoder.text)
    |>.and (.optional "ConditionExpression" Decoder.text)
    |>.and (.defaulted "ExpressionAttributeNames" (Decoder.bindings Decoder.text) .empty)
    |>.and (.defaulted "ExpressionAttributeValues" Item.decode .empty)
    |>.and (.optional "ReturnValues" ReturnValues.decode)

def decode : Decoder UpdateRequest := reader.decoder "UpdateItemInput"

end UpdateRequest

end ItemTable
