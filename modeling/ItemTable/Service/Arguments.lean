import ItemTable.Request
import ItemTable.Service.Value

/-!
What is set of a request before it is sent.

The client of the service takes the members of a request one by one and writes those that have been
set. A map of names or of values that is empty is not set; the key of an update always is.
-/
namespace ItemTable.Service

open ItemTable.Json

namespace Value

open AttributeValue (tagged bytesDocument)

mutual

/-- The wire form of a value of the service. A value of an unknown type has none. -/
def toDocument : Value → Document
  | text s => tagged .text (.text s)
  | number n => tagged .number (.text n)
  | binary bytes => tagged .binary (bytesDocument bytes)
  | textSet elements => tagged .textSet (.ofList (elements.map .text))
  | numberSet elements => tagged .numberSet (.ofList (elements.map .text))
  | binarySet elements => tagged .binarySet (.ofList (elements.map bytesDocument))
  | boolean b => tagged .boolean (.boolean b)
  | null b => tagged .null (.boolean b)
  | list items => tagged .list (.list (itemDocuments items) true)
  | map fields => tagged .map (.object (fieldDocuments fields) true)
  | unknown => .broken

def itemDocuments : List Value → List Document
  | [] => []
  | v :: vs => toDocument v :: itemDocuments vs

def fieldDocuments : Fields → List (Label × Document)
  | [] => []
  | (name, v) :: fields => (some name, toDocument v) :: fieldDocuments fields

end

end Value

namespace Fields

def toDocument (fields : Fields) : Document := .object (Value.fieldDocuments fields) true

/-- The service's form of an item. -/
def ofItem (item : Item) : Fields := Value.ofEntries item.entries

/-- An item for a request; an empty one is not set. -/
def ofItem? (item : Item) : Option Fields := if item.isEmpty then none else some (ofItem item)

end Fields

/-- The names that an expression refers to; none are not set. -/
def namesOf? (names : Bindings String) : Option (Bindings String) :=
  if names.isEmpty then none else some names

/-- What is set of a query. -/
structure QueryArguments where
  table : Option String
  index : Option String
  keyCondition : Option String
  filter : Option String
  projection : Option String
  names : Option (Bindings String)
  values : Option Fields
  forward : Option Bool
  limit : Option Int
  startKey : Option Fields
  selection : Option String
  consistent : Option Bool

def QueryArguments.ofRequest (q : QueryRequest) : QueryArguments where
  table := some q.table
  index := q.index
  keyCondition := some q.keyCondition
  filter := q.filter
  projection := q.projection
  names := namesOf? q.names
  values := Fields.ofItem? q.values
  forward := q.forward
  limit := q.limit
  startKey := Fields.ofItem? q.startKey
  selection := q.selection.map Selection.name
  consistent := q.consistent

/-- What is set of a scan. -/
structure ScanArguments where
  table : Option String
  index : Option String
  filter : Option String
  projection : Option String
  names : Option (Bindings String)
  values : Option Fields
  limit : Option Int
  startKey : Option Fields
  segment : Option Int
  totalSegments : Option Int
  selection : Option String
  consistent : Option Bool

def ScanArguments.ofRequest (s : ScanRequest) : ScanArguments where
  table := some s.table
  index := s.index
  filter := s.filter
  projection := s.projection
  names := namesOf? s.names
  values := Fields.ofItem? s.values
  limit := s.limit
  startKey := Fields.ofItem? s.startKey
  segment := s.segment
  totalSegments := s.totalSegments
  selection := s.selection.map Selection.name
  consistent := s.consistent

/-- What is set of an update. -/
structure UpdateArguments where
  table : Option String
  key : Option Fields
  update : Option String
  condition : Option String
  names : Option (Bindings String)
  values : Option Fields
  returnValues : Option String

def UpdateArguments.ofRequest (u : UpdateRequest) : UpdateArguments where
  table := some u.table
  key := some (Fields.ofItem u.key)
  update := some u.update
  condition := u.condition
  names := namesOf? u.names
  values := Fields.ofItem? u.values
  returnValues := u.returnValues.map ReturnValues.name

/-- How the client of the service writes the bodies of the requests. -/
structure Client where
  queryBody : QueryArguments → Document
  scanBody : ScanArguments → Document
  updateBody : UpdateArguments → Document

namespace Member

def names (names : Option (Bindings String)) : Json.Member :=
  .optional "ExpressionAttributeNames" (names.map Bindings.textDocument)

def fields (name : String) (fields : Option Fields) : Json.Member :=
  .optional name (fields.map Fields.toDocument)

end Member

/-- Each member that is set is written under its name. -/
def Client.standard : Client where
  queryBody a := .ofPresent [
    .text "TableName" a.table,
    .text "IndexName" a.index,
    .text "KeyConditionExpression" a.keyCondition,
    .text "FilterExpression" a.filter,
    .text "ProjectionExpression" a.projection,
    Member.names a.names,
    Member.fields "ExpressionAttributeValues" a.values,
    .flag "ScanIndexForward" a.forward,
    .number "Limit" a.limit,
    Member.fields "ExclusiveStartKey" a.startKey,
    .text "Select" a.selection,
    .flag "ConsistentRead" a.consistent]
  scanBody a := .ofPresent [
    .text "TableName" a.table,
    .text "IndexName" a.index,
    .text "FilterExpression" a.filter,
    .text "ProjectionExpression" a.projection,
    Member.names a.names,
    Member.fields "ExpressionAttributeValues" a.values,
    .number "Limit" a.limit,
    Member.fields "ExclusiveStartKey" a.startKey,
    .number "Segment" a.segment,
    .number "TotalSegments" a.totalSegments,
    .text "Select" a.selection,
    .flag "ConsistentRead" a.consistent]
  updateBody a := .ofPresent [
    .text "TableName" a.table,
    Member.fields "Key" a.key,
    .text "UpdateExpression" a.update,
    .text "ConditionExpression" a.condition,
    Member.names a.names,
    Member.fields "ExpressionAttributeValues" a.values,
    .text "ReturnValues" a.returnValues]

end ItemTable.Service
