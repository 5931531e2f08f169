import ItemTable.Json.Document
import ItemTable.Text.Base64
import ItemTable.Value

/-!
Attribute values as the service sends them.

The service may know types that this library does not. A value of such a type is kept as `unknown`,
and whatever holds one, at any depth, is no attribute value: `Value.toAttribute?` gives all or
nothing.
-/
namespace ItemTable.Service

open ItemTable.Json

/-- An attribute value of the service. -/
inductive Value where
  | text (s : String)
  | number (n : String)
  | binary (bytes : List UInt8)
  | textSet (elements : List String)
  | numberSet (elements : List String)
  | binarySet (elements : List (List UInt8))
  | boolean (b : Bool)
  | null (b : Bool)
  | list (items : List Value)
  | map (entries : List (String × Value))
  | unknown
deriving Inhabited

/-- The named values of the service. -/
abbrev Fields := List (String × Value)

def textOf? : Document → Option String
  | .text s => some s
  | _ => none

def flagOf? : Document → Option Bool
  | .boolean b => some b
  | _ => none

def itemsOf? : Document → Option (List Document)
  | .list ds _ => some ds
  | _ => none

def bytesOf? (d : Document) : Option (List UInt8) :=
  (textOf? d).bind fun s => Text.Base64.decode? s.toList

namespace Value

/-- Reads a payload that holds no values. -/
def readPlain? (t : ValueTag) (d : Document) : Option Value :=
  match t with
  | .text => text <$> textOf? d
  | .number => number <$> textOf? d
  | .binary => binary <$> bytesOf? d
  | .textSet => textSet <$> (itemsOf? d).bind (·.mapM textOf?)
  | .numberSet => numberSet <$> (itemsOf? d).bind (·.mapM textOf?)
  | .binarySet => binarySet <$> (itemsOf? d).bind (·.mapM bytesOf?)
  | .boolean => boolean <$> flagOf? d
  | .null => null <$> flagOf? d
  | .list | .map => none

mutual

/-- Reads a value; nothing if it is none. -/
def read? : Document → Option Value
  | .object members _ => readOnly? none members
  | _ => none

/-- Reads the one member that says something. Null and a type name say nothing. -/
def readOnly? : Option Value → List (Label × Document) → Option Value
  | found, [] => found
  | found, (label, d) :: rest =>
    match label, d with
    | none, _ => none
    | some _, .null => readOnly? found rest
    | some name, d =>
      if name = "__type" then readOnly? found rest
      else
        match found, readPayload? (ValueTag.ofName? name) d with
        | none, some v => readOnly? (some v) rest
        | _, _ => none

def readPayload? (t : Option ValueTag) : Document → Option Value
  | .list ds closed =>
    match t with
    | none => some unknown
    | some .list => list <$> readItems? ds
    | some t => readPlain? t (.list ds closed)
  | .object members closed =>
    match t with
    | none => some unknown
    | some .map => map <$> readFields? [] members
    | some t => readPlain? t (.object members closed)
  | d =>
    match t with
    | none => some unknown
    | some t => readPlain? t d

def readItems? : List Document → Option (List Value)
  | [] => some []
  | d :: ds => do
    let v ← read? d
    let vs ← readItems? ds
    return v :: vs

/-- Reads named values; the last value of a name counts. -/
def readFields? : Fields → List (Label × Document) → Option Fields
  | fields, [] => some fields
  | fields, (label, d) :: rest => do
    let name ← label
    let v ← read? d
    readFields? (placeEntry name v fields) rest

end

mutual

/-- The service's form of an attribute value. -/
def ofAttribute : AttributeValue → Value
  | .text s => text s
  | .number n => number n
  | .binary bytes => binary bytes
  | .textSet elements => textSet elements
  | .numberSet elements => numberSet elements
  | .binarySet elements => binarySet elements
  | .boolean b => boolean b
  | .null b => null b
  | .list items => list (ofItems items)
  | .map entries => map (ofEntries entries)

def ofItems : List AttributeValue → List Value
  | [] => []
  | v :: vs => ofAttribute v :: ofItems vs

def ofEntries : List (String × AttributeValue) → Fields
  | [] => []
  | (name, v) :: rest => (name, ofAttribute v) :: ofEntries rest

end

mutual

/-- The attribute value, if no part of it is unknown. -/
def toAttribute? : Value → Option AttributeValue
  | text s => some (.text s)
  | number n => some (.number n)
  | binary bytes => some (.binary bytes)
  | textSet elements => some (.textSet elements)
  | numberSet elements => some (.numberSet elements)
  | binarySet elements => some (.binarySet elements)
  | boolean b => some (.boolean b)
  | null b => some (.null b)
  | list items => .list <$> toItems? items
  | map entries => .map <$> toEntries? entries
  | unknown => none

def toItems? : List Value → Option (List AttributeValue)
  | [] => some []
  | v :: vs => do
    let a ← toAttribute? v
    let rest ← toItems? vs
    return a :: rest

def toEntries? : Fields → Option (List (String × AttributeValue))
  | [] => some []
  | (name, v) :: fields => do
    let a ← toAttribute? v
    let rest ← toEntries? fields
    return (name, a) :: rest

end

end Value

namespace Fields

def read? : Document → Option Fields
  | .object members _ => Value.readFields? [] members
  | _ => none

/-- The item, if no value is unknown. -/
def toItem? (fields : Fields) : Option Item := Bindings.ofList <$> Value.toEntries? fields

end Fields

end ItemTable.Service
