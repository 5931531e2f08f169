import ItemTable.Value
import ItemTable.Json.Decoder
import ItemTable.Text.Base64

/-!
The wire form of attribute values: an object whose one key is the tag and whose value is the
payload.

`toDocument` writes a value and `decode` reads one; binary payloads are base64 texts.
-/
namespace ItemTable.AttributeValue

open ItemTable.Json

/-- A binary payload as a text. -/
def bytesDocument (bytes : List UInt8) : Document :=
  .text (String.ofList (Text.Base64.encode bytes))

/-- An object of one member. -/
def tagged (t : ValueTag) (payload : Document) : Document :=
  .object [(some t.name, payload)] true

mutual

def toDocument : AttributeValue → Document
  | text s => tagged .text (.text s)
  | number n => tagged .number (.text n)
  | binary bytes => tagged .binary (bytesDocument bytes)
  | textSet elements => tagged .textSet (.ofList (elements.map .text))
  | numberSet elements => tagged .numberSet (.ofList (elements.map .text))
  | binarySet elements => tagged .binarySet (.ofList (elements.map bytesDocument))
  | boolean b => tagged .boolean (.boolean b)
  | null b => tagged .null (.boolean b)
  | list items => tagged .list (.list (itemDocuments items) true)
  | map entries => tagged .map (.object (entryDocuments entries) true)

def itemDocuments : List AttributeValue → List Document
  | [] => []
  | v :: vs => toDocument v :: itemDocuments vs

def entryDocuments : List (String × AttributeValue) → List (Label × Document)
  | [] => []
  | (name, v) :: rest => (some name, toDocument v) :: entryDocuments rest

end

/-- The bytes of a base64 text. -/
def decodeBytes (s : String) : Except DecodeError (List UInt8) :=
  match Text.Base64.decode? s.toList with
  | some bytes => .ok bytes
  | none => .error .base64

/-- After the one member of a value its object must end; a further key is one too many. -/
def onlyMember {α : Type} (rest : List (Label × Document)) (closed : Bool) (a : α) :
    Except DecodeError α :=
  match rest with
  | [] => ending closed a
  | (label, _) :: _ => labelText label >>= fun _ => .error (.mismatch .notOneKey)

/-- Reads the payload of a tag whose payload holds no values. -/
def decodePlain (t : ValueTag) : Decoder AttributeValue := fun depth d =>
  match t with
  | .text => text <$> Decoder.text depth d
  | .number => number <$> Decoder.text depth d
  | .binary => do
    let s ← Decoder.text depth d
    binary <$> decodeBytes s
  | .textSet => textSet <$> Decoder.list Decoder.text depth d
  | .numberSet => numberSet <$> Decoder.list Decoder.text depth d
  | .binarySet => do
    let elements ← Decoder.list Decoder.text depth d
    binarySet <$> elements.mapM decodeBytes
  | .boolean => boolean <$> Decoder.boolean depth d
  | .null => null <$> Decoder.boolean depth d
  | .list => unexpected "a sequence" d
  | .map => unexpected "a map" d

mutual

def decode : Decoder AttributeValue
  | depth, .object members closed => do
    let depth ← enter depth
    decodeMembers depth closed members
  | _, d => unexpected "a DynamoDB AttributeValue object with exactly one type key" d

/-- Reads the members of a value's object: the first one decides, and none may follow. -/
def decodeMembers (depth : Nat) (closed : Bool) :
    List (Label × Document) → Except DecodeError AttributeValue
  | [] => ending closed () >>= fun _ => .error (.mismatch .notOneKey)
  | (label, payload) :: rest => do
    let name ← labelText label
    let v ← match ValueTag.ofName? name with
      | none => .error (.mismatch (.unknownField name (ValueTag.all.map ValueTag.name)))
      | some t => decodePayload t depth payload
    onlyMember rest closed v

def decodePayload (t : ValueTag) : Decoder AttributeValue
  | depth, .list ds closed =>
    match t with
    | .list => do
      let depth ← enter depth
      list <$> decodeItems depth closed ds
    | _ => decodePlain t depth (.list ds closed)
  | depth, .object members closed =>
    match t with
    | .map => do
      let depth ← enter depth
      map <$> decodeEntries depth closed [] members
    | _ => decodePlain t depth (.object members closed)
  | depth, d => decodePlain t depth d

def decodeItems (depth : Nat) (closed : Bool) :
    List Document → Except DecodeError (List AttributeValue)
  | [] => ending closed []
  | d :: ds => do
    let v ← decode depth d
    let rest ← decodeItems depth closed ds
    return v :: rest

/-- Reads the values of a map; the last value of a key counts. -/
def decodeEntries (depth : Nat) (closed : Bool) :
    List (String × AttributeValue) → List (Label × Document) →
      Except DecodeError (List (String × AttributeValue))
  | entries, [] => ending closed entries
  | entries, (label, d) :: rest => do
    let key ← labelText label
    let v ← decode depth d
    decodeEntries depth closed (placeEntry key v entries) rest

end

end ItemTable.AttributeValue

namespace ItemTable.Item

open ItemTable.Json

def toDocument (item : Item) : Document :=
  .object (AttributeValue.entryDocuments item.entries) true

def decode : Decoder Item := Decoder.bindings AttributeValue.decode

end ItemTable.Item

namespace ItemTable.Bindings

open ItemTable.Json

/-- The wire form of a map of texts. -/
def textDocument (m : Bindings String) : Document :=
  .ofMembers (m.entries.map fun e => (e.1, .text e.2))

end ItemTable.Bindings
