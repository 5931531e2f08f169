import ItemTable.Json.Approximate
import ItemTable.Json.Reader
import ItemTable.Bindings
import ItemTable.Text.Quoted

/-!
Typed reading of JSON documents.

A decoder looks at a document from left to right and stops at the first problem, be it a value of
the wrong kind or the place where the text breaks off. Lists and objects that are read as typed
values may nest to a limited depth; the ones that are skipped may not be malformed but nest freely.
-/
namespace ItemTable.Json

/-- What stands where something else is wanted. -/
inductive Found where
  | null
  | boolean (b : Bool)
  | whole (n : Int)
  | floating (d : Number.Double)
  | text (s : String)
  | list
  | object

/-- How a message names what it found. -/
def Found.describe : Found → String
  | null => "null"
  | boolean b => "boolean \x60" ++ toString b ++ "\x60"
  | whole n => "integer \x60" ++ toString n ++ "\x60"
  | floating d => "floating point \x60" ++ d.inShort ++ "\x60"
  | text s => "string " ++ Text.quoted s
  | list => "sequence"
  | object => "map"

/-- Why a well-formed document is not accepted. -/
inductive Mismatch where
  | notOneKey
  | unknownField (name : String) (known : List String)
  | unknownVariant (name : String) (known : List String)
  | missingField (name : String)
  | duplicateField (name : String)
  | wrongType (found : Found) (wanted : String)
  | outOfRange (n : Int) (wanted : String)
  | tooShort (length : Nat) (wanted : String)

def accented (name : String) : String := "\x60" ++ name ++ "\x60"

def Mismatch.message : Mismatch → String
  | notOneKey => "AttributeValue must have exactly one key"
  | unknownField name known =>
    "unknown field " ++ accented name ++ ", expected one of " ++
      Text.joinWith ", " (known.map accented)
  | unknownVariant name known =>
    "unknown variant " ++ accented name ++ ", expected one of " ++
      Text.joinWith ", " (known.map accented)
  | missingField name => "missing field " ++ accented name
  | duplicateField name => "duplicate field " ++ accented name
  | wrongType found wanted => "invalid type: " ++ found.describe ++ ", expected " ++ wanted
  | outOfRange n wanted => "invalid value: " ++ (Found.whole n).describe ++ ", expected " ++ wanted
  | tooShort length wanted => "invalid length " ++ toString length ++ ", expected " ++ wanted

/-- Why a text cannot be read. -/
inductive DecodeError where
  /-- The text is malformed, cut off, nested too deeply, or holds a number too large. -/
  | malformed
  /-- A binary payload is not canonical base64. -/
  | base64
  | mismatch (m : Mismatch)

/-- Reads a document, given how many nested lists and objects may still be entered. -/
abbrev Decoder (α : Type) := Nat → Document → Except DecodeError α

/-- The number of nested lists and objects at which reading stops. -/
def depthLimit : Nat := 128

/-- Enters a list or an object. -/
def enter (depth : Nat) : Except DecodeError Nat :=
  if depth ≤ 1 then .error .malformed else .ok (depth - 1)

/-- Requires the end of a list or an object. -/
def ending {α : Type} (closed : Bool) (a : α) : Except DecodeError α :=
  if closed then .ok a else .error .malformed

/-- The error for a document of the wrong kind. -/
def unexpected {α : Type} (wanted : String) (d : Document) : Except DecodeError α :=
  let report (found : Found) : Except DecodeError α := .error (.mismatch (.wrongType found wanted))
  match d with
  | .null => report .null
  | .boolean b => report (.boolean b)
  | .number n =>
    match n.reading? with
    | some (.whole n) => report (.whole n)
    | some (.floating d) => report (.floating d)
    | none => .error .malformed
  | .text s => report (.text s)
  | .list _ _ => report .list
  | .object _ _ => report .object
  | .halved | .broken => .error .malformed

def labelText : Label → Except DecodeError String
  | some name => .ok name
  | none => .error .malformed

namespace Decoder

variable {α β : Type}

def text : Decoder String
  | _, .text s => .ok s
  | _, d => unexpected "a string" d

def boolean : Decoder Bool
  | _, .boolean b => .ok b
  | _, d => unexpected "a boolean" d

/-- A whole number of a range with a name. -/
def integer (low high : Int) (wanted : String) : Decoder Int
  | _, .number n =>
    match n.reading? with
    | some (.whole n) =>
      if low ≤ n ∧ n ≤ high then .ok n else .error (.mismatch (.outOfRange n wanted))
    | _ => unexpected wanted (.number n)
  | _, d => unexpected wanted d

def int32 : Decoder Int := integer (-0x80000000) 0x7FFFFFFF "i32"

def int64 : Decoder Int := integer (-0x8000000000000000) 0x7FFFFFFFFFFFFFFF "i64"

def size : Decoder Nat := fun depth d =>
  Int.toNat <$> integer 0 0xFFFFFFFFFFFFFFFF "usize" depth d

/-- Null stands for nothing. -/
def orNull (item : Decoder α) : Decoder (Option α)
  | _, .null => .ok none
  | depth, d => some <$> item depth d

/-- Reads each item; the end must follow. -/
def items (item : Document → Except DecodeError α) (closed : Bool) :
    List Document → Except DecodeError (List α)
  | [] => ending closed []
  | d :: ds => do
    let a ← item d
    let rest ← items item closed ds
    return a :: rest

def list (item : Decoder α) : Decoder (List α)
  | depth, .list ds closed => do
    let depth ← enter depth
    items (item depth) closed ds
  | _, d => unexpected "a sequence" d

/-- Reads each member and binds it; the last binding of a key counts. -/
def entries (item : Document → Except DecodeError α) (closed : Bool) :
    Bindings α → List (Label × Document) → Except DecodeError (Bindings α)
  | m, [] => ending closed m
  | m, (label, d) :: rest => do
    let key ← labelText label
    let a ← item d
    entries item closed (m.insert key a) rest

def bindings (item : Decoder α) : Decoder (Bindings α)
  | depth, .object members closed => do
    let depth ← enter depth
    entries (item depth) closed .empty members
  | _, d => unexpected "a map" d

/-- One of some named choices, written as its name or as an object with the name and null. -/
def choice (choices : List (String × α)) : Decoder α := fun depth d =>
  let look (name : String) : Except DecodeError α :=
    match lookEntry name choices with
    | some a => .ok a
    | none => .error (.mismatch (.unknownVariant name (choices.map Prod.fst)))
  match d with
  | .text s => look s
  | .object ((label, payload) :: rest) closed => do
    let _ ← enter depth
    let a ← labelText label >>= look
    match payload with
    | .null => ending (closed && rest.isEmpty) a
    | other => unexpected "unit" other
  | _ => .error .malformed

end Decoder

/-- Reads the fields of a record, from an object by their names or from a list by their order. -/
structure RecordReader (α : Type) where
  /-- The field names with what each value must satisfy. -/
  fields : List (String × Decoder Unit)
  /-- Builds the record from members that satisfy the above, each name once. -/
  fromMembers : Nat → List (String × Document) → Except DecodeError α
  /-- Takes the fields off the front of a list. The record's description and the number of items
  taken before are for the message; the flag says whether the list has an end. -/
  fromItems : Nat → String → Bool → Nat → List Document →
    Except DecodeError (α × Nat × List Document)

namespace RecordReader

variable {α β : Type}

/-- A field with what stands for it if its name is missing, or the list too short. -/
def field (name : String) (value : Decoder α) (missing : Except DecodeError α)
    (short : Option α) : RecordReader α where
  fields := [(name, fun depth d => (fun _ => ()) <$> value depth d)]
  fromMembers depth members :=
    match lookEntry name members with
    | some d => value depth d
    | none => missing
  fromItems depth wanted closed taken ds :=
    match ds with
    | d :: rest => do
      let a ← value depth d
      return (a, taken + 1, rest)
    | [] =>
      match short with
      | some a => ending closed (a, taken + 1, [])
      | none => ending closed () >>= fun _ => .error (.mismatch (.tooShort taken wanted))

/-- A field that must be present. -/
def required (name : String) (value : Decoder α) : RecordReader α :=
  field name value (.error (.mismatch (.missingField name))) none

/-- A field that may be missing or null. -/
def optional (name : String) (value : Decoder α) : RecordReader (Option α) :=
  field name value.orNull (.ok none) none

/-- A field with a default, which also ends a list early. -/
def defaulted (name : String) (value : Decoder α) (default : α) : RecordReader α :=
  field name value (.ok default) (some default)

/-- A record of one field. -/
def map (f : α → β) (r : RecordReader α) : RecordReader β where
  fields := r.fields
  fromMembers depth members := f <$> r.fromMembers depth members
  fromItems depth wanted closed taken ds := do
    let (a, taken, rest) ← r.fromItems depth wanted closed taken ds
    return (f a, taken, rest)

/-- One more field. -/
def and (r : RecordReader (α → β)) (s : RecordReader α) : RecordReader β where
  fields := r.fields ++ s.fields
  fromMembers depth members := do
    let f ← r.fromMembers depth members
    let a ← s.fromMembers depth members
    return f a
  fromItems depth wanted closed taken ds := do
    let (f, taken, rest) ← r.fromItems depth wanted closed taken ds
    let (a, taken, rest) ← s.fromItems depth wanted closed taken rest
    return (f a, taken, rest)

/-- The members of known names, each read once; unknown ones are skipped. -/
def knownMembers (fields : List (String × (Document → Except DecodeError Unit))) (closed : Bool) :
    List (String × Document) → List (Label × Document) →
      Except DecodeError (List (String × Document))
  | known, [] => ending closed known
  | known, (label, d) :: rest => do
    let name ← labelText label
    match lookEntry name fields with
    | some check =>
      if (lookEntry name known).isSome then .error (.mismatch (.duplicateField name))
      else
        check d
        knownMembers fields closed ((name, d) :: known) rest
    | none => if d.whole then knownMembers fields closed known rest else .error .malformed

/-- How a message names a record read from a list. -/
def describeLength (record : String) (fields : Nat) : String :=
  record ++ " with " ++ toString fields ++ if fields = 1 then " element" else " elements"

/-- The decoder of a record with a name. -/
def decoder (name : String) (r : RecordReader α) : Decoder α := fun depth d =>
  match d with
  | .object members closed => do
    let depth ← enter depth
    let checks := r.fields.map fun f => (f.1, f.2 depth)
    let known ← knownMembers checks closed [] members
    r.fromMembers depth known
  | .list ds closed => do
    let depth ← enter depth
    let wanted := describeLength ("struct " ++ name) r.fields.length
    let (a, _, rest) ← r.fromItems depth wanted closed 0 ds
    ending (closed && rest.isEmpty) a
  | d => unexpected ("struct " ++ name) d

end RecordReader

def decodeText {α : Type} (value : Decoder α) (s : String) : Except DecodeError α := do
  let (d, rest) := Document.read s
  let a ← value depthLimit d
  match rest with
  | some rest => ending (skipSpace rest).isEmpty a
  | none => .error .malformed

end ItemTable.Json
