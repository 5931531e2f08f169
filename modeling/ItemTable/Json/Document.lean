/-!
JSON documents, also such whose text breaks off.

A document keeps where its text stops being well-formed, so that a reader who meets a value of the
wrong kind before that place reports this one. `Document.whole` is the predicate of a well-formed
document, and `Document.render` writes one.
-/
namespace ItemTable.Json

/-- A number as it is written: digits before the point, after it, and an exponent with its sign. -/
structure Literal where
  negative : Bool
  whole : List Char
  fraction : List Char := []
  exponent : Option (Bool × List Char) := none
deriving DecidableEq, Repr

/-- The key of a member; none if its escapes name half a character only. -/
abbrev Label := Option String

/-- A JSON value. A list or an object that is not `closed` breaks off after the parts it shows. -/
inductive Document where
  | null
  | boolean (b : Bool)
  | number (n : Literal)
  | text (s : String)
  /-- A text whose escapes name half a character only. -/
  | halved
  | list (items : List Document) (closed : Bool)
  | object (members : List (Label × Document)) (closed : Bool)
  /-- No value: the text is malformed here. -/
  | broken
deriving Inhabited, Repr

namespace Document

mutual

/-- Well-formed at all depths. -/
def whole : Document → Bool
  | list items closed => wholeItems items && closed
  | object members closed => wholeMembers members && closed
  | broken => false
  | _ => true

def wholeItems : List Document → Bool
  | [] => true
  | d :: ds => whole d && wholeItems ds

def wholeMembers : List (Label × Document) → Bool
  | [] => true
  | (_, d) :: ds => whole d && wholeMembers ds

end

def ofInt (n : Int) : Document := number { negative := n < 0, whole := Nat.toDigits 10 n.natAbs }

def ofNat (n : Nat) : Document := ofInt n

def ofList (items : List Document) : Document := list items true

def ofMembers (members : List (String × Document)) : Document :=
  object (members.map fun m => (some m.1, m.2)) true

def ofText? (s : Option String) : Document := s.elim null text

/-- The last member of a name. -/
def member? (name : String) : Document → Option Document
  | object members _ => (members.filter (·.1 == some name)).getLast?.map Prod.snd
  | _ => none

end Document

/-- A member that an object may have. -/
abbrev Member := Option (String × Document)

namespace Member

/-- A member that is always present. -/
def always (name : String) (d : Document) : Member := some (name, d)

/-- A member that is present if there is a value. -/
def optional (name : String) (d : Option Document) : Member := d.map fun d => (name, d)

def text (name : String) (s : Option String) : Member := optional name (s.map .text)

def flag (name : String) (b : Option Bool) : Member := optional name (b.map .boolean)

def number (name : String) (n : Option Int) : Member := optional name (n.map .ofInt)

end Member

/-- An object of the members that are present. -/
def Document.ofPresent (members : List Member) : Document :=
  .ofMembers (members.filterMap id)

/-- Four lower-case hexadecimal digits. -/
def hex4 (n : Nat) : List Char :=
  [n / 0x1000, n / 0x100 % 16, n / 0x10 % 16, n % 16].map Nat.digitChar

/-- The escape of one 16-bit unit. -/
def escapeUnit (n : Nat) : List Char := '\\' :: 'u' :: hex4 n

/-- One character inside a written text. Beyond ASCII the 16-bit units are written. -/
def escapeChar (c : Char) : List Char :=
  if c = '"' ∨ c = '\\' then ['\\', c]
  else if c = '\n' then ['\\', 'n']
  else if c = '\r' then ['\\', 'r']
  else if c = '\t' then ['\\', 't']
  else if 0x20 ≤ c.toNat ∧ c.toNat < 0x7F then [c]
  else if c.toNat < 0x10000 then escapeUnit c.toNat
  else
    escapeUnit (0xD800 + (c.toNat - 0x10000) / 0x400) ++
      escapeUnit (0xDC00 + (c.toNat - 0x10000) % 0x400)

def renderText (s : String) : List Char := '"' :: (s.toList.flatMap escapeChar ++ ['"'])

def Literal.render (n : Literal) : List Char :=
  (if n.negative then ['-'] else []) ++ n.whole ++
    (if n.fraction.isEmpty then [] else '.' :: n.fraction) ++
    match n.exponent with
    | none => []
    | some (negative, digits) => 'e' :: ((if negative then ['-'] else []) ++ digits)

namespace Document

mutual

/-- Writes a well-formed document without white space. -/
def render : Document → List Char
  | null | halved | broken => "null".toList
  | boolean b => (if b then "true" else "false").toList
  | number n => n.render
  | text s => renderText s
  | list items _ => '[' :: (renderItems items ++ [']'])
  | object members _ => '\x7b' :: (renderMembers members ++ ['\x7d'])

def renderItems : List Document → List Char
  | [] => []
  | [d] => render d
  | d :: next :: rest => render d ++ ',' :: renderItems (next :: rest)

def renderMembers : List (Label × Document) → List Char
  | [] => []
  | [(label, d)] => renderText (label.getD "") ++ ':' :: render d
  | (label, d) :: next :: rest =>
    renderText (label.getD "") ++ ':' :: (render d ++ ',' :: renderMembers (next :: rest))

end

/-- The text of a document. -/
def toText (d : Document) : String := String.ofList d.render

end Document

end ItemTable.Json
