import ItemTable.Json.Document

/-!
Reading the text of a JSON document.

The reader goes strictly from left to right and stops at the first malformed place, which it marks
in the document that it returns.
-/
namespace ItemTable.Json

/-- The white space of JSON. -/
def isSpace (c : Char) : Bool := c = ' ' || c = '\n' || c = '\t' || c = '\r'

def skipSpace (cs : List Char) : List Char := cs.dropWhile isSpace

/-- The character of an escape of two characters. -/
def shortEscape? (c : Char) : Option Char :=
  match c with
  | '"' => some '"'
  | '\\' => some '\\'
  | '/' => some '/'
  | 'b' => some '\x08'
  | 'f' => some '\x0c'
  | 'n' => some '\n'
  | 'r' => some '\r'
  | 't' => some '\t'
  | _ => none

def hexDigit? (c : Char) : Option Nat :=
  if c.isDigit then some (c.toNat - '0'.toNat)
  else if 'a' ≤ c ∧ c ≤ 'f' then some (c.toNat - 'a'.toNat + 10)
  else if 'A' ≤ c ∧ c ≤ 'F' then some (c.toNat - 'A'.toNat + 10)
  else none

/-- Where a reader stands inside a text: between characters, after a backslash, or after some digits
of a unit. -/
inductive TextPlace where
  | plain
  | escape
  | unit (count value : Nat)

/-- What has been read of a text: its characters in reverse, the first half of a pair that waits for
its second half, and whether a half has stayed alone. -/
structure TextSoFar where
  reversed : List Char := []
  half : Option Nat := none
  halved : Bool := false

namespace TextSoFar

/-- Adds a character; a waiting half stays alone. -/
def push (t : TextSoFar) (c : Char) : TextSoFar :=
  ⟨c :: t.reversed, none, t.halved || t.half.isSome⟩

/-- Adds a 16-bit unit. -/
def pushUnit (t : TextSoFar) (u : Nat) : TextSoFar :=
  if 0xD800 ≤ u ∧ u < 0xDC00 then ⟨t.reversed, some u, t.halved || t.half.isSome⟩
  else if 0xDC00 ≤ u ∧ u < 0xE000 then
    match t.half with
    | some first =>
      ⟨Char.ofNat (0x10000 + (first - 0xD800) * 0x400 + (u - 0xDC00)) :: t.reversed, none, t.halved⟩
    | none => ⟨t.reversed, none, true⟩
  else t.push (Char.ofNat u)

/-- The text read, unless a half has stayed alone. -/
def result (t : TextSoFar) : Label :=
  if t.halved || t.half.isSome then none else some (String.ofList t.reversed.reverse)

end TextSoFar

/-- Reads a text up to its closing quotation mark; nothing if it is malformed. -/
def readText (t : TextSoFar) (place : TextPlace) : List Char → Option (Label × List Char)
  | [] => none
  | c :: rest =>
    match place with
    | .plain =>
      if c = '"' then some (t.result, rest)
      else if c = '\\' then readText t .escape rest
      else if c.toNat < 0x20 then none
      else readText (t.push c) .plain rest
    | .escape =>
      if c = 'u' then readText t (.unit 0 0) rest
      else
        match shortEscape? c with
        | some d => readText (t.push d) .plain rest
        | none => none
    | .unit count value =>
      match hexDigit? c with
      | none => none
      | some d =>
        if count = 3 then readText (t.pushUnit (16 * value + d)) .plain rest
        else readText t (.unit (count + 1) (16 * value + d)) rest

/-- Reads a text whose opening quotation mark has been read. -/
def text? (cs : List Char) : Option (Label × List Char) := readText {} .plain cs

/-- The digits before the point: zero alone, or digits that start with another one. -/
def wholePart? (cs : List Char) : Option (List Char × List Char) :=
  match cs with
  | '0' :: rest => if (rest.head?.map Char.isDigit).getD false then none else some (['0'], rest)
  | c :: _ =>
    if c.isDigit then some (cs.takeWhile Char.isDigit, cs.dropWhile Char.isDigit) else none
  | [] => none

/-- The digits after the point, if there is a point. -/
def fractionPart? (cs : List Char) : Option (List Char × List Char) :=
  match cs with
  | '.' :: rest =>
    let digits := rest.takeWhile Char.isDigit
    if digits.isEmpty then none else some (digits, rest.dropWhile Char.isDigit)
  | _ => some ([], cs)

/-- The exponent, if there is a mark. -/
def exponentPart? (cs : List Char) : Option (Option (Bool × List Char) × List Char) :=
  match cs with
  | mark :: rest =>
    if mark = 'e' ∨ mark = 'E' then
      let (negative, rest) := match rest with
        | '-' :: rest => (true, rest)
        | '+' :: rest => (false, rest)
        | _ => (false, rest)
      let digits := rest.takeWhile Char.isDigit
      if digits.isEmpty then none else some (some (negative, digits), rest.dropWhile Char.isDigit)
    else some (none, cs)
  | [] => some (none, [])

def number? (cs : List Char) : Option (Literal × List Char) := do
  let (negative, rest) := match cs with
    | '-' :: rest => (true, rest)
    | _ => (false, cs)
  let (whole, rest) ← wholePart? rest
  let (fraction, rest) ← fractionPart? rest
  let (exponent, rest) ← exponentPart? rest
  return (⟨negative, whole, fraction, exponent⟩, rest)

mutual

/-- Reads one value. The rest of the text is none if the text is malformed inside the value. -/
def readValue : Nat → List Char → Document × Option (List Char)
  | 0, _ => (.broken, none)
  | fuel + 1, cs =>
    match skipSpace cs with
    | 'n' :: 'u' :: 'l' :: 'l' :: rest => (.null, some rest)
    | 't' :: 'r' :: 'u' :: 'e' :: rest => (.boolean true, some rest)
    | 'f' :: 'a' :: 'l' :: 's' :: 'e' :: rest => (.boolean false, some rest)
    | '"' :: rest =>
      match text? rest with
      | some (some s, rest) => (.text s, some rest)
      | some (none, rest) => (.halved, some rest)
      | none => (.broken, none)
    | '[' :: rest =>
      match skipSpace rest with
      | ']' :: rest => (.list [] true, some rest)
      | rest =>
        let (items, rest) := readItems fuel rest
        (.list items rest.isSome, rest)
    | '\x7b' :: rest =>
      match skipSpace rest with
      | '\x7d' :: rest => (.object [] true, some rest)
      | rest =>
        let (members, rest) := readMembers fuel rest
        (.object members rest.isSome, rest)
    | rest =>
      match number? rest with
      | some (n, rest) => (.number n, some rest)
      | none => (.broken, none)

/-- Reads the items of a list up to its closing bracket. -/
def readItems : Nat → List Char → List Document × Option (List Char)
  | 0, _ => ([], none)
  | fuel + 1, cs =>
    match readValue fuel cs with
    | (d, none) => ([d], none)
    | (d, some rest) =>
      match skipSpace rest with
      | ',' :: rest =>
        let (items, rest) := readItems fuel rest
        (d :: items, rest)
      | ']' :: rest => ([d], some rest)
      | _ => ([d], none)

/-- Reads the members of an object up to its closing brace. -/
def readMembers : Nat → List Char → List (Label × Document) × Option (List Char)
  | 0, _ => ([], none)
  | fuel + 1, cs =>
    match skipSpace cs with
    | '"' :: rest =>
      match text? rest with
      | none => ([], none)
      | some (label, rest) =>
        match skipSpace rest with
        | ':' :: rest =>
          match readValue fuel rest with
          | (d, none) => ([(label, d)], none)
          | (d, some rest) =>
            match skipSpace rest with
            | ',' :: rest =>
              let (members, rest) := readMembers fuel rest
              ((label, d) :: members, rest)
            | '\x7d' :: rest => ([(label, d)], some rest)
            | _ => ([(label, d)], none)
        | _ => ([(label, .broken)], none)
    | _ => ([], none)

end

/-- Reads the value at the start of a text. Every two calls of the reader use up a character. -/
def Document.read (s : String) : Document × Option (List Char) :=
  let cs := s.toList
  readValue (2 * cs.length + 2) cs

/-- The document that a text writes; none if the text is malformed. -/
def Document.ofText (s : String) : Option Document :=
  match Document.read s with
  | (d, some rest) => if (skipSpace rest).isEmpty && d.whole then some d else none
  | (_, none) => none

end ItemTable.Json
