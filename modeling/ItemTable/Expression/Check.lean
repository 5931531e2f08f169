import ItemTable.Expression.Error
import ItemTable.Expression.Token
import ItemTable.Text.Separated

/-!
The checks that every builder makes at the call that brings a value in, so that what a builder holds
is always valid.
-/
namespace ItemTable.Expression

/-- The most conditions of a query or a scan. -/
def maxConditions : Nat := 100

/-- The most updates of one item. -/
def maxUpdates : Nat := 100

/-- The most characters of a text inside a value. -/
def maxTextLength : Nat := 400000

def maxLimit : Nat := 1000

/-- The most operands of a condition on membership. -/
def maxOperands : Nat := 100

/-- A field name is a word that may start with a digit. -/
def checkFieldName (field : String) : Except Error Unit :=
  if !field.isEmpty && field.toList.all isWordChar then .ok ()
  else .error (.invalidFieldName field)

def isControl (c : Char) : Bool := c.toNat < 0x20 || (0x7F ≤ c.toNat && c.toNat < 0xA0)

/-- The signs and the punctuation of the grammar, which no segment of a path may hold. -/
def isGrammarSign (c : Char) : Bool :=
  ['#', ':', ',', '(', ')', '=', '<', '>'].contains c

/-- A segment of a path that can be referred to by its name. -/
def isUsableSegment (segment : List Char) : Bool :=
  !segment.all Text.isBlank && !segment.any fun c => isGrammarSign c || isControl c

/-- A path of usable segments with points between them. -/
def checkPath (path : String) : Except Error Unit :=
  if (Text.splitAt '.' path.toList).all isUsableSegment then .ok ()
  else .error (.invalidProjection path)

/-- Neither null nor with a text that is too long. -/
def checkValue (field : String) (v : AttributeValue) : Except Error Unit :=
  if v.tag = .null then .error (.invalidValue field .isNull)
  else if maxTextLength < v.longestText then .error (.valueTooLarge field maxTextLength)
  else .ok ()

/-- A number value whose nearest binary64 number is finite. -/
def checkNumber (field : String) (v : AttributeValue) : Except Error Number.Double :=
  match v.finiteNumber? with
  | some d => .ok d
  | none => .error (.invalidValue field .notFiniteNumber)

def checkText (field : String) (v : AttributeValue) : Except Error String := do
  checkValue field v
  match v.asText? with
  | some s => .ok s
  | none => .error (.invalidValue field .notText)

def checkSet (field : String) (v : AttributeValue) : Except Error Unit := do
  checkValue field v
  if v.isSet then .ok () else .error (.invalidValue field .notSet)

/-- Whether the first byte text stands after the second one. -/
def bytesAfter : List UInt8 → List UInt8 → Bool
  | [], _ => false
  | _ :: _, [] => true
  | a :: as, b :: bs => if a = b then bytesAfter as bs else b < a

/-- Two valid bounds of one type that is ordered, the lower one first. -/
def checkRange (field : String) (low high : AttributeValue) : Except Error Unit := do
  checkValue field low
  checkValue field high
  let require (ordered : Bool) : Except Error Unit :=
    if ordered then .ok () else .error (.invalidRange field .descending)
  match low, high with
  | .number _, .number _ => do
    let a ← checkNumber field low
    let b ← checkNumber field high
    require (a.rank ≤ b.rank)
  | .text a, .text b => require (a ≤ b)
  | .binary a, .binary b => require (!bytesAfter a b)
  | _, _ => .error (.invalidRange field (.mixedTypes low.tag high.tag))

def checkLimit (limit : Nat) : Except Error Unit :=
  if 1 ≤ limit ∧ limit ≤ maxLimit then .ok () else .error (.invalidLimit limit maxLimit)

end ItemTable.Expression
