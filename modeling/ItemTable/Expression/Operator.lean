/-! The comparisons of a condition. -/
namespace ItemTable.Expression

/-- A comparison. -/
inductive Operator where
  | equals
  | notEquals
  | greaterThan
  | lessThan
  | contains
  | beginsWith
  | oneOf
  | between
deriving DecidableEq, Repr

namespace Operator

def name : Operator → String
  | equals => "EQUALS"
  | notEquals => "NOT_EQUALS"
  | greaterThan => "GREATER_THAN"
  | lessThan => "LESS_THAN"
  | contains => "CONTAINS"
  | beginsWith => "BEGINS_WITH"
  | oneOf => "IN"
  | between => "BETWEEN"

def all : List Operator :=
  [equals, notEquals, greaterThan, lessThan, contains, beginsWith, oneOf, between]

def ofName? (name : String) : Option Operator := all.find? (·.name = name)

/-- The comparisons that a key takes. -/
def isKeyOperator : Operator → Bool
  | equals | lessThan | greaterThan | beginsWith | between => true
  | notEquals | contains | oneOf => false

end Operator

end ItemTable.Expression
