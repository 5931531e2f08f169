import ItemTable.Expression.Binder
import ItemTable.Expression.Check
import ItemTable.Expression.Resolver

/-! Conditions on attributes, and the fragments that they become. -/
namespace ItemTable.Expression

/-- The operand side of a condition as it is given. -/
inductive Operand where
  | single (v : AttributeValue)
  | range (low high : AttributeValue)
  | list (vs : List AttributeValue)
deriving DecidableEq

/-- A comparison with its operands. -/
inductive Test where
  | equals (v : AttributeValue)
  | notEquals (v : AttributeValue)
  | greaterThan (v : AttributeValue)
  | lessThan (v : AttributeValue)
  | contains (v : AttributeValue)
  | beginsWith (v : AttributeValue)
  | oneOf (vs : List AttributeValue)
  | between (low high : AttributeValue)
deriving DecidableEq

namespace Test

def operator : Test → Operator
  | equals _ => .equals
  | notEquals _ => .notEquals
  | greaterThan _ => .greaterThan
  | lessThan _ => .lessThan
  | contains _ => .contains
  | beginsWith _ => .beginsWith
  | oneOf _ => .oneOf
  | between _ _ => .between

def operand : Test → Operand
  | equals v | notEquals v | greaterThan v | lessThan v | contains v | beginsWith v => .single v
  | oneOf vs => .list vs
  | between low high => .range low high

/-- The operand of an operator, checked for its field. -/
def check (field : String) (operator : Operator) (operand : Operand) : Except Error Test :=
  match operator, operand with
  | .equals, .single v => (fun _ => equals v) <$> checkValue field v
  | .notEquals, .single v => (fun _ => notEquals v) <$> checkValue field v
  | .contains, .single v => (fun _ => contains v) <$> checkValue field v
  | .greaterThan, .single v => (fun _ => greaterThan v) <$> checkNumber field v
  | .lessThan, .single v => (fun _ => lessThan v) <$> checkNumber field v
  | .beginsWith, .single v => (fun _ => beginsWith v) <$> checkText field v
  | .between, .range low high => (fun _ => between low high) <$> checkRange field low high
  | .oneOf, .list vs =>
    if vs.isEmpty then .error (.emptyList field)
    else if maxOperands < vs.length then
      .error (.invalidValue field (.tooManyOperands maxOperands))
    else (fun _ => oneOf vs) <$> vs.forM (checkValue field)
  | operator, _ => .error (.invalidValue field (.operandShape operator))

end Test

/-- A comparison of one attribute. -/
structure Condition where
  field : String
  test : Test
deriving DecidableEq

namespace Condition

/-- A condition on a field, if the field is a name and the operand fits the operator. -/
def of (field : String) (operator : Operator) (operand : Operand) : Except Error Condition := do
  checkFieldName field
  let test ← Test.check field operator operand
  return { field, test }

/-- The fragment of a comparison, given the reference to the attribute and those to the operands. -/
def fragment (test : Test) (name : String) (operands : List String) : String :=
  let operand := operands.headD ""
  match test with
  | .equals _ => name ++ " = " ++ operand
  | .notEquals _ => name ++ " <> " ++ operand
  | .greaterThan _ => name ++ " > " ++ operand
  | .lessThan _ => name ++ " < " ++ operand
  | .contains _ => "contains(" ++ name ++ ", " ++ operand ++ ")"
  | .beginsWith _ => "begins_with(" ++ name ++ ", " ++ operand ++ ")"
  | .oneOf _ => name ++ " IN (" ++ Text.joinWith ", " operands ++ ")"
  | .between _ _ => name ++ " BETWEEN " ++ operand ++ " AND " ++ operands.getLastD ""

/-- The operands in the order in which they are written. -/
def operands : Test → List AttributeValue
  | .equals v | .notEquals v | .greaterThan v | .lessThan v | .contains v | .beginsWith v => [v]
  | .oneOf vs => vs
  | .between low high => [low, high]

/-- Writes a condition, with placeholders from a resolver and a binder. -/
def render (c : Condition) (r : Resolver) (b : Binder) : String × Resolver × Binder :=
  let (name, r) := r.path c.field
  let (placeholders, b) := b.bindAll (operands c.test)
  (fragment c.test name placeholders, r, b)

def renderAll (r : Resolver) (b : Binder) : List Condition → List String × Resolver × Binder
  | [] => ([], r, b)
  | c :: rest =>
    let (text, r, b) := c.render r b
    let (texts, r, b) := renderAll r b rest
    (text :: texts, r, b)

end Condition

end ItemTable.Expression
