import ItemTable.Expression.Compiled
import ItemTable.Expression.Condition
import ItemTable.Expression.ReadOptions

/-!
Queries.

The first condition of a query is its key condition and has placeholders of its own; the later ones
make up the filter, with numbered placeholders. One resolver serves the key condition, the filter
and the projection, so that a name has one placeholder in all three.
-/
namespace ItemTable.Expression

/-- A query as it is put together. -/
structure Query where
  conditions : List Condition := []
  read : ReadOptions := {}
  /-- Ascending or descending order of the results. -/
  forward : Option Bool := none
  passthrough : List String := []
deriving DecidableEq

/-- A query whose expressions are compiled. -/
structure QueryPlan where
  conditions : List Condition := []
  read : ReadOptions := {}
  forward : Option Bool := none
  keyCondition : Compiled
  filter : Option Compiled := none
  projection : Option Compiled := none
deriving DecidableEq

def keyPlaceholders : Test → List String
  | .between _ _ => [":start", ":end"]
  | _ => [":keyValue"]

def compileKey (c : Condition) (r : Resolver) : Except Error (Compiled × Resolver) :=
  if c.test.operator.isKeyOperator then
    let (name, r) := r.path c.field
    let placeholders := keyPlaceholders c.test
    let values := .ofList (placeholders.zip (Condition.operands c.test))
    .ok (.ofResolver (Condition.fragment c.test name placeholders) r values, r)
  else .error (.unsupportedKeyCondition c.test.operator)

def filterBinder : Binder := { stem := ":value", next := 0 }

/-- How the fragments of a filter are put together. -/
def joinFragments (fragments : List String) : String := Text.joinWith " AND " fragments

/-- Compiles a filter; none if there is no condition. -/
def compileFilter (conditions : List Condition) (r : Resolver) : Option Compiled × Resolver :=
  if conditions.isEmpty then (none, r)
  else
    let (fragments, r, b) := Condition.renderAll r filterBinder conditions
    (some (.ofResolver (joinFragments fragments) r b.values), r)

namespace Query

def add (q : Query) (field : String) (operator : Operator) (operand : Operand) :
    Except Error Query := do
  let c ← Condition.of field operator operand
  if maxConditions ≤ q.conditions.length then .error (.tooManyConditions maxConditions)
  else return { q with conditions := q.conditions ++ [c] }

/-- Compiles the key condition, the filter and the projection. -/
def plan (q : Query) : Except Error QueryPlan :=
  match q.conditions with
  | [] => .error .noConditions
  | key :: rest => do
    let (keyCondition, r) ← compileKey key { passthrough := q.passthrough }
    let (filter, r) := compileFilter rest r
    let projection := q.read.fields.map fun fields =>
      let (text, r) := r.projection fields
      Compiled.ofResolver text r .empty
    return {
      conditions := q.conditions, read := q.read, forward := q.forward, keyCondition, filter,
      projection }

end Query

namespace QueryPlan

/-- The compiled expressions of a plan. -/
def parts (p : QueryPlan) : List Compiled :=
  p.keyCondition :: (p.filter.toList ++ p.projection.toList)

/-- The request for a table, with the bindings of all expressions. -/
def request (p : QueryPlan) (table : String) : Except Error QueryRequest := do
  let scope ← p.parts.foldlM (fun scope part => part.mergeInto scope) {}
  return {
    table
    index := p.read.index
    keyCondition := p.keyCondition.text
    filter := p.filter.map (·.text)
    projection := p.projection.map (·.text)
    names := scope.names
    values := scope.values
    forward := p.forward
    limit := p.read.limit.bind fitInt32
    startKey := p.read.startKey.getD .empty
    selection := p.read.selection
    consistent := p.read.consistent }

end QueryPlan

end ItemTable.Expression
