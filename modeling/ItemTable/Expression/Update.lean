import ItemTable.Expression.Check
import ItemTable.Expression.Compiled
import ItemTable.Expression.Condition
import ItemTable.Request

/-!
Updates of one item.

Updates are kept in the order in which they are made and compiled into one expression of up to four
clauses. The clauses always come in the same order; inside a clause the updates keep theirs.
-/
namespace ItemTable.Expression

/-- The clauses of an update expression. -/
inductive Clause where
  | set
  | remove
  | add
  | delete
deriving DecidableEq, Repr

namespace Clause

def name : Clause → String
  | set => "SET"
  | remove => "REMOVE"
  | add => "ADD"
  | delete => "DELETE"

/-- The clauses in the order in which they are written. -/
def all : List Clause := [set, remove, add, delete]

end Clause

/-- What is done to a field. -/
inductive Action where
  | set (v : AttributeValue)
  /-- Puts elements at the end of a list, which is made if there is none. -/
  | append (items : List AttributeValue)
  /-- Puts elements at the start of a list, which is made if there is none. -/
  | prepend (items : List AttributeValue)
  | remove
  | add (v : AttributeValue)
  | delete (v : AttributeValue)
deriving DecidableEq

def Action.clause : Action → Clause
  | set _ | append _ | prepend _ => .set
  | remove => .remove
  | add _ => .add
  | delete _ => .delete

/-- An action on a field. -/
structure FieldUpdate where
  field : String
  action : Action
deriving DecidableEq

/-- The updates of an item as they are put together. -/
structure Update where
  updates : List FieldUpdate := []
  passthrough : List String := []
deriving DecidableEq

/-- A compiled update. -/
structure UpdatePlan where
  update : String
  condition : Option String := none
  scope : Scope := {}
deriving DecidableEq

/-- The elements that a value adds to a list: its own if it is a list, otherwise the value
itself. -/
def listElements (field : String) (v : AttributeValue) : Except Error (List AttributeValue) := do
  let items := v.asList?.getD [v]
  if items.isEmpty then .error (.emptyList field)
  items.forM (checkValue field)
  return items

/-- A number text with the opposite sign. Digits, point and exponent stay as they are written. -/
def negated (number : String) : String :=
  match number.toList with
  | '-' :: rest => String.ofList rest
  | '+' :: rest => String.ofList ('-' :: rest)
  | cs => String.ofList ('-' :: cs)

/-- A number or a set, as an addition takes it. -/
def checkAddend (field : String) (v : AttributeValue) : Except Error Unit :=
  match v.asNumber? with
  | some _ => (fun _ => ()) <$> checkNumber field v
  | none => (checkSet field v).mapError fun _ => .invalidValue field .notNumberOrSet

/-- Writes an action on the field that a name refers to. -/
def Action.render (name : String) (action : Action) (b : Binder) : String × Binder :=
  let bindList (items : List AttributeValue) : String × String × Binder :=
    let (number, b) := b.tick
    let empty := ":empty" ++ toString number
    let added := ":items" ++ toString number
    (empty, added, (b.bindAs empty (.list [])).bindAs added (.list items))
  match action with
  | remove => (name, b)
  | set v =>
    let (placeholder, b) := b.bind v
    (name ++ " = " ++ placeholder, b)
  | add v | delete v =>
    let (placeholder, b) := b.bind v
    (name ++ " " ++ placeholder, b)
  | append items =>
    let (empty, added, b) := bindList items
    (name ++ " = list_append(if_not_exists(" ++ name ++ ", " ++ empty ++ "), " ++ added ++ ")", b)
  | prepend items =>
    let (empty, added, b) := bindList items
    (name ++ " = list_append(" ++ added ++ ", if_not_exists(" ++ name ++ ", " ++ empty ++ "))", b)

def renderUpdates (r : Resolver) (b : Binder) : List FieldUpdate → List String × Resolver × Binder
  | [] => ([], r, b)
  | u :: rest =>
    let (name, r) := r.path u.field
    let (text, b) := u.action.render name b
    let (texts, r, b) := renderUpdates r b rest
    (text :: texts, r, b)

/-- Writes the clauses that have updates. -/
def renderClauses (updates : List FieldUpdate) (r : Resolver) (b : Binder) :
    List Clause → List String × Resolver × Binder
  | [] => ([], r, b)
  | clause :: rest =>
    let (texts, r, b) := renderUpdates r b (updates.filter (·.action.clause = clause))
    let (clauses, r, b) := renderClauses updates r b rest
    (if texts.isEmpty then clauses
      else (clause.name ++ " " ++ Text.joinWith ", " texts) :: clauses, r, b)

/-- The first field that an earlier update names already. -/
def repeatedField? (seen : List String) : List FieldUpdate → Option String
  | [] => none
  | u :: rest => if u.field ∈ seen then some u.field else repeatedField? (u.field :: seen) rest

def updateBinder : Binder := { stem := ":val", next := 1 }

namespace Update

def push (u : Update) (field : String) (action : Action) : Except Error Update := do
  checkFieldName field
  if maxUpdates ≤ u.updates.length then .error (.tooManyUpdates maxUpdates)
  else return { u with updates := u.updates ++ [{ field, action }] }

def set (u : Update) (field : String) (v : AttributeValue) : Except Error Update := do
  checkValue field v
  u.push field (.set v)

def remove (u : Update) (field : String) : Except Error Update := u.push field .remove

def add (u : Update) (field : String) (v : AttributeValue) : Except Error Update := do
  checkAddend field v
  u.push field (.add v)

def delete (u : Update) (field : String) (v : AttributeValue) : Except Error Update := do
  checkSet field v
  u.push field (.delete v)

def increment (u : Update) (field : String) (v : AttributeValue) : Except Error Update := do
  let _ ← checkNumber field v
  u.push field (.add v)

def decrement (u : Update) (field : String) (v : AttributeValue) : Except Error Update := do
  let _ ← checkNumber field v
  match v with
  | .number n => u.push field (.add (.number (negated n)))
  | other => u.push field (.add other)

/-- Puts elements at the end of a list. -/
def append (u : Update) (field : String) (v : AttributeValue) : Except Error Update := do
  let items ← listElements field v
  u.push field (.append items)

/-- Puts elements at the start of a list. -/
def prepend (u : Update) (field : String) (v : AttributeValue) : Except Error Update := do
  let items ← listElements field v
  u.push field (.prepend items)

/-- Compiles the updates. No field may be updated twice. -/
def plan (u : Update) : Except Error UpdatePlan :=
  if u.updates.isEmpty then .error .noUpdates
  else
    match repeatedField? [] u.updates with
    | some field => .error (.overlappingUpdate field)
    | none =>
      let (clauses, r, b) :=
        renderClauses u.updates { passthrough := u.passthrough } updateBinder Clause.all
      .ok {
        update := Text.joinWith " " clauses
        scope := { names := r.names, values := b.values } }

/-- Compiles the updates under a condition, whose placeholders are kept. -/
def planWithCondition (u : Update) (condition : Compiled) : Except Error UpdatePlan := do
  let plan ← u.plan
  let scope ← condition.mergeInto plan.scope
  return { plan with condition := some condition.text, scope }

end Update

/-- The request for an item of a table. -/
def UpdatePlan.request (p : UpdatePlan) (table : String) (key : Item)
    (returnValues : Option ReturnValues) : UpdateRequest where
  table := table
  key := key
  update := p.update
  condition := p.condition
  names := p.scope.names
  values := p.scope.values
  returnValues := returnValues

end ItemTable.Expression
