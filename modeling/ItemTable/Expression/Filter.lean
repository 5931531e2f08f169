import ItemTable.Bindings
import ItemTable.Expression.Binder
import ItemTable.Expression.Check
import ItemTable.Expression.Resolver

/-!
Filters written by hand.

A caller's filter comes with bindings for its placeholders. Taking it over replaces every name by
the resolver's reference and every value by a number of the shared binder, so that the filter can
stand beside others. What is referred to must be supplied, and what is supplied must be referred to.
-/
namespace ItemTable.Expression

/-- A placeholder with its sign in front, which a caller may leave out. -/
def withSign (sign : Char) (placeholder : String) : String :=
  if placeholder.toList.head? = some sign then placeholder
  else String.ofList (sign :: placeholder.toList)

/-- The supplied attribute names, the last binding of a placeholder counting. -/
def suppliedNames (m : Bindings String) :
    List (String × String) → Except Error (Bindings String)
  | [] => .ok m
  | (placeholder, name) :: rest =>
    let placeholder := withSign '#' placeholder
    if name.isEmpty then .error (.invalidValue placeholder .emptyAttributeName)
    else suppliedNames (m.insert placeholder name) rest

/-- The supplied values, the last binding of a placeholder counting. -/
def suppliedValues (m : Bindings AttributeValue) :
    List (String × AttributeValue) → Except Error (Bindings AttributeValue)
  | [] => .ok m
  | (placeholder, v) :: rest => do
    let placeholder := withSign ':' placeholder
    checkValue placeholder v
    suppliedValues (m.insert placeholder v) rest

/-- What renaming carries along: names and values in use, and the new placeholders of the values
that have come up. -/
structure Renaming where
  resolver : Resolver
  binder : Binder
  renamed : Bindings String := .empty

namespace Renaming

def token (names : Bindings String) (values : Bindings AttributeValue) (s : Renaming) (t : Token) :
    Except Error (List Char × Renaming) :=
  let text := String.ofList t.text
  match t.kind with
  | .valueRef =>
    match s.renamed.get? text with
    | some placeholder => .ok (placeholder.toList, s)
    | none =>
      match values.get? text with
      | none => .error (.missingValue text)
      | some v =>
        let (placeholder, binder) := s.binder.bind v
        .ok (placeholder.toList, { s with binder, renamed := s.renamed.insert text placeholder })
  | .nameRef =>
    match names.get? text with
    | none => .error (.missingName text)
    | some name =>
      let (reference, resolver) := s.resolver.literal name
      .ok (reference, { s with resolver })
  | .identifier =>
    let (reference, resolver) := s.resolver.segment t.text
    .ok (reference, { s with resolver })
  | .keyword | .other => .ok (t.text, s)

def tokens (names : Bindings String) (values : Bindings AttributeValue) (s : Renaming) :
    List Token → Except Error (List (List Char) × Renaming)
  | [] => .ok ([], s)
  | t :: rest => do
    let (text, s) ← s.token names values t
    let (texts, s) ← s.tokens names values rest
    return (text :: texts, s)

end Renaming

/-- A supplied placeholder that the expression does not refer to. -/
def unreferenced? (expression : String) (names : Bindings String)
    (values : Bindings AttributeValue) : Option String :=
  (values.keys.find? fun k => !(valueRefs expression).contains k).or
    (names.keys.find? fun k => !(nameRefs expression).contains k)

/-- Takes over a filter with its bindings. The parentheses keep it apart from its neighbours. -/
def adoptFilter (r : Resolver) (b : Binder) (expression : String)
    (names : List (String × String)) (values : List (String × AttributeValue)) :
    Except Error (String × Resolver × Binder) := do
  if Text.allBlank expression then .error (.invalidValue "filter" .blankFilter)
  let names ← suppliedNames .empty names
  let values ← suppliedValues .empty values
  let (texts, s) ← Renaming.tokens names values { resolver := r, binder := b }
    (tokensOf expression)
  match unreferenced? expression names values with
  | some placeholder => .error (.invalidValue placeholder .unreferenced)
  | none => return (String.ofList ('(' :: (texts.flatten ++ [')'])), s.resolver, s.binder)

end ItemTable.Expression
