import ItemTable.Value

/-!
Value placeholders, numbered from one counter.

The binder keeps the values in the order in which they were bound.
-/
namespace ItemTable.Expression

/-- Values that have placeholders: a stem and a number each. -/
structure Binder where
  stem : String
  next : Nat
  bound : List (String × AttributeValue) := []
deriving DecidableEq

namespace Binder

def values (b : Binder) : Bindings AttributeValue := .ofList b.bound

/-- Takes the next number without binding a value. -/
def tick (b : Binder) : Nat × Binder := (b.next, { b with next := b.next + 1 })

/-- Binds a value to a placeholder of the caller's choice. -/
def bindAs (b : Binder) (placeholder : String) (v : AttributeValue) : Binder :=
  { b with bound := b.bound ++ [(placeholder, v)] }

/-- Binds a value to the next placeholder. -/
def bind (b : Binder) (v : AttributeValue) : String × Binder :=
  let (number, b) := b.tick
  let placeholder := b.stem ++ toString number
  (placeholder, b.bindAs placeholder v)

def bindAll (b : Binder) : List AttributeValue → List String × Binder
  | [] => ([], b)
  | v :: rest =>
    let (placeholder, b) := b.bind v
    let (placeholders, b) := b.bindAll rest
    (placeholder :: placeholders, b)

end Binder

end ItemTable.Expression
