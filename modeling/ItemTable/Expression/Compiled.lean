import ItemTable.Expression.Resolver
import ItemTable.Expression.Error

/-! Expression texts together with what their placeholders stand for. -/
namespace ItemTable.Expression

/-- An expression text with its bindings. -/
structure Compiled where
  text : String
  names : Bindings String := .empty
  values : Bindings AttributeValue := .empty
deriving DecidableEq

/-- The names and the values that a request binds. -/
structure Scope where
  names : Bindings String := .empty
  values : Bindings AttributeValue := .empty
deriving DecidableEq

/-- Adds bindings to a map; a placeholder may be bound again to the same thing only. -/
def addBindings {α : Type} [DecidableEq α] (m : Bindings α) :
    List (String × α) → Except Error (Bindings α)
  | [] => .ok m
  | (placeholder, a) :: rest =>
    match m.get? placeholder with
    | none => addBindings (m.insert placeholder a) rest
    | some known =>
      if known = a then addBindings m rest else .error (.placeholderConflict placeholder)

namespace Compiled

/-- An expression with those of the resolver's names that it refers to. -/
def ofResolver (text : String) (r : Resolver) (values : Bindings AttributeValue) : Compiled :=
  let refs := nameRefs text
  { text, values, names := .ofList (r.names.entries.filter fun e => refs.contains e.1) }

/-- Adds the bindings of an expression to those of a request, the names first. -/
def mergeInto (c : Compiled) (s : Scope) : Except Error Scope := do
  let names ← addBindings s.names c.names.entries
  let values ← addBindings s.values c.values.entries
  return { names, values }

end Compiled

end ItemTable.Expression
