import ItemTable.Expression.Check
import ItemTable.Request

/-! What a query and a scan have in common besides their conditions. -/
namespace ItemTable.Expression

/-- Where a read looks, how much it returns and where it starts. -/
structure ReadOptions where
  index : Option String := none
  limit : Option Nat := none
  /-- Paths of the attributes to return, as they are given. -/
  fields : Option (List String) := none
  consistent : Option Bool := none
  startKey : Option Item := none
deriving DecidableEq

namespace ReadOptions

def withLimit (o : ReadOptions) (limit : Nat) : Except Error ReadOptions := do
  checkLimit limit
  return { o with limit := some limit }

/-- Sets the paths to return; no path at all means all attributes. -/
def selectFields (o : ReadOptions) (fields : List String) : Except Error ReadOptions := do
  fields.forM checkPath
  return { o with fields := if fields.isEmpty then none else some fields }

/-- What the request says about the attributes: only whether some are picked. -/
def selection (o : ReadOptions) : Option Selection :=
  o.fields.map fun _ => .specificAttributes

end ReadOptions

end ItemTable.Expression
