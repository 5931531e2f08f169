/-!
The budget of a run: how many records it may still hand on.

Records are reserved before they are handed on, and given back if they are not accepted.
-/
namespace ItemTable.ChangeLog

/-- Counts run below this number. -/
def countBound : Nat := 0x10000000000000000

/-- A budget, limited or not, with the records reserved so far. -/
structure Budget where
  limit : Option Nat
  used : Nat := 0
deriving DecidableEq, Repr

namespace Budget

/-- The records that are left; none if there is no limit. -/
def remaining (b : Budget) : Option Nat := b.limit.map (· - b.used)

/-- Nothing is left. -/
def isExhausted (b : Budget) : Bool := b.remaining == some 0

/-- How many records the next fetch asks for. -/
def fetchLimit (b : Budget) (batchSize : Nat) : Nat :=
  match b.remaining with
  | some left => min left batchSize
  | none => batchSize

/-- Reserves up to `wanted` records and says how many. Without a limit the count starts again at its
bound. -/
def reserve (b : Budget) (wanted : Nat) : Nat × Budget :=
  match b.limit with
  | none => (wanted, { b with used := (b.used + wanted) % countBound })
  | some limit =>
    let granted := min wanted (limit - b.used)
    (granted, { b with used := b.used + granted })

def release (b : Budget) (granted : Nat) : Budget := { b with used := b.used - granted }

end Budget

end ItemTable.ChangeLog
