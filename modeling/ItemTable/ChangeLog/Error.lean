import ItemTable.ChangeLog.Settings
import ItemTable.Fault
import ItemTable.Text.Separated

/-! What ends the reading of a change log. -/
namespace ItemTable.ChangeLog

/-- Why a handler has not accepted a batch: a reason, and what it was wrapped in, outermost
first. -/
structure Rejection where
  reasons : List String
deriving DecidableEq, Repr

/-- What ends a run early, or keeps it from starting. -/
inductive Error where
  | engine (f : Fault)
  | handler (r : Rejection)
  | settings (flaw : SettingsFlaw)
deriving DecidableEq, Repr

namespace Error

def name : Error → String
  | engine _ => "Engine"
  | handler _ => "Handler"
  | settings _ => "InvalidConfig"

def fault? : Error → Option Fault
  | engine f => some f
  | handler _ | settings _ => none

def message : Error → String
  | engine f => "change log engine failed: " ++ f.display
  | handler r => "record handler failed: " ++ Text.joinWith ": " r.reasons
  | settings flaw => "invalid stream configuration: " ++ flaw.message

/-- Whether the same run may succeed later. -/
def isRetryable : Error → Bool
  | engine f => f.isRetryable
  | handler _ | settings _ => false

end Error

end ItemTable.ChangeLog
