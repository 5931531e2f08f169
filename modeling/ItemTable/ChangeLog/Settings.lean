import ItemTable.ChangeLog.Position
import ItemTable.Number.Digits
import ItemTable.Text.Blank

/-! How a change log is read. -/
namespace ItemTable.ChangeLog

def maxBatchSize : Nat := 1000

/-- The settings of a run. -/
structure Settings where
  /-- How many records a fetch asks for. -/
  batchSize : Nat := 100
  /-- After how many records a run ends; without a number it ends with the last shard. -/
  maxRecords : Option Nat := none
  /-- The pause before an idle shard is asked again and before a retry, in milliseconds. -/
  pollInterval : Nat := 1000
  /-- Whether the first failure ends the run. -/
  stopOnError : Bool := true
  position : Position := .default
deriving DecidableEq, Repr

/-- What is wrong with settings. -/
inductive SettingsFlaw where
  | batchSize (n : Nat)
  | noRecords
deriving DecidableEq, Repr

def SettingsFlaw.message : SettingsFlaw → String
  | batchSize n =>
    "batch_size must be between 1 and " ++ toString maxBatchSize ++ ", got " ++ toString n
  | noRecords => "max_records must be positive when set"

/-- The texts of the variables that a user may set. -/
structure Variables where
  batchSize : Option String := none
  maxRecords : Option String := none
  pollInterval : Option String := none
  stopOnError : Option String := none
deriving DecidableEq, Repr

/-- The number of a variable: blanks around it do not count, and it must fit into 64 bits. -/
def numberOf? (text : String) : Option Nat :=
  Number.whole? 0x10000000000000000 (Text.trim text.toList)

def affirmations : List String := ["1", "true", "yes", "TRUE", "YES"]

namespace Settings

/-- The settings of variables. One that is unset or no number keeps its default. -/
def ofVariables (v : Variables) : Settings :=
  let unset : Settings := {}
  { batchSize := (v.batchSize.bind numberOf?).getD unset.batchSize
    maxRecords := (v.maxRecords.bind numberOf?).or unset.maxRecords
    pollInterval := (v.pollInterval.bind numberOf?).getD unset.pollInterval
    stopOnError := v.stopOnError.elim unset.stopOnError affirmations.contains
    position := unset.position }

/-- Refuses settings that no run can follow. -/
def check (s : Settings) : Except SettingsFlaw Unit :=
  if ¬(1 ≤ s.batchSize ∧ s.batchSize ≤ maxBatchSize) then .error (.batchSize s.batchSize)
  else if s.maxRecords = some 0 then .error .noRecords
  else .ok ()

end Settings

end ItemTable.ChangeLog
