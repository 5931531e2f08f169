import ItemTable.ChangeLog.Walk

/-!
A scripted world for walks: prepared answers, and a clock that moves only while a call waits.

Answers are used up in order. Where none is left the log has no shards, a shard starts at a cursor
of its own name, a page is empty and the last one, and every batch is accepted. A call that is due
at the deadline is still answered; one that would be later is never answered.
-/
namespace ItemTable.ChangeLog

/-- A prepared answer; none never comes. -/
structure Prepared (α : Type) where
  delay : Nat := 0
  answer : Option α

/-- The state of a scripted world. -/
structure Script where
  now : Nat := 0
  deadline : Option Nat := none
  descriptions : List (Prepared (Except Fault Description)) := []
  cursors : Bindings (List (Prepared (Except Fault (Option Cursor)))) := .empty
  pages : Bindings (List (Prepared (Except Fault RecordPage))) := .empty
  outcomes : List (Prepared (Except Rejection Unit)) := []
  /-- The calls made so far with the time at which each one started. -/
  started : List (Nat × Call) := []

namespace Script

variable {α : Type}

def note (s : Script) (call : Call) : Script := { s with started := s.started ++ [(s.now, call)] }

/-- Waits; false if the deadline comes first. -/
def wait (s : Script) (duration : Nat) : Bool × Script :=
  match s.deadline with
  | some deadline =>
    if duration ≠ 0 ∧ deadline < s.now + duration then (false, { s with now := deadline })
    else (true, { s with now := s.now + duration })
  | none => (true, { s with now := s.now + duration })

/-- Waits for ever, or until the deadline. -/
def waitForEver (s : Script) : Script := { s with now := s.deadline.getD s.now }

def give (s : Script) (p : Prepared α) : Option α × Script :=
  match p.answer with
  | none => (none, s.waitForEver)
  | some a =>
    let (inTime, s) := s.wait p.delay
    (if inTime then some a else none, s)

def next (default : α) : List (Prepared α) → Prepared α × List (Prepared α)
  | [] => ({ answer := some default }, [])
  | p :: rest => (p, rest)

def nextOf (default : α) (m : Bindings (List (Prepared α))) (key : String) :
    Prepared α × Bindings (List (Prepared α)) :=
  let (p, rest) := next default ((m.get? key).getD [])
  (p, if m.contains key then m.insert key rest else m)

/-- Answers a call from the script. -/
def environment : Environment Script
  | .describe, s =>
    let (p, descriptions) := next (.ok ⟨[], none⟩) s.descriptions
    ({ s.note .describe with descriptions }).give p
  | .acquire shard, s =>
    let (p, cursors) := nextOf (.ok (some ⟨shard.id ++ "/0"⟩)) s.cursors shard.id
    ({ s.note (.acquire shard) with cursors }).give p
  | .fetch cursor limit, s =>
    let (p, pages) := nextOf (.ok ⟨[], none⟩) s.pages cursor.token
    ({ s.note (.fetch cursor limit) with pages }).give p
  | .deliver batch, s =>
    let (p, outcomes) := next (.ok ()) s.outcomes
    ({ s.note (.deliver batch) with outcomes }).give p
  | .pause duration, s => s.give { delay := duration, answer := some () }

/-- The number of shards that a prepared description has. -/
def shardCount (p : Prepared (Except Fault Description)) : Nat :=
  match p.answer with
  | some (.ok d) => d.shards.length
  | _ => 0

/-- More steps than a walk can make: every fetch uses up a page or ends its shard, and is followed
by at most one delivery and one pause. -/
def stepBound (s : Script) : Nat :=
  2 + 2 * s.descriptions.foldl (fun n p => n + shardCount p) 0 +
    3 * (s.pages.entries.flatMap (·.2)).length

/-- Walks through the scripted log, for a limited time if one is given. -/
def run (settings : Settings) (timeout : Option Nat) (s : Script) : Run Script :=
  let s := { s with deadline := timeout.map (s.now + ·), started := [] }
  Run.steps environment settings s.stepBound { walk := .start settings, world := s }

end Script

end ItemTable.ChangeLog
