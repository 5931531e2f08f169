import ItemTable.ChangeLog.Budget
import ItemTable.ChangeLog.Error
import ItemTable.ChangeLog.Record

/-!
Walking through a change log.

A walk visits the shards one after another. It acquires a cursor, fetches a page, delivers its
records and moves the cursor, until the shard has no further cursor or the budget is spent. An empty
page means that the shard is idle: the walk pauses and asks again. A shard that is gone is left
alone. Any other failure ends the walk or is retried from the same cursor after a pause, as the
settings say.

A walk is a machine: `Stage.call?` is what it asks of the world, and the functions named for the
answers say where it goes from there. `Run.step` makes one call, and every answer leaves an event.
What an observer sees of a walk is kept beside its stage, and every function that takes the walk to
another shard, to a pause or to its end sets it.
-/
namespace ItemTable.ChangeLog

/-- What a walk asks of the world. -/
inductive Call where
  | describe
  | acquire (shard : Shard)
  | fetch (cursor : Cursor) (limit : Nat)
  | deliver (batch : List Record)
  /-- A sleep, in milliseconds. -/
  | pause (duration : Nat)
deriving DecidableEq

/-- What the world answers to a call. -/
abbrev Call.Answer : Call → Type
  | describe => Except Fault Description
  | acquire _ => Except Fault (Option Cursor)
  | fetch _ _ => Except Fault RecordPage
  | deliver _ => Except Rejection Unit
  | pause _ => Unit

/-- A call that has been answered. -/
structure Event where
  call : Call
  answer : call.Answer

/-- An engine, a handler and a clock. A call that is never answered leaves the walk where it
stands. -/
abbrev Environment (World : Type) := (c : Call) → World → Option c.Answer × World

/-- The counters of a walk. -/
structure Summary where
  /-- Records accepted. -/
  processed : Nat := 0
  /-- Batches accepted. -/
  batches : Nat := 0
  /-- Shards for which a cursor was asked. -/
  visited : Nat := 0
  /-- Shards read to their end. -/
  exhausted : Nat := 0
  /-- Failures after which the walk went on. -/
  recovered : Nat := 0
deriving DecidableEq, Repr

/-- Where a walk stands. -/
inductive Stage where
  | describing
  | acquiring (shard : Shard)
  | fetching (shard : Shard) (cursor : Cursor) (limit : Nat)
  | delivering (shard : Shard) (cursor : Cursor) (batch : List Record) (next : Option Cursor)
  | pausing (shard : Shard) (cursor : Cursor) (duration : Nat)
  | finished
  | failed (e : Error)
deriving DecidableEq

/-- What a walk asks for where it stands. -/
def Stage.call? : Stage → Option Call
  | describing => some .describe
  | acquiring shard => some (.acquire shard)
  | fetching _ cursor limit => some (.fetch cursor limit)
  | delivering _ _ batch _ => some (.deliver batch)
  | pausing _ _ duration => some (.pause duration)
  | finished | failed _ => none

/-- What an observer sees of a walk. -/
inductive Phase where
  | idle
  | describing
  | iterating (shard : String)
  | waiting (shard : String)
  | done
  | failed
deriving DecidableEq, Repr

namespace Phase

def name : Phase → String
  | idle => "Idle"
  | describing => "Describing"
  | iterating _ => "Iterating"
  | waiting _ => "Waiting"
  | done => "Done"
  | failed => "Failed"

def shard? : Phase → Option String
  | iterating shard | waiting shard => some shard
  | _ => none

end Phase

/-- A walk under way. -/
structure Walk where
  stage : Stage := .describing
  phase : Phase := .idle
  view : Option ViewType := none
  /-- The shards still to be visited. -/
  ahead : List Shard := []
  budget : Budget
  summary : Summary := {}
deriving DecidableEq

namespace Walk

/-- A walk that has not been started. -/
def unstarted (settings : Settings) : Walk := { budget := { limit := settings.maxRecords } }

/-- A walk that has not called yet. -/
def start (settings : Settings) : Walk := { unstarted settings with phase := .describing }

def finish (w : Walk) : Walk := { w with stage := .finished, phase := .done }

def fail (w : Walk) (e : Error) : Walk := { w with stage := .failed e, phase := .failed }

/-- Goes on to the next shard. -/
def advance (w : Walk) : Walk :=
  match w.ahead with
  | [] => w.finish
  | shard :: rest =>
    if w.budget.isExhausted then w.finish
    else
      { w with
        stage := .acquiring shard
        phase := .iterating shard.id
        ahead := rest
        summary := { w.summary with visited := w.summary.visited + 1 } }

/-- Goes on after the end of a shard. -/
def exhaust (w : Walk) : Walk :=
  { w with summary := { w.summary with exhausted := w.summary.exhausted + 1 } }.advance

/-- Reads a shard on from a cursor. -/
def readOn (settings : Settings) (w : Walk) (shard : Shard) (cursor : Cursor) : Walk :=
  if w.budget.isExhausted then w.finish
  else
    { w with
      stage := .fetching shard cursor (w.budget.fetchLimit settings.batchSize)
      phase := .iterating shard.id }

/-- Ends the walk at a failure, or counts it and goes on. -/
def recover (settings : Settings) (w : Walk) (e : Error) (goOn : Walk → Walk) : Walk :=
  if settings.stopOnError then w.fail e
  else goOn { w with summary := { w.summary with recovered := w.summary.recovered + 1 } }

/-- Waits before the next fetch. -/
def waitAt (settings : Settings) (shard : Shard) (cursor : Cursor) (w : Walk) : Walk :=
  { w with
    stage := .pausing shard cursor settings.pollInterval
    phase := .waiting shard.id }

def described (w : Walk) : Except Fault Description → Walk
  | .error f => w.fail (.engine f)
  | .ok d => { w with view := d.view, ahead := lineageOrder d.shards }.advance

def acquired (settings : Settings) (w : Walk) (shard : Shard) :
    Except Fault (Option Cursor) → Walk
  | .ok (some cursor) => w.readOn settings shard cursor
  | .ok none => w.advance
  | .error f =>
    if f.kind = .resourceNotFound then w.advance else w.recover settings (.engine f) advance

/-- The batch of the first records of a page. -/
def batchOf (w : Walk) (records : List RawRecord) : List Record :=
  records.map fun raw => .ofRaw (raw.withView w.view)

/-- Takes a page. No more than the limit of its records are handed on. -/
def fetched (settings : Settings) (w : Walk) (shard : Shard) (cursor : Cursor) (limit : Nat) :
    Except Fault RecordPage → Walk
  | .error f =>
    if f.kind = .resourceNotFound then w.advance
    else w.recover settings (.engine f) (waitAt settings shard cursor)
  | .ok page =>
    if page.records.isEmpty then
      match page.next with
      | none => w.exhaust
      | some next => w.waitAt settings shard next
    else
      let (granted, budget) := w.budget.reserve (min page.records.length limit)
      if granted = 0 then { w with budget }.finish
      else
        let batch := w.batchOf (page.records.take granted)
        { w with budget, stage := .delivering shard cursor batch page.next }

/-- Takes the answer of the handler. Records that are not accepted go back to the budget. -/
def delivered (settings : Settings) (w : Walk) (shard : Shard) (cursor : Cursor)
    (batch : List Record) (next : Option Cursor) : Except Rejection Unit → Walk
  | .error r =>
    { w with budget := w.budget.release batch.length }.recover settings (.handler r)
      (waitAt settings shard cursor)
  | .ok () =>
    let w := { w with
      summary := { w.summary with
        processed := w.summary.processed + batch.length
        batches := w.summary.batches + 1 } }
    match next with
    | some next => w.readOn settings shard next
    | none => w.exhaust

def result? (w : Walk) : Option (Except Error Summary) :=
  match w.stage with
  | .finished => some (.ok w.summary)
  | .failed e => some (.error e)
  | _ => none

end Walk

/-- A walk in its world, with the calls that have been answered. -/
structure Run (World : Type) where
  walk : Walk
  world : World
  events : List Event := []
  /-- A call has not been answered and never will be. -/
  dropped : Bool := false

namespace Run

variable {World : Type}

/-- Makes a call and goes on with its answer. Without an answer the walk stays where it is. -/
def exchange (env : Environment World) (r : Run World) (call : Call) (goOn : call.Answer → Walk) :
    Run World :=
  match env call r.world with
  | (some answer, world) =>
    { walk := goOn answer, world, events := r.events ++ [⟨call, answer⟩] }
  | (none, world) => { r with world, dropped := true }

def step (env : Environment World) (settings : Settings) (r : Run World) : Run World :=
  if r.dropped then r
  else
    match r.walk.stage with
    | .describing => r.exchange env .describe r.walk.described
    | .acquiring shard => r.exchange env (.acquire shard) (r.walk.acquired settings shard)
    | .fetching shard cursor limit =>
      r.exchange env (.fetch cursor limit) (r.walk.fetched settings shard cursor limit)
    | .delivering shard cursor batch next =>
      r.exchange env (.deliver batch) (r.walk.delivered settings shard cursor batch next)
    | .pausing shard cursor duration =>
      r.exchange env (.pause duration) fun _ => r.walk.readOn settings shard cursor
    | .finished | .failed _ => r

def steps (env : Environment World) (settings : Settings) : Nat → Run World → Run World
  | 0, r => r
  | n + 1, r => steps env settings n (r.step env settings)

end Run

end ItemTable.ChangeLog
