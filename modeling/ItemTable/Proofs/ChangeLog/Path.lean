import ItemTable.ChangeLog.Walk

/-!
# Paths of a walk

A walk moves only when a call is answered. `Walk.Step` lists what an answered call can make of a
walk, with all that the walk has looked at; `Walk.Path` says which walk a list of answered calls
leads to. `Run.path` says that every run follows a path, whatever the engine and the handler answer:
what every step keeps therefore holds in every run.
-/
namespace ItemTable.ChangeLog

namespace Event

/-- The engine says that the shard, or what is left of it, is no longer there. -/
def saysGone : Event → Bool
  | ⟨.acquire _, .ok none⟩ => true
  | ⟨.acquire _, .error f⟩ | ⟨.fetch _ _, .error f⟩ => f.kind = .resourceNotFound
  | _ => false

/-- The failure that the settings decide about: neither a describe error nor a shard that is
gone. -/
def failure? : Event → Option Error
  | ⟨.acquire _, .error f⟩ | ⟨.fetch _ _, .error f⟩ =>
    if f.kind = .resourceNotFound then none else some (.engine f)
  | ⟨.deliver _, .error r⟩ => some (.handler r)
  | _ => none

/-- The records that the handler has taken over by this answer. -/
def accepted : Event → List Record
  | ⟨.deliver batch, .ok ()⟩ => batch
  | _ => []

/-- Only the engine can say that a shard is gone. -/
theorem call_of_saysGone {e : Event} (h : e.saysGone = true) :
    (∃ shard, e.call = .acquire shard) ∨ ∃ cursor limit, e.call = .fetch cursor limit := by
  obtain ⟨call, answer⟩ := e
  cases call with
  | acquire shard => exact .inl ⟨shard, rfl⟩
  | fetch cursor limit => exact .inr ⟨cursor, limit, rfl⟩
  | describe | deliver batch | pause => cases h

theorem call_of_failure {e : Event} {err : Error} (h : e.failure? = some err) :
    (∃ shard, e.call = .acquire shard) ∨ (∃ cursor limit, e.call = .fetch cursor limit) ∨
    ∃ batch, e.call = .deliver batch := by
  obtain ⟨call, answer⟩ := e
  cases call with
  | acquire shard => exact .inl ⟨shard, rfl⟩
  | fetch cursor limit => exact .inr (.inl ⟨cursor, limit, rfl⟩)
  | deliver batch => exact .inr (.inr ⟨batch, rfl⟩)
  | describe | pause => cases h

theorem accepted_of_saysGone {e : Event} (h : e.saysGone = true) : e.accepted = [] := by
  obtain ⟨call, answer⟩ := e
  cases call with
  | deliver batch => cases h
  | describe | acquire shard | fetch cursor limit | pause => rfl

theorem accepted_of_failure {e : Event} {err : Error} (h : e.failure? = some err) :
    e.accepted = [] := by
  obtain ⟨call, answer⟩ := e
  cases call with
  | deliver batch =>
    cases answer with
    | error r => rfl
    | ok u => cases h
  | describe | acquire shard | fetch cursor limit | pause => rfl

end Event

/-- The records that the handler has accepted, in order. -/
def accepted (es : List Event) : List Record := es.flatMap Event.accepted

@[simp] theorem accepted_nil : accepted [] = [] := rfl

@[simp] theorem accepted_snoc (es : List Event) (e : Event) :
    accepted (es ++ [e]) = accepted es ++ e.accepted := by
  simp [accepted]

namespace Stage

/-- The shard that is being visited. -/
def shard? : Stage → Option Shard
  | acquiring shard | fetching shard _ _ | delivering shard _ _ _ | pausing shard _ _ => some shard
  | describing | finished | failed _ => none

/-- The shard and the cursor whose records a pending call is about. -/
def reading? : Stage → Option (Shard × Cursor)
  | fetching shard cursor _ | delivering shard cursor _ _ => some (shard, cursor)
  | _ => none

/-- How many records the handler holds without having accepted them. -/
def held : Stage → Nat
  | delivering _ _ batch _ => batch.length
  | _ => 0

theorem held_eq_zero {stage : Stage} (h : ∀ batch, stage.call? ≠ some (.deliver batch)) :
    stage.held = 0 := by
  cases stage with
  | delivering shard cursor batch next => exact absurd rfl (h batch)
  | describing | acquiring | fetching | pausing | finished | failed => rfl

theorem describing_of_call {stage : Stage} (h : stage.call? = some .describe) :
    stage = .describing := by
  cases stage <;> cases h
  rfl

theorem fetching_of_call {stage : Stage} {cursor : Cursor} {limit : Nat}
    (h : stage.call? = some (.fetch cursor limit)) :
    ∃ shard, stage = .fetching shard cursor limit := by
  cases stage <;> cases h
  exact ⟨_, rfl⟩

theorem acquiring_of_call {stage : Stage} {shard : Shard}
    (h : stage.call? = some (.acquire shard)) : stage = .acquiring shard := by
  cases stage <;> cases h
  rfl

theorem asking_of_saysGone {stage : Stage} {e : Event} (hcall : stage.call? = some e.call)
    (hgone : e.saysGone = true) :
    ∃ shard, stage = .acquiring shard ∨ ∃ cursor limit, stage = .fetching shard cursor limit := by
  rcases Event.call_of_saysGone hgone with ⟨shard, h⟩ | ⟨cursor, limit, h⟩
  · exact ⟨shard, .inl (acquiring_of_call (h ▸ hcall))⟩
  · obtain ⟨shard, hstage⟩ := fetching_of_call (h ▸ hcall)
    exact ⟨shard, .inr ⟨cursor, limit, hstage⟩⟩

theorem pausing_of_call {stage : Stage} {duration : Nat}
    (h : stage.call? = some (.pause duration)) :
    ∃ shard cursor, stage = .pausing shard cursor duration := by
  cases stage <;> cases h
  exact ⟨_, _, rfl⟩

theorem delivering_of_call {stage : Stage} {batch : List Record}
    (h : stage.call? = some (.deliver batch)) :
    ∃ shard cursor next, stage = .delivering shard cursor batch next := by
  cases stage <;> cases h
  exact ⟨_, _, _, rfl⟩

end Stage

namespace Walk

/-- The walk with the records at the handler back in its budget. -/
def giveBack (w : Walk) : Walk := { w with budget := w.budget.release w.stage.held }

/-- The walk with one failure more. -/
def noteFailure (w : Walk) : Walk :=
  { w with summary := { w.summary with recovered := w.summary.recovered + 1 } }

/-- The walk with one accepted batch more. -/
def credit (w : Walk) (count : Nat) : Walk :=
  { w with summary := { w.summary with
      processed := w.summary.processed + count
      batches := w.summary.batches + 1 } }

@[simp] theorem finish_stage (w : Walk) : w.finish.stage = .finished := rfl

@[simp] theorem fail_stage (w : Walk) (e : Error) : (w.fail e).stage = .failed e := rfl

@[simp] theorem waitAt_stage (settings : Settings) (shard : Shard) (cursor : Cursor) (w : Walk) :
    (w.waitAt settings shard cursor).stage = .pausing shard cursor settings.pollInterval := rfl

theorem giveBack_of_held_eq_zero {w : Walk} (h : w.stage.held = 0) : w.giveBack = w := by
  simp [giveBack, h, Budget.release]

/-- What one answered call makes of a walk. -/
inductive Step (settings : Settings) (w : Walk) : Event → Walk → Prop
  | unlisted {f} (hstage : w.stage = .describing) :
      Step settings w ⟨.describe, .error f⟩ (w.fail (.engine f))
  | listed {d} (hstage : w.stage = .describing) :
      Step settings w ⟨.describe, .ok d⟩
        { w with view := d.view, ahead := lineageOrder d.shards }.advance
  | opened {shard cursor} (hstage : w.stage = .acquiring shard) :
      Step settings w ⟨.acquire shard, .ok (some cursor)⟩ (w.readOn settings shard cursor)
  | gone {e} (hcall : w.stage.call? = some e.call) (hgone : e.saysGone = true) :
      Step settings w e w.advance
  | stopped {e err} (hcall : w.stage.call? = some e.call) (hfail : e.failure? = some err)
      (hstop : settings.stopOnError = true) :
      Step settings w e (w.giveBack.fail err)
  | skipped {shard f} (hstage : w.stage = .acquiring shard) (hkind : f.kind ≠ .resourceNotFound)
      (hstop : settings.stopOnError = false) :
      Step settings w ⟨.acquire shard, .error f⟩ w.noteFailure.advance
  | retried {e err shard cursor} (hcall : w.stage.call? = some e.call)
      (hreading : w.stage.reading? = some (shard, cursor)) (hfail : e.failure? = some err)
      (hstop : settings.stopOnError = false) :
      Step settings w e (w.giveBack.noteFailure.waitAt settings shard cursor)
  | ended {shard cursor limit page} (hstage : w.stage = .fetching shard cursor limit)
      (hempty : page.records = []) (hnext : page.next = none) :
      Step settings w ⟨.fetch cursor limit, .ok page⟩ w.exhaust
  | idle {shard cursor limit page next} (hstage : w.stage = .fetching shard cursor limit)
      (hempty : page.records = []) (hnext : page.next = some next) :
      Step settings w ⟨.fetch cursor limit, .ok page⟩ (w.waitAt settings shard next)
  | offered {shard cursor limit page granted budget}
      (hstage : w.stage = .fetching shard cursor limit) (hrecords : page.records ≠ [])
      (hreserve : w.budget.reserve (min page.records.length limit) = (granted, budget))
      (hgranted : granted ≠ 0) :
      Step settings w ⟨.fetch cursor limit, .ok page⟩
        { w with
          budget
          stage := .delivering shard cursor (w.batchOf (page.records.take granted)) page.next }
  | starved {shard cursor limit page budget} (hstage : w.stage = .fetching shard cursor limit)
      (hrecords : page.records ≠ [])
      (hreserve : w.budget.reserve (min page.records.length limit) = (0, budget)) :
      Step settings w ⟨.fetch cursor limit, .ok page⟩ { w with budget }.finish
  | closed {shard cursor batch} (hstage : w.stage = .delivering shard cursor batch none) :
      Step settings w ⟨.deliver batch, .ok ()⟩ (w.credit batch.length).exhaust
  | moved {shard cursor batch next}
      (hstage : w.stage = .delivering shard cursor batch (some next)) :
      Step settings w ⟨.deliver batch, .ok ()⟩
        ((w.credit batch.length).readOn settings shard next)
  | resumed {shard cursor duration} (hstage : w.stage = .pausing shard cursor duration) :
      Step settings w ⟨.pause duration, ()⟩ (w.readOn settings shard cursor)

/-- The walk that answered calls lead to. -/
inductive Path (settings : Settings) : List Event → Walk → Prop
  | start : Path settings [] (.start settings)
  | snoc {es e w w'} : Path settings es w → Step settings w e w' → Path settings (es ++ [e]) w'

variable {settings : Settings} {w : Walk}

/-- The policy for failures: with stopping set the walk fails, otherwise it counts the failure. -/
theorem recover_eq (settings : Settings) (w : Walk) (e : Error) (goOn : Walk → Walk) :
    w.recover settings e goOn =
      if settings.stopOnError = true then w.fail e else goOn w.noteFailure := rfl

theorem step_described (hstage : w.stage = .describing) (answer : Except Fault Description) :
    Step settings w ⟨.describe, answer⟩ (w.described answer) := by
  cases answer with
  | error f => exact .unlisted hstage
  | ok d => exact .listed hstage

theorem step_acquired {shard : Shard} (hstage : w.stage = .acquiring shard)
    (answer : Except Fault (Option Cursor)) :
    Step settings w ⟨.acquire shard, answer⟩ (w.acquired settings shard answer) := by
  have hcall : w.stage.call? = some (.acquire shard) := by rw [hstage]; rfl
  cases answer with
  | ok cursor? =>
    cases cursor? with
    | some cursor => exact .opened hstage
    | none => exact .gone hcall rfl
  | error f =>
    by_cases hkind : f.kind = .resourceNotFound
    · simp only [acquired, if_pos hkind]
      exact .gone hcall (by simpa [Event.saysGone] using hkind)
    · simp only [acquired, if_neg hkind, recover_eq]
      split
      · next hstop =>
        have hgive : w.giveBack = w := giveBack_of_held_eq_zero (by rw [hstage]; rfl)
        have hstep : Step settings w ⟨.acquire shard, .error f⟩ (w.giveBack.fail (.engine f)) :=
          .stopped hcall (by simp [Event.failure?, hkind]) hstop
        rwa [hgive] at hstep
      · next hstop => exact .skipped hstage hkind (by simpa using hstop)

theorem step_fetched {shard : Shard} {cursor : Cursor} {limit : Nat}
    (hstage : w.stage = .fetching shard cursor limit) (answer : Except Fault RecordPage) :
    Step settings w ⟨.fetch cursor limit, answer⟩
      (w.fetched settings shard cursor limit answer) := by
  have hcall : w.stage.call? = some (.fetch cursor limit) := by rw [hstage]; rfl
  have hgive : w.giveBack = w := giveBack_of_held_eq_zero (by rw [hstage]; rfl)
  cases answer with
  | error f =>
    by_cases hkind : f.kind = .resourceNotFound
    · simp only [fetched, if_pos hkind]
      exact .gone hcall (by simpa [Event.saysGone] using hkind)
    · have hfail : (⟨.fetch cursor limit, .error f⟩ : Event).failure? = some (.engine f) := by
        simp [Event.failure?, hkind]
      simp only [fetched, if_neg hkind, recover_eq]
      split
      · next hstop =>
        have hstep := Step.stopped hcall hfail hstop
        rwa [hgive] at hstep
      · next hstop =>
        have hstep : Step settings w ⟨.fetch cursor limit, .error f⟩
            (w.giveBack.noteFailure.waitAt settings shard cursor) :=
          .retried hcall (by rw [hstage]; rfl) hfail (by simpa using hstop)
        rwa [hgive] at hstep
  | ok page =>
    cases hrecords : page.records with
    | nil =>
      simp only [fetched, hrecords, List.isEmpty_nil, if_true]
      cases hnext : page.next with
      | none => exact .ended hstage hrecords hnext
      | some next => exact .idle hstage hrecords hnext
    | cons record rest =>
      have hne : page.records ≠ [] := by rw [hrecords]; exact List.cons_ne_nil _ _
      simp only [fetched, List.isEmpty_eq_false_iff.2 hne]
      cases hreserve : w.budget.reserve (min page.records.length limit) with
      | mk granted budget =>
        by_cases hgranted : granted = 0
        · subst hgranted
          exact .starved hstage hne hreserve
        · simp only [if_neg hgranted]
          exact .offered hstage hne hreserve hgranted

theorem step_delivered {shard : Shard} {cursor : Cursor} {batch : List Record}
    {next : Option Cursor} (hstage : w.stage = .delivering shard cursor batch next)
    (answer : Except Rejection Unit) :
    Step settings w ⟨.deliver batch, answer⟩
      (w.delivered settings shard cursor batch next answer) := by
  have hcall : w.stage.call? = some (.deliver batch) := by rw [hstage]; rfl
  have hgive : w.giveBack = { w with budget := w.budget.release batch.length } := by
    simp [giveBack, hstage, Stage.held]
  cases answer with
  | error r =>
    simp only [delivered, recover_eq]
    split
    · next hstop =>
      have hstep := Step.stopped (e := ⟨.deliver batch, .error r⟩) hcall rfl hstop
      rwa [hgive] at hstep
    · next hstop =>
      have hstep : Step settings w ⟨.deliver batch, .error r⟩
          (w.giveBack.noteFailure.waitAt settings shard cursor) :=
        .retried hcall (by rw [hstage]; rfl) rfl (by simpa using hstop)
      rwa [hgive] at hstep
  | ok u =>
    cases next with
    | none => exact .closed hstage
    | some next => exact .moved hstage

/-- Between two shards a walk ends, or it acquires a cursor of the next one. -/
theorem advance_cases (w : Walk) :
    (w.advance = w.finish ∧ (w.ahead = [] ∨ w.budget.isExhausted = true)) ∨
    ∃ shard rest, w.ahead = shard :: rest ∧ w.budget.isExhausted = false ∧
      w.advance = { w with
        stage := .acquiring shard
        phase := .iterating shard.id
        ahead := rest
        summary := { w.summary with visited := w.summary.visited + 1 } } := by
  unfold advance
  cases hahead : w.ahead with
  | nil => exact .inl ⟨rfl, .inl rfl⟩
  | cons shard rest =>
    cases hspent : w.budget.isExhausted with
    | true => exact .inl ⟨rfl, .inr rfl⟩
    | false => exact .inr ⟨shard, rest, rfl, rfl, rfl⟩

/-- Within a shard a walk ends, or it fetches. -/
theorem readOn_cases (settings : Settings) (w : Walk) (shard : Shard) (cursor : Cursor) :
    (w.readOn settings shard cursor = w.finish ∧ w.budget.isExhausted = true) ∨
    (w.readOn settings shard cursor =
        { w with
          stage := .fetching shard cursor (w.budget.fetchLimit settings.batchSize)
          phase := .iterating shard.id } ∧
      w.budget.isExhausted = false) := by
  unfold readOn
  cases hspent : w.budget.isExhausted with
  | true => exact .inl ⟨rfl, rfl⟩
  | false => exact .inr ⟨rfl, rfl⟩

@[simp] theorem advance_view (w : Walk) : w.advance.view = w.view := by
  rcases advance_cases w with ⟨heq, -⟩ | ⟨shard, rest, -, -, heq⟩
  · rw [heq]
    rfl
  · rw [heq]

@[simp] theorem readOn_view (w : Walk) (shard : Shard) (cursor : Cursor) :
    (w.readOn settings shard cursor).view = w.view := by
  rcases readOn_cases settings w shard cursor with ⟨heq, -⟩ | ⟨heq, -⟩
  · rw [heq]
    rfl
  · rw [heq]

theorem advance_stage_ne_delivering (w : Walk) (shard : Shard) (cursor : Cursor)
    (batch : List Record) (next : Option Cursor) :
    w.advance.stage ≠ .delivering shard cursor batch next := by
  rcases advance_cases w with ⟨heq, -⟩ | ⟨shard, rest, -, -, heq⟩ <;> rw [heq] <;> simp

theorem readOn_stage_ne_delivering (w : Walk) (shard : Shard) (cursor : Cursor)
    (shard' : Shard) (cursor' : Cursor) (batch : List Record) (next : Option Cursor) :
    (w.readOn settings shard cursor).stage ≠ .delivering shard' cursor' batch next := by
  rcases readOn_cases settings w shard cursor with ⟨heq, -⟩ | ⟨heq, -⟩ <;> rw [heq] <;> simp

/-- Only a pending call moves a walk. -/
theorem Step.call {e : Event} {w' : Walk} (h : Step settings w e w') :
    w.stage.call? = some e.call := by
  cases h with
  | gone hcall | stopped hcall | retried hcall => exact hcall
  | unlisted hstage | listed hstage | opened hstage | skipped hstage | ended hstage | idle hstage
  | offered hstage | starved hstage | closed hstage | moved hstage | resumed hstage =>
    rw [hstage]
    rfl

/-- A log is described once: no step leads back. -/
theorem Step.stage_ne_describing {e : Event} {w' : Walk} (h : Step settings w e w') :
    w'.stage ≠ .describing := by
  have hadvance (w : Walk) : w.advance.stage ≠ .describing := by
    rcases advance_cases w with ⟨heq, -⟩ | ⟨shard, rest, -, -, heq⟩ <;> rw [heq] <;> simp
  have hread (w : Walk) (shard : Shard) (cursor : Cursor) :
      (w.readOn settings shard cursor).stage ≠ .describing := by
    rcases readOn_cases settings w shard cursor with ⟨heq, -⟩ | ⟨heq, -⟩ <;> rw [heq] <;> simp
  cases h with
  | unlisted | stopped | retried | idle | offered | starved => simp
  | listed | gone | skipped | ended | closed => exact hadvance _
  | opened | moved | resumed => exact hread _ _ _

/-- The view of the records is settled by the description. -/
theorem Step.view_eq {e : Event} {w' : Walk} (h : Step settings w e w')
    (hstage : w.stage ≠ .describing) : w'.view = w.view := by
  cases h with
  | unlisted h | listed h => exact absurd h hstage
  | stopped | retried | idle | offered | starved => rfl
  | gone | skipped | ended | closed => simp [exhaust, noteFailure, credit]
  | opened | moved | resumed => simp [credit]

/-- A walk that is not at its start and has not failed goes by the description it started with. -/
theorem Path.view {es : List Event} (h : Path settings es w) :
    w.stage = .describing ∧ es = [] ∨ (∃ err, w.stage = .failed err) ∨
    w.stage ≠ .describing ∧ ∃ d, es.head? = some ⟨.describe, .ok d⟩ ∧ w.view = d.view := by
  induction h with
  | start => exact .inl ⟨rfl, rfl⟩
  | snoc hpath hstep ih =>
    right
    rcases ih with ⟨hstage, rfl⟩ | ⟨err, hstage⟩ | ⟨hstage, d, hhead, hview⟩
    · have hcall := hstep.call
      rw [hstage] at hcall
      have hne := hstep.stage_ne_describing
      cases hstep with
      | unlisted => exact .inl ⟨_, rfl⟩
      | listed => exact .inr ⟨hne, _, rfl, by simp⟩
      | gone _ hgone =>
        rcases Event.call_of_saysGone hgone with ⟨_, h⟩ | ⟨_, _, h⟩ <;>
          simp [h, Stage.call?] at hcall
      | stopped _ hfail =>
        rcases Event.call_of_failure hfail with ⟨_, h⟩ | ⟨_, _, h⟩ | ⟨_, h⟩ <;>
          simp [h, Stage.call?] at hcall
      | retried _ hreading => simp [hstage, Stage.reading?] at hreading
      | opened h | skipped h | ended h | idle h | offered h | starved h | closed h | moved h
      | resumed h => rw [hstage] at h; cases h
    · have hcall := hstep.call
      rw [hstage] at hcall
      cases hcall
    · right
      refine ⟨hstep.stage_ne_describing, d, ?_, (hstep.view_eq hstage).trans hview⟩
      rw [List.head?_append, hhead]
      rfl

end Walk

namespace Run

variable {World : Type} {env : Environment World} {settings : Settings}

/-- A run whose walk has not called yet. -/
def start (settings : Settings) (world : World) : Run World :=
  { walk := .start settings, world }

/-- What a step of a run can be: none at all, a call without an answer, or an answered call. -/
inductive Moves (env : Environment World) (settings : Settings) (r : Run World) : Run World → Prop
  | rest : Moves env settings r r
  | lose {call world} (h : env call r.world = (none, world)) :
      Moves env settings r { r with world, dropped := true }
  | answer {e w world} (h : env e.call r.world = (some e.answer, world))
      (hw : r.walk.Step settings e w) :
      Moves env settings r { walk := w, world, events := r.events ++ [e] }

theorem moves_exchange (r : Run World) {call : Call} {goOn : call.Answer → Walk}
    (h : ∀ answer, r.walk.Step settings ⟨call, answer⟩ (goOn answer)) :
    Moves env settings r (r.exchange env call goOn) := by
  unfold exchange
  cases hcall : env call r.world with
  | mk answer world =>
    cases answer with
    | none => exact .lose hcall
    | some answer => exact .answer (e := ⟨call, answer⟩) hcall (h answer)

theorem moves_step (env : Environment World) (settings : Settings) (r : Run World) :
    Moves env settings r (r.step env settings) := by
  unfold step
  split
  · exact .rest
  · cases hstage : r.walk.stage with
    | describing => exact moves_exchange r (Walk.step_described hstage)
    | acquiring shard => exact moves_exchange r (Walk.step_acquired hstage)
    | fetching shard cursor limit => exact moves_exchange r (Walk.step_fetched hstage)
    | delivering shard cursor batch next => exact moves_exchange r (Walk.step_delivered hstage)
    | pausing shard cursor duration => exact moves_exchange r fun _ => .resumed hstage
    | finished => exact .rest
    | failed e => exact .rest

theorem steps_succ (n : Nat) (r : Run World) :
    steps env settings (n + 1) r = (steps env settings n r).step env settings := by
  induction n generalizing r with
  | zero => rfl
  | succ n ih =>
    rw [steps, ih]
    rfl

/-- What holds at the start and is kept by every move holds after any number of steps. -/
theorem steps_induction {P : Run World → Prop} {r : Run World} (hstart : P r)
    (hmove : ∀ r r', P r → Moves env settings r r' → P r') (n : Nat) :
    P (steps env settings n r) := by
  induction n with
  | zero => exact hstart
  | succ n ih =>
    rw [steps_succ]
    exact hmove _ _ ih (moves_step env settings _)

/-- Every run follows a path. -/
theorem path (env : Environment World) (settings : Settings) (world : World) (n : Nat) :
    Walk.Path settings (steps env settings n (start settings world)).events
      (steps env settings n (start settings world)).walk := by
  apply steps_induction (P := fun r => Walk.Path settings r.events r.walk) Walk.Path.start
  intro r r' hpath hmove
  cases hmove with
  | rest => exact hpath
  | lose h => exact hpath
  | answer h hw => exact hpath.snoc hw

end Run

end ItemTable.ChangeLog
