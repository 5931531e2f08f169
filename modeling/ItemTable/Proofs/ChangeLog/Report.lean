import ItemTable.Proofs.ChangeLog.Tally

/-!
# What a run reports

A run reports a result, its counters, and at any time a phase. The settings decide what becomes of a
failure: it ends the run, or it is counted and the run goes on. A shard that is gone is no failure.
The phase is set now and then on the way and is never read; at every stage it is still the one that
fits (`Stage.Shows`, `Path.shows`). `Run.steps_reports` says what every run reports, whatever the
engine and the handler answer.
-/
namespace ItemTable.ChangeLog

/-- The phase that an observer is to see at a stage. -/
inductive Stage.Shows : Stage → Phase → Prop
  | describing : Shows .describing .describing
  | acquiring {shard} : Shows (.acquiring shard) (.iterating shard.id)
  | fetching {shard cursor limit} : Shows (.fetching shard cursor limit) (.iterating shard.id)
  | delivering {shard cursor batch next} :
      Shows (.delivering shard cursor batch next) (.iterating shard.id)
  | pausing {shard cursor duration} : Shows (.pausing shard cursor duration) (.waiting shard.id)
  | finished : Shows .finished .done
  | failed {err} : Shows (.failed err) .failed

namespace Stage.Shows

variable {stage : Stage} {phase : Phase}

theorem done_iff (h : stage.Shows phase) : phase = .done ↔ stage = .finished := by
  cases h <;> simp

theorem failed_iff (h : stage.Shows phase) : phase = .failed ↔ ∃ err, stage = .failed err := by
  cases h <;> simp

theorem describing_of (h : stage.Shows phase) (hstage : stage = .describing) :
    phase = .describing := by
  cases h <;> cases hstage
  rfl

end Stage.Shows

namespace Walk

variable {settings : Settings} {es : List Event} {w w' : Walk} {e : Event}

theorem advance_stage_ne_failed (w : Walk) (err : Error) : w.advance.stage ≠ .failed err := by
  rcases advance_cases w with ⟨heq, -⟩ | ⟨shard, rest, -, -, heq⟩ <;> rw [heq] <;> simp

theorem readOn_stage_ne_failed (w : Walk) (shard : Shard) (cursor : Cursor) (err : Error) :
    (w.readOn settings shard cursor).stage ≠ .failed err := by
  rcases readOn_cases settings w shard cursor with ⟨heq, -⟩ | ⟨heq, -⟩ <;> rw [heq] <;> simp

/-- A step that fails a walk brings the error of its description, or a failure that is to stop
it. -/
theorem Step.of_failed (h : Step settings w e w') {err : Error} (hstage : w'.stage = .failed err) :
    (∃ f, w.stage = .describing ∧ e = ⟨.describe, .error f⟩ ∧ err = .engine f) ∨
      settings.stopOnError = true ∧ e.failure? = some err := by
  cases h with
  | unlisted hdescribing =>
    cases hstage
    exact .inl ⟨_, hdescribing, rfl, rfl⟩
  | stopped _ hfail hstop =>
    cases hstage
    exact .inr ⟨hstop, hfail⟩
  | retried | idle | offered | starved => cases hstage
  | listed | gone | skipped | ended | closed => exact absurd hstage (advance_stage_ne_failed _ _)
  | opened | moved | resumed => exact absurd hstage (readOn_stage_ne_failed _ _ _ _)

/-- With stopping set, a failure fails the walk. -/
theorem Step.failed_of_failure (h : Step settings w e w') (hstop : settings.stopOnError = true)
    {err : Error} (hfail : e.failure? = some err) : w'.stage = .failed err := by
  cases h with
  | stopped _ hfail' =>
    rw [hfail] at hfail'
    cases hfail'
    rfl
  | skipped _ _ hgoesOn | retried _ _ _ hgoesOn =>
    rw [hstop] at hgoesOn
    cases hgoesOn
  | gone _ hgone =>
    rw [Event.saysGone_of_failure hfail] at hgone
    cases hgone
  | unlisted | listed | opened | ended | idle | offered | starved | closed | moved | resumed =>
    cases hfail

theorem Path.events_of_describing (h : Path settings es w) (hstage : w.stage = .describing) :
    es = [] := by
  rcases h.view with ⟨-, hes⟩ | ⟨err, hfailed⟩ | ⟨hne, -⟩
  · exact hes
  · rw [hstage] at hfailed
    cases hfailed
  · exact absurd hstage hne

theorem Path.of_failed (h : Path settings es w) {err : Error} (hstage : w.stage = .failed err) :
    (∃ f, es = [⟨.describe, .error f⟩] ∧ err = .engine f) ∨
      settings.stopOnError = true ∧ ∃ past e, es = past ++ [e] ∧ e.failure? = some err := by
  cases h with
  | start => cases hstage
  | @snoc past e w _ hpath hstep =>
    rcases hstep.of_failed hstage with ⟨f, hdescribing, rfl, herr⟩ | ⟨hstop, hfail⟩
    · rw [hpath.events_of_describing hdescribing]
      exact .inl ⟨f, rfl, herr⟩
    · exact .inr ⟨hstop, past, e, rfl, hfail⟩

/-- With stopping set, nothing comes after a failure. -/
theorem Path.failed_of_failure (h : Path settings es w) (hstop : settings.stopOnError = true)
    {past future : List Event} {err : Error} (hes : es = past ++ e :: future)
    (hfail : e.failure? = some err) : future = [] ∧ w.stage = .failed err := by
  induction h generalizing future with
  | start => cases past <;> cases hes
  | @snoc es last w w' hpath hstep ih =>
    rcases List.eq_nil_or_concat future with rfl | ⟨init, other, rfl⟩
    · obtain ⟨rfl, hlast⟩ := List.append_inj' hes rfl
      cases hlast
      exact ⟨rfl, hstep.failed_of_failure hstop hfail⟩
    · rw [List.concat_eq_append, ← List.cons_append, ← List.append_assoc] at hes
      obtain ⟨-, hfailed⟩ := ih (List.append_inj' hes rfl).1
      exact absurd hfailed (hstep.stage_ne_failed err)

/-- A log that cannot be described fails the walk at once. -/
theorem Path.undescribed (h : Path settings es w) {f : Fault}
    (hhead : es.head? = some ⟨.describe, .error f⟩) :
    es = [⟨.describe, .error f⟩] ∧ w.stage = .failed (.engine f) := by
  induction h with
  | start => cases hhead
  | @snoc es e w w' hpath hstep ih =>
    cases es with
    | nil =>
      obtain rfl : e = ⟨.describe, .error f⟩ := Option.some.inj hhead
      cases hstep with
      | unlisted => exact ⟨rfl, rfl⟩
      | gone _ hgone => cases hgone
      | stopped _ hfail | retried _ _ hfail => cases hfail
    | cons first rest =>
      obtain rfl : first = ⟨.describe, .error f⟩ := Option.some.inj hhead
      obtain ⟨-, hfailed⟩ := ih rfl
      exact absurd hfailed (hstep.stage_ne_failed _)

/-- After a shard that is gone the next one is opened, and the walk is over only if there is
none. -/
theorem Path.after_gone (h : Path settings (es ++ [e]) w) (hgone : e.saysGone = true)
    {d : Description} (hhead : (es ++ [e]).head? = some ⟨.describe, .ok d⟩) :
    (∃ shard, w.stage = .acquiring shard) ∨
      w.stage = .finished ∧ opened (es ++ [e]) = lineageOrder d.shards := by
  generalize hall : es ++ [e] = all at h
  cases h with
  | start => simp at hall
  | @snoc past last v _ hpath hstep =>
    obtain ⟨rfl, hlast⟩ := List.append_inj' hall rfl
    cases hlast
    have hshards := (hpath.snoc hstep).shards hhead
    cases hstep with
    | gone hcall =>
      obtain ⟨shard, hasking⟩ := Stage.asking_of_saysGone hcall hgone
      rcases advance_cases v with ⟨heq, hover⟩ | ⟨next, rest, -, -, heq⟩
      · right
        have hleft : v.budget.isExhausted = false := by
          rcases hasking with hstage | ⟨cursor, limit, hstage⟩
          · exact hpath.metered.entering shard hstage
          · exact (hpath.metered.asking shard cursor limit hstage).1
        have hahead : v.ahead = [] := hover.resolve_right (by simp [hleft])
        rw [unopened_advance, hahead, List.append_nil] at hshards
        exact ⟨by rw [heq, finish_stage], hshards⟩
      · exact .inl ⟨next, by rw [heq]⟩
    | stopped _ hfail | retried _ _ hfail =>
      rw [Event.saysGone_of_failure hfail] at hgone
      cases hgone
    | skipped _ hkind => simp [Event.saysGone, hkind] at hgone
    | unlisted | listed | opened | ended | idle | offered | starved | closed | moved | resumed =>
      cases hgone

theorem result?_eq_error_iff (err : Error) :
    w.result? = some (.error err) ↔ w.stage = .failed err := by
  unfold result?
  cases w.stage <;> simp

theorem result?_eq_ok_iff (summary : Summary) :
    w.result? = some (.ok summary) ↔ w.stage = .finished ∧ w.summary = summary := by
  unfold result?
  cases w.stage <;> simp

theorem advance_shows (w : Walk) : w.advance.stage.Shows w.advance.phase := by
  rcases advance_cases w with ⟨heq, -⟩ | ⟨shard, rest, -, -, heq⟩ <;> rw [heq]
  · exact .finished
  · exact .acquiring

theorem readOn_shows (w : Walk) (shard : Shard) (cursor : Cursor) :
    (w.readOn settings shard cursor).stage.Shows (w.readOn settings shard cursor).phase := by
  rcases readOn_cases settings w shard cursor with ⟨heq, -⟩ | ⟨heq, -⟩ <;> rw [heq]
  · exact .finished
  · exact .fetching

theorem Step.shows (h : Step settings w e w') (hshows : w.stage.Shows w.phase) :
    w'.stage.Shows w'.phase := by
  cases h with
  | unlisted | stopped => exact .failed
  | starved => exact .finished
  | retried | idle => exact .pausing
  | listed | gone | skipped | ended | closed => exact advance_shows _
  | opened | moved | resumed => exact readOn_shows _ _ _
  | offered hstage =>
    -- nothing is set on the way from a fetch to the handler
    simp only
    rw [hstage] at hshows
    generalize w.phase = phase at hshows
    cases hshows
    exact .delivering

/-- On every path the phase is the one that fits the stage. -/
theorem Path.shows (h : Path settings es w) : w.stage.Shows w.phase := by
  induction h with
  | start => exact .describing
  | snoc _ hstep ih => exact hstep.shows ih

/-- While the engine or the handler is asked about a shard, an observer sees that it is read. -/
theorem Path.iterating (h : Path settings es w) {call : Call} (hcall : w.stage.call? = some call)
    (hdescribe : call ≠ .describe) (hpause : ∀ duration, call ≠ .pause duration) :
    ∃ shard, call.shard? es = some shard ∧ w.phase = .iterating shard.id := by
  have hshows := h.shows
  have hlast := fun shard hentered => (h.counted.visiting shard hentered).last
  generalize w.phase = phase at hshows
  cases hstage : w.stage with
  | acquiring shard =>
    rw [hstage] at hcall hshows
    cases hcall
    cases hshows
    exact ⟨shard, rfl, rfl⟩
  | fetching shard | delivering shard =>
    rw [hstage] at hcall hshows hlast
    cases hcall
    cases hshows
    exact ⟨shard, hlast shard rfl, rfl⟩
  | describing =>
    rw [hstage] at hcall
    cases hcall
    exact absurd rfl hdescribe
  | pausing =>
    rw [hstage] at hcall
    cases hcall
    exact absurd rfl (hpause _)
  | finished | failed =>
    rw [hstage] at hcall
    cases hcall

/-- During a pause an observer sees that the shard waits. -/
theorem Path.waiting (h : Path settings es w) {duration : Nat}
    (hcall : w.stage.call? = some (.pause duration)) :
    ∃ shard, (Call.pause duration).shard? es = some shard ∧ w.phase = .waiting shard.id := by
  obtain ⟨shard, cursor, hstage⟩ := Stage.pausing_of_call hcall
  have hshows := h.shows
  have hlast := (h.counted.visiting shard (by rw [hstage]; rfl)).last
  rw [hstage] at hshows
  generalize w.phase = phase at hshows
  cases hshows
  exact ⟨shard, hlast, rfl⟩

end Walk

/-- What a run reports at any point. -/
structure Run.Reports {World : Type} (settings : Settings) (r : Run World) : Prop where
  /-- A log that cannot be described ends the run with the engine's error, before any other call. -/
  undescribed : ∀ f, r.events.head? = some ⟨.describe, .error f⟩ →
    r.events = [⟨.describe, .error f⟩] ∧ r.walk.result? = some (.error (.engine f))
  /-- With stopping set, the first failure is the last answer, and it is the result. -/
  stops : settings.stopOnError = true → ∀ past e future err, r.events = past ++ e :: future →
    e.failure? = some err → future = [] ∧ r.walk.result? = some (.error err)
  /-- Without it, a run of a described log does not end with an error. -/
  goesOn : settings.stopOnError = false → ∀ d result, r.events.head? = some ⟨.describe, .ok d⟩ →
    r.walk.result? = some result → result = .ok r.walk.summary
  /-- A run fails for no other reason. -/
  fails : ∀ err, r.walk.result? = some (.error err) →
    (∃ f, r.events = [⟨.describe, .error f⟩] ∧ err = .engine f) ∨
      settings.stopOnError = true ∧ ∃ past e, r.events = past ++ [e] ∧ e.failure? = some err
  /-- A shard that is gone is no failure. The next one is opened, and without one all is done. -/
  gone : ∀ past e d, r.events = past ++ [e] → e.saysGone = true →
    r.events.head? = some ⟨.describe, .ok d⟩ →
      e.failure? = none ∧ ((∃ shard, r.walk.stage.call? = some (.acquire shard)) ∨
        r.walk.result? = some (.ok r.walk.summary) ∧ opened r.events = lineageOrder d.shards)
  /-- The counters of a run that succeeds. -/
  counts : ∀ summary, r.walk.result? = some (.ok summary) → summary = {
    processed := (acceptedBatches r.events).flatten.length
    batches := (acceptedBatches r.events).length
    visited := (opened r.events).length
    exhausted := (visits r.events).countP readsToEnd
    recovered := (failures r.events).length }
  done : r.walk.phase = .done ↔ ∃ summary, r.walk.result? = some (.ok summary)
  failed : r.walk.phase = .failed ↔ ∃ err, r.walk.result? = some (.error err)
  describing : r.walk.stage.call? = some .describe → r.walk.phase = .describing
  /-- While the engine or the handler is asked, an observer sees that the shard is read. -/
  iterating : ∀ call, r.walk.stage.call? = some call → call ≠ .describe →
    (∀ duration, call ≠ .pause duration) →
      ∃ shard, call.shard? r.events = some shard ∧ r.walk.phase = .iterating shard.id
  /-- During a pause an observer sees that it waits. -/
  waiting : ∀ duration, r.walk.stage.call? = some (.pause duration) →
    ∃ shard, (Call.pause duration).shard? r.events = some shard ∧
      r.walk.phase = .waiting shard.id

namespace Run

variable {World : Type} {env : Environment World} {settings : Settings}

/-- A run that has a result makes no further call. -/
theorem steps_of_result {r : Run World} {result : Except Error Summary}
    (h : r.walk.result? = some result) (m : Nat) : steps env settings m r = r := by
  have hstep : r.step env settings = r := by
    unfold step
    split
    · rfl
    · cases hstage : r.walk.stage with
      | finished | failed => rfl
      | describing | acquiring | fetching | delivering | pausing =>
        rw [Walk.result?, hstage] at h
        cases h
  induction m with
  | zero => rfl
  | succ m ih => rw [steps, hstep, ih]

/-- **What every run reports is what has happened in it**, whatever the engine and the handler
answer, and when it has reported a result it is over. -/
theorem steps_reports (env : Environment World) (settings : Settings) (world : World) (n : Nat) :
    Reports settings (steps env settings n (start settings world)) ∧
    ∀ result m, (steps env settings n (start settings world)).walk.result? = some result →
      steps env settings m (steps env settings n (start settings world)) =
        steps env settings n (start settings world) := by
  refine ⟨?_, fun result m hresult => steps_of_result hresult m⟩
  have hpath := path env settings world n
  generalize steps env settings n (start settings world) = r at hpath
  have hcounted := hpath.counted
  constructor
  case undescribed =>
    intro f hhead
    rw [Walk.result?_eq_error_iff]
    exact hpath.undescribed hhead
  case stops =>
    intro hstop past e future err hes hfail
    rw [Walk.result?_eq_error_iff]
    exact hpath.failed_of_failure hstop hes hfail
  case goesOn =>
    intro hgoesOn d result hhead hresult
    cases result with
    | ok summary => rw [((Walk.result?_eq_ok_iff summary).1 hresult).2]
    | error err =>
      rcases hpath.of_failed ((Walk.result?_eq_error_iff err).1 hresult) with
          ⟨f, hes, -⟩ | ⟨hstop, -⟩
      · rw [hes] at hhead
        cases hhead
      · rw [hgoesOn] at hstop
        cases hstop
  case fails =>
    intro err hresult
    exact hpath.of_failed ((Walk.result?_eq_error_iff err).1 hresult)
  case gone =>
    intro past e d hes hgone hhead
    rw [hes] at hpath hhead ⊢
    refine ⟨Event.failure?_of_saysGone hgone, ?_⟩
    rcases hpath.after_gone hgone hhead with ⟨shard, hstage⟩ | ⟨hstage, hopened⟩
    · exact .inl ⟨shard, by rw [hstage]; rfl⟩
    · exact .inr ⟨(Walk.result?_eq_ok_iff _).2 ⟨hstage, rfl⟩, hopened⟩
  case counts =>
    intro summary hresult
    obtain ⟨hstage, rfl⟩ := (Walk.result?_eq_ok_iff summary).1 hresult
    have hprocessed : r.walk.summary.processed = (acceptedBatches r.events).flatten.length := by
      rw [hpath.metered.processed, accepted_eq_flatten]
    have hvisited := hcounted.visited
    rw [hstage] at hvisited
    have hrecovered := hcounted.recovered (by simp [hstage])
    rw [← hprocessed, ← hcounted.batches, ← hrecovered, ← readVisits, ← hcounted.exhausted]
    have hopened : r.walk.summary.visited = (opened r.events).length := by
      have hpending : Stage.finished.pending = [] := rfl
      rw [hvisited, hpending, List.append_nil]
    rw [← hopened]
  case done =>
    simp only [Walk.result?_eq_ok_iff, exists_and_left, exists_eq', and_true]
    exact hpath.shows.done_iff
  case failed =>
    simp only [Walk.result?_eq_error_iff]
    exact hpath.shows.failed_iff
  case describing =>
    intro hcall
    exact hpath.shows.describing_of (Stage.describing_of_call hcall)
  case iterating =>
    intro call hcall hdescribe hpause
    exact hpath.iterating hcall hdescribe hpause
  case waiting =>
    intro duration hcall
    exact hpath.waiting hcall

end Run

/-- A run of the restless log goes on after two failures and succeeds: an observer has seen it read
a shard, wait there and be done. One that is to stop at a failure ends at the first of them. -/
theorem restlessLog_reports :
    (Run.steps restlessLog lenient 15 (.start lenient 0)).walk.result? =
      some (.ok { processed := 1, batches := 1, visited := 3, exhausted := 1, recovered := 2 }) ∧
    failures (Run.steps restlessLog lenient 15 (.start lenient 0)).events =
      [.engine { kind := .throttling, message := "Rate exceeded" }, .handler ⟨["busy"]⟩] ∧
    2 = (failures (Run.steps restlessLog lenient 15 (.start lenient 0)).events).length ∧
    1 = (visits (Run.steps restlessLog lenient 15 (.start lenient 0)).events).countP readsToEnd ∧
    (Run.steps restlessLog lenient 0 (.start lenient 0)).walk.phase = .describing ∧
    (Run.steps restlessLog lenient 7 (.start lenient 0)).walk.phase = .iterating "a" ∧
    (Run.steps restlessLog lenient 8 (.start lenient 0)).walk.phase = .waiting "a" ∧
    (Run.steps restlessLog lenient 15 (.start lenient 0)).walk.phase = .done ∧
    (Run.steps restlessLog {} 3 (.start {} 0)).walk.result? =
      some (.error (.engine { kind := .throttling, message := "Rate exceeded" })) ∧
    (Run.steps restlessLog {} 3 (.start {} 0)).walk.phase = .failed ∧
    Run.steps restlessLog {} 5 (Run.steps restlessLog {} 3 (.start {} 0)) =
      Run.steps restlessLog {} 3 (.start {} 0) := by
  obtain ⟨hgoesOn, -⟩ := Run.steps_reports restlessLog lenient 0 15
  obtain ⟨hstops, hover⟩ := Run.steps_reports restlessLog {} 0 3
  have hcounts := hgoesOn.counts _ rfl
  obtain ⟨-, hresult⟩ := hstops.stops rfl
    [⟨.describe, _⟩, ⟨.acquire ⟨"a", none⟩, .ok (some ⟨"a/0"⟩)⟩]
    ⟨.fetch ⟨"a/0"⟩ 100, .error { kind := .throttling, message := "Rate exceeded" }⟩ [] _ rfl rfl
  have hdescribing := (Run.steps_reports restlessLog lenient 0 0).1.describing rfl
  obtain ⟨shard, hshard, hiterating⟩ := (Run.steps_reports restlessLog lenient 0 7).1.iterating
    (.deliver [.ofRaw {}]) rfl (by simp) (by simp)
  obtain rfl : ⟨"a", none⟩ = shard := Option.some.inj hshard
  obtain ⟨shard, hshard, hwaiting⟩ := (Run.steps_reports restlessLog lenient 0 8).1.waiting 1000 rfl
  obtain rfl : ⟨"a", none⟩ = shard := Option.some.inj hshard
  exact ⟨rfl, rfl, congrArg Summary.recovered hcounts, congrArg Summary.exhausted hcounts,
    hdescribing, hiterating, hwaiting, hgoesOn.done.2 ⟨_, rfl⟩, hresult,
    hstops.failed.2 ⟨_, hresult⟩, hover _ 5 rfl⟩

end ItemTable.ChangeLog
