import ItemTable.Proofs.ChangeLog.Allowance

/-!
# How a walk leaves a shard

A shard may be left when it is read to its end, when the budget is spent, or when the engine says
that it is gone. `Run.leavesEarly_iff` says that there is exactly one other way out of a shard, if
failures do not end the run: a shard whose first cursor cannot be had is left at once, whatever the
failure, while a failed fetch and a refused batch are tried again. `throttledLog_leaves` is such a
run.
-/
namespace ItemTable.ChangeLog

namespace Event

/-- An answer of the engine about a shard. -/
def isReply : Event → Bool
  | ⟨.acquire _, _⟩ | ⟨.fetch _ _, _⟩ => true
  | _ => false

/-- No cursor could be had, and not because the shard is gone. -/
def failsToOpen : Event → Bool
  | ⟨.acquire _, .error f⟩ => f.kind ≠ .resourceNotFound
  | _ => false

/-- The engine says that nothing comes after this page. -/
def reportsEnd : Event → Bool
  | ⟨.fetch _ _, .ok page⟩ => page.next.isNone
  | _ => false

theorem isReply_of_saysGone {e : Event} (h : e.saysGone = true) : e.isReply = true := by
  obtain ⟨call, answer⟩ := e
  cases call with
  | acquire shard | fetch cursor limit => rfl
  | describe | deliver batch | pause => cases h

theorem reportsEnd_of_saysGone {e : Event} (h : e.saysGone = true) : e.reportsEnd = false := by
  obtain ⟨call, answer⟩ := e
  cases call with
  | fetch cursor limit =>
    cases answer with
    | error f => rfl
    | ok page => cases h
  | describe | acquire shard | deliver batch | pause => rfl

theorem failsToOpen_of_call {e : Event} (h : ∀ shard, e.call ≠ .acquire shard) :
    e.failsToOpen = false := by
  obtain ⟨call, answer⟩ := e
  cases call with
  | acquire shard => exact absurd rfl (h shard)
  | describe | fetch cursor limit | deliver batch | pause => rfl

theorem saysGone_of_failure {e : Event} {err : Error} (h : e.failure? = some err) :
    e.saysGone = false := by
  obtain ⟨call, answer⟩ := e
  cases call with
  | acquire shard | fetch cursor limit =>
    cases answer with
    | ok a => cases h
    | error f =>
      by_cases hkind : f.kind = .resourceNotFound
      · simp [failure?, hkind] at h
      · simpa [saysGone] using hkind
  | describe | deliver batch | pause => rfl

end Event

/-- The last answer of the engine about a shard. -/
def lastReply? (es : List Event) : Option Event := (es.filter Event.isReply).getLast?

theorem lastReply?_snoc (es : List Event) (e : Event) :
    lastReply? (es ++ [e]) = if e.isReply = true then some e else lastReply? es := by
  unfold lastReply?
  rw [List.filter_append]
  split
  · next h => simp [h]
  · next h => simp [h]

/-- The walk has no shard, or it has not opened the one that it has. -/
def Stage.isBetween : Stage → Bool
  | acquiring _ | finished | failed _ => true
  | describing | fetching _ _ _ | delivering _ _ _ _ | pausing _ _ _ => false

/-- A step away from a shard after the given events, although the engine has not reported its end
and records may still be taken. -/
structure Walk.LeavesEarly (settings : Settings) (es : List Event) (w w' : Walk) : Prop where
  visiting : w.stage.shard? ≠ none
  leaves : w'.stage.isBetween = true
  unread : ∀ e, lastReply? es = some e → e.reportsEnd = false
  unspent : settings.maxRecords ≠ some (accepted es).length

namespace Walk

variable {settings : Settings} {es : List Event} {w w' : Walk} {e : Event}

theorem isBetween_advance (w : Walk) : w.advance.stage.isBetween = true := by
  rcases advance_cases w with ⟨heq, -⟩ | ⟨shard, rest, -, -, heq⟩ <;> rw [heq] <;> rfl

/-- Reading on is no way out of a shard unless the budget is spent. -/
theorem Settled.not_leavesEarly_readOn {v : Walk} (h : Settled settings es v) (shard : Shard)
    (cursor : Cursor) : ¬LeavesEarly settings es w (v.readOn settings shard cursor) := by
  intro hleaves
  rcases readOn_cases settings v shard cursor with ⟨-, hspent⟩ | ⟨heq, -⟩
  · exact hleaves.unspent (h.holds.isExhausted_iff.1 hspent)
  · have hbetween := hleaves.leaves
    rw [heq] at hbetween
    cases hbetween

theorem not_leavesEarly_of_reportsEnd {reply : Event} (hlast : lastReply? es = some reply)
    (hend : reply.reportsEnd = true) : ¬LeavesEarly settings es w w' := by
  intro hleaves
  rw [hleaves.unread reply hlast] at hend
  cases hend

/-- While an engine call about a shard is pending, records may still be taken. -/
theorem Metered.unspent (h : Metered settings es w) {shard : Shard}
    (hcall : w.stage = .acquiring shard ∨ ∃ cursor limit, w.stage = .fetching shard cursor limit) :
    settings.maxRecords ≠ some (accepted es).length := by
  have hholds := h.holds
  have hleft : w.budget.isExhausted = false := by
    rcases hcall with hstage | ⟨cursor, limit, hstage⟩
    · exact h.entering shard hstage
    · exact (h.asking shard cursor limit hstage).1
  have hheld : w.stage.held = 0 := by
    rcases hcall with hstage | ⟨cursor, limit, hstage⟩ <;> rw [hstage] <;> rfl
  rw [hheld] at hholds
  intro hmost
  rw [hholds.isExhausted_iff.2 hmost] at hleft
  cases hleft

/-- An answer that takes the walk on to the next shard takes it away early. -/
theorem Metered.leavesEarly_advance (h : Metered settings es w) {shard : Shard}
    (hcall : w.stage = .acquiring shard ∨ ∃ cursor limit, w.stage = .fetching shard cursor limit)
    (hreply : e.isReply = true) (hend : e.reportsEnd = false) (haccepted : e.accepted = [])
    (v : Walk) : LeavesEarly settings (es ++ [e]) w v.advance where
  visiting := by
    rcases hcall with hstage | ⟨cursor, limit, hstage⟩ <;> rw [hstage] <;> simp [Stage.shard?]
  leaves := isBetween_advance v
  unread := by
    intro reply hlast
    rw [lastReply?_snoc, if_pos hreply, Option.some.injEq] at hlast
    rw [← hlast, hend]
  unspent := by
    rw [accepted_snoc, haccepted, List.append_nil]
    exact h.unspent hcall

theorem not_leavesEarly_of_stays (h : w'.stage.isBetween = false) : ¬LeavesEarly settings es w w' :=
  fun hleaves => by rw [hleaves.leaves] at h; cases h

/-- A fetch asks for one record at least, so that no page is left without a grant. -/
theorem Metered.not_starved (h : Metered settings es w) (hsize : 1 ≤ settings.batchSize)
    {shard : Shard} {cursor : Cursor} {limit : Nat} {page : RecordPage} {budget : Budget}
    (hstage : w.stage = .fetching shard cursor limit) (hrecords : page.records ≠ []) :
    w.budget.reserve (min page.records.length limit) ≠ (0, budget) := by
  intro hreserve
  obtain ⟨hzero, -⟩ := h.reserve hstage hreserve
  obtain ⟨hleft, hlimit⟩ := h.asking shard cursor limit hstage
  have hholds := h.holds
  rw [hstage] at hholds
  have hpos := (hholds.allowance_bounds hleft hsize).1
  have hlength := List.length_pos_iff.2 hrecords
  omega

/-- A step takes a walk away from its shard early exactly if the engine says that the shard is gone,
or if it gives no cursor. -/
theorem Path.step_leavesEarly_iff (hpath : Path settings es w) (hcheck : settings.check = .ok ())
    (hstop : settings.stopOnError = false) (hstep : Step settings w e w') :
    LeavesEarly settings (es ++ [e]) w w' ↔ e.saysGone = true ∨ e.failsToOpen = true := by
  have hmetered := hpath.metered
  cases hstep with
  | unlisted hstage | listed hstage =>
    exact iff_of_false (fun h => h.visiting (by rw [hstage]; rfl))
      (by simp [Event.saysGone, Event.failsToOpen])
  | opened hstage =>
    refine iff_of_false (Settled.not_leavesEarly_readOn ?_ _ _)
      (by simp [Event.saysGone, Event.failsToOpen])
    exact hmetered.settled (by rw [hstage]; rfl) rfl
  | gone hcall hgone =>
    obtain ⟨shard, hasking⟩ := Stage.asking_of_saysGone hcall hgone
    exact iff_of_true
      (hmetered.leavesEarly_advance hasking (Event.isReply_of_saysGone hgone)
        (Event.reportsEnd_of_saysGone hgone) (Event.accepted_of_saysGone hgone) w)
      (.inl hgone)
  | stopped _ _ hstopped => rw [hstop] at hstopped; cases hstopped
  | skipped hstage hkind =>
    exact iff_of_true (hmetered.leavesEarly_advance (.inl hstage) rfl rfl rfl w.noteFailure)
      (.inr (by simpa [Event.failsToOpen] using hkind))
  | retried hcall hreading hfail =>
    have hopen : e.failsToOpen = false := by
      apply Event.failsToOpen_of_call
      intro shard heq
      rw [heq] at hcall
      rw [Stage.acquiring_of_call hcall] at hreading
      cases hreading
    exact iff_of_false (not_leavesEarly_of_stays rfl)
      (by simp [Event.saysGone_of_failure hfail, hopen])
  | ended hstage hempty hnext =>
    refine iff_of_false (not_leavesEarly_of_reportsEnd (lastReply?_snoc _ _) ?_)
      (by simp [Event.saysGone, Event.failsToOpen])
    simp [Event.reportsEnd, hnext]
  | idle | offered =>
    exact iff_of_false (not_leavesEarly_of_stays rfl) (by simp [Event.saysGone, Event.failsToOpen])
  | starved hstage hrecords hreserve =>
    exact absurd hreserve (hmetered.not_starved (Settings.of_check hcheck).1 hstage hrecords)
  | @closed shard cursor batch hstage =>
    obtain ⟨earlier, limit, page, hevents, hnext, -, -⟩ := hpath.delivering hstage
    have hlast : lastReply? (es ++ [⟨.deliver batch, .ok ()⟩]) =
        some ⟨.fetch cursor limit, .ok page⟩ := by
      rw [lastReply?_snoc, hevents, lastReply?_snoc]
      rfl
    refine iff_of_false (not_leavesEarly_of_reportsEnd hlast ?_)
      (by simp [Event.saysGone, Event.failsToOpen])
    simp [Event.reportsEnd, hnext]
  | moved hstage =>
    exact iff_of_false ((hmetered.credit hstage).not_leavesEarly_readOn _ _)
      (by simp [Event.saysGone, Event.failsToOpen])
  | resumed hstage =>
    refine iff_of_false (Settled.not_leavesEarly_readOn ?_ _ _)
      (by simp [Event.saysGone, Event.failsToOpen])
    exact hmetered.settled (by rw [hstage]; rfl) rfl

end Walk

namespace Run

variable {World : Type} {env : Environment World} {settings : Settings}

theorem Moves.step {r r' : Run World} {e : Event} (h : Moves env settings r r')
    (hevents : r'.events = r.events ++ [e]) : r.walk.Step settings e r'.walk := by
  cases h with
  | rest | lose => simp at hevents
  | answer h hw =>
    obtain rfl : _ = e := by simpa using hevents
    exact hw

/-- **Where failures do not end a run, it leaves a shard early in two cases**: the last answer of
the engine says that the shard is gone, or the engine has failed to give its first cursor. -/
theorem leavesEarly_iff (env : Environment World) (settings : Settings)
    (hcheck : settings.check = .ok ()) (hstop : settings.stopOnError = false) (world : World)
    (n : Nat) (e : Event)
    (hevents : (steps env settings (n + 1) (start settings world)).events =
      (steps env settings n (start settings world)).events ++ [e]) :
    Walk.LeavesEarly settings (steps env settings (n + 1) (start settings world)).events
        (steps env settings n (start settings world)).walk
        (steps env settings (n + 1) (start settings world)).walk ↔
      e.saysGone = true ∨ e.failsToOpen = true := by
  have hpath := path env settings world n
  have hmove := moves_step env settings (steps env settings n (start settings world))
  rw [← steps_succ] at hmove
  rw [hevents]
  exact hpath.step_leavesEarly_iff hcheck hstop (hmove.step hevents)

end Run

/-- The settings of a walk that goes on after failures. -/
def lenient : Settings := { stopOnError := false }

/-- An engine with one shard, whose records have been trimmed by the time they are asked for. -/
def trimmedLog : Environment Unit
  | .describe, u => (some (.ok ⟨[⟨"s", none⟩], none⟩), u)
  | .acquire _, u => (some (.ok (some ⟨"s/0"⟩)), u)
  | .fetch _ _, u => (some (.error { kind := .resourceNotFound, message := "Trimmed data" }), u)
  | .deliver _, u => (some (.ok ()), u)
  | .pause _, u => (some (), u)

theorem trimmedLog_leavesEarly :
    lenient.check = .ok () ∧ lenient.stopOnError = false ∧
    Walk.LeavesEarly lenient (Run.steps trimmedLog lenient 3 (.start lenient ())).events
      (Run.steps trimmedLog lenient 2 (.start lenient ())).walk
      (Run.steps trimmedLog lenient 3 (.start lenient ())).walk :=
  ⟨rfl, rfl, (Run.leavesEarly_iff trimmedLog lenient rfl rfl () 2
    ⟨.fetch ⟨"s/0"⟩ 100, .error { kind := .resourceNotFound, message := "Trimmed data" }⟩ rfl).2
    (.inl rfl)⟩

/-- An engine with one shard of one record, too busy to give its first cursor. -/
def throttledLog : Environment Unit
  | .describe, u => (some (.ok ⟨[⟨"s", none⟩], none⟩), u)
  | .acquire _, u => (some (.error { kind := .throttling, message := "Rate exceeded" }), u)
  | .fetch _ _, u => (some (.ok ⟨[{}], none⟩), u)
  | .deliver _, u => (some (.ok ()), u)
  | .pause _, u => (some (), u)

/-- The busy shard is asked for once and then left for good, although nothing has said that it is
gone; its failure counts as one that was retried. -/
theorem throttledLog_leaves :
    lenient.check = .ok () ∧ lenient.stopOnError = false ∧
    Walk.LeavesEarly lenient (Run.steps throttledLog lenient 2 (.start lenient ())).events
      (Run.steps throttledLog lenient 1 (.start lenient ())).walk
      (Run.steps throttledLog lenient 2 (.start lenient ())).walk ∧
    lastReply? (Run.steps throttledLog lenient 2 (.start lenient ())).events =
      some ⟨.acquire ⟨"s", none⟩, .error { kind := .throttling, message := "Rate exceeded" }⟩ ∧
    Event.saysGone
      ⟨.acquire ⟨"s", none⟩, .error { kind := .throttling, message := "Rate exceeded" }⟩ = false ∧
    (Run.steps throttledLog lenient 2 (.start lenient ())).walk.result? =
      some (.ok { visited := 1, recovered := 1 }) := by
  refine ⟨rfl, rfl, ⟨by decide, rfl, ?_, by decide⟩, rfl, rfl, rfl⟩
  intro e hlast
  cases hlast
  rfl

end ItemTable.ChangeLog
