import ItemTable.Proofs.ChangeLog.Allowance
import ItemTable.Proofs.ChangeLog.Lineage

/-!
# A run hands on the stored log

An engine that keeps its contract (`StoredLog.Serves`) may cut pages as it likes, send empty ones
and fail to fetch, and the handler may refuse batches. `Run.steps_delivers` says that a run which
goes on after failures still hands on the records of the log in order, each of them once, up to the
number that was asked for. The invariant is that the records accepted so far are those in front of
the cursor.
-/
namespace ItemTable.ChangeLog

/-- Shards with the records that they hold, by the id of the shard. -/
structure StoredLog where
  shards : List Shard
  view : Option ViewType
  records : String → List RawRecord

namespace StoredLog

/-- The records of a shard as they are handed on. -/
def content (log : StoredLog) (shard : Shard) : List Record :=
  (log.records shard.id).map (Record.handedOn log.view)

/-- All records in the order in which the shards are read. -/
def inOrder (log : StoredLog) : List Record := (lineageOrder log.shards).flatMap log.content

/-- The records that a run is to hand on: the first ones if it is limited. -/
def wanted (log : StoredLog) : Option Nat → List Record
  | none => log.inOrder
  | some most => log.inOrder.take most

/-- How many records there are. -/
def total (log : StoredLog) : Nat := (log.shards.flatMap fun s => log.records s.id).length

/-- What a cursor after `place` records of a shard may be: one that stands there, or none at the
end. -/
def Follows {World : Type} (log : StoredLog) (stands : World → Cursor → String → Nat → Prop)
    (world : World) (id : String) (place : Nat) : Option Cursor → Prop
  | some next => stands world next id place
  | none => place = (log.records id).length

/-- The contract of an engine that holds a log, with what it means by its cursors: in a world a
cursor `stands` at a place of a shard, and it keeps that place. Pages are made of consecutive
records, as many as the engine likes up to the limit. Fetches may fail, but not because the shard is
gone. Handlers and clocks are free. -/
structure Serves {World : Type} (log : StoredLog) (env : Environment World)
    (stands : World → Cursor → String → Nat → Prop) : Prop where
  describe : ∀ world answer world', env .describe world = (some answer, world') →
    answer = .ok ⟨log.shards, log.view⟩
  acquire : ∀ world shard answer world', shard ∈ log.shards →
    env (.acquire shard) world = (some answer, world') →
      ∃ cursor, answer = .ok (some cursor) ∧ stands world' cursor shard.id 0
  fetch : ∀ world cursor limit id place page world', stands world cursor id place →
    env (.fetch cursor limit) world = (some (.ok page), world') →
      ∃ count, count ≤ limit ∧ place + count ≤ (log.records id).length ∧
        page.records = ((log.records id).drop place).take count ∧
        log.Follows stands world' id (place + count) page.next
  fails : ∀ world cursor limit id place f world', stands world cursor id place →
    env (.fetch cursor limit) world = (some (.error f), world') → f.kind ≠ .resourceNotFound
  keeps : ∀ call world answer world' cursor id place, env call world = (answer, world') →
    stands world cursor id place → stands world' cursor id place

theorem length_inOrder (log : StoredLog) : log.inOrder.length = log.total := by
  have hperm := (lineageOrder_perm log.shards).flatMap_right log.content
  have hcontent : log.shards.flatMap log.content =
      (log.shards.flatMap fun s => log.records s.id).map (Record.handedOn log.view) := by
    rw [List.map_flatMap]
    rfl
  rw [inOrder, hperm.length_eq, hcontent, List.length_map, total]

/-- A limited run hands on as many records as it may, if there are as many. -/
theorem length_wanted (log : StoredLog) (most : Option Nat) :
    (log.wanted most).length = most.elim log.total (min · log.total) := by
  cases most with
  | none => exact log.length_inOrder
  | some most => rw [wanted, List.length_take, length_inOrder]; rfl

section Walk

variable {World : Type} {env : Environment World} {settings : Settings} {log : StoredLog}
  {stands : World → Cursor → String → Nat → Prop} {es : List Event} {w : Walk} {shard : Shard}
  {cursor : Cursor} {world : World} {place : Nat}

/-- A walk of the log that is about to go on to the next shard. -/
structure Between (log : StoredLog) (es : List Event) (w : Walk) : Prop where
  view : w.view = log.view
  taken : ∃ before, lineageOrder log.shards = before ++ w.ahead ∧
    accepted es = before.flatMap log.content

/-- A walk of the log that has taken a shard up to a place. -/
structure Within (log : StoredLog) (es : List Event) (w : Walk) (shard : Shard) (place : Nat) :
    Prop where
  view : w.view = log.view
  place_le : place ≤ (log.records shard.id).length
  taken : ∃ before, lineageOrder log.shards = before ++ shard :: w.ahead ∧
    accepted es = before.flatMap log.content ++ (log.content shard).take place

/-- The records accepted so far are those in front of the cursor; those at the handler come next. -/
def Progress (log : StoredLog) (stands : World → Cursor → String → Nat → Prop) (world : World)
    (es : List Event) (w : Walk) : Prop :=
  match w.stage with
  | .describing => accepted es = []
  | .acquiring shard => log.Within es w shard 0
  | .fetching shard cursor _ | .pausing shard cursor _ =>
    ∃ place, log.Within es w shard place ∧ stands world cursor shard.id place
  | .delivering shard cursor batch next =>
    ∃ place, log.Within es w shard place ∧ stands world cursor shard.id place ∧
      batch = ((log.content shard).drop place).take batch.length ∧
      place + batch.length ≤ (log.records shard.id).length ∧
      log.Follows stands world shard.id (place + batch.length) next
  | .finished =>
    accepted es = log.inOrder ∨ accepted es <+: log.inOrder ∧ w.budget.isExhausted = true
  | .failed _ => False

theorem length_content (log : StoredLog) (shard : Shard) :
    (log.content shard).length = (log.records shard.id).length := List.length_map _

/-- Having taken all of a shard, a walk may go on to the next one. -/
theorem Within.between (h : log.Within es w shard (log.records shard.id).length) :
    log.Between es w := by
  obtain ⟨before, horder, htaken⟩ := h.taken
  refine ⟨h.view, before ++ [shard], by rw [horder, List.append_assoc]; rfl, ?_⟩
  rw [htaken, ← length_content, List.take_length, List.flatMap_append]
  simp

theorem Within.leads (h : log.Within es w shard place) : accepted es <+: log.inOrder := by
  obtain ⟨before, horder, htaken⟩ := h.taken
  rw [htaken, inOrder, horder, List.flatMap_append, List.flatMap_cons]
  exact List.prefix_append_right_inj _ |>.2
    ((List.take_prefix _ _).trans (List.prefix_append _ _))

/-- A walk that has taken all records may end, and so may one that has spent its budget. -/
theorem Progress.finish (h : accepted es = log.inOrder ∨
    accepted es <+: log.inOrder ∧ w.budget.isExhausted = true) :
    log.Progress stands world es w.finish := h

/-- The next shard is opened at its first record, and without a next shard all is taken. -/
theorem Between.advance (h : log.Between es w) : log.Progress stands world es w.advance := by
  obtain ⟨hview, before, horder, htaken⟩ := h
  rcases Walk.advance_cases w with ⟨heq, hend⟩ | ⟨shard, rest, hahead, -, heq⟩
  · rw [heq]
    apply Progress.finish
    rcases hend with hahead | hspent
    · left
      rw [htaken, inOrder, horder, hahead, List.append_nil]
    · refine .inr ⟨?_, hspent⟩
      rw [htaken, inOrder, horder, List.flatMap_append]
      exact List.prefix_append _ _
  · rw [heq]
    refine ⟨hview, Nat.zero_le _, before, by rw [horder, hahead], ?_⟩
    rw [htaken, List.take_zero, List.append_nil]

/-- The end of a shard is where its records have all been taken. -/
theorem Within.exhaust (h : log.Within es w shard place)
    (hend : place = (log.records shard.id).length) : log.Progress stands world es w.exhaust := by
  subst hend
  obtain ⟨hview, htaken⟩ := h.between
  exact Between.advance ⟨hview, htaken⟩

theorem Within.readOn (h : log.Within es w shard place)
    (hstands : stands world cursor shard.id place) :
    log.Progress stands world es (w.readOn settings shard cursor) := by
  rcases Walk.readOn_cases settings w shard cursor with ⟨heq, hspent⟩ | ⟨heq, -⟩
  · rw [heq]
    exact .finish (.inr ⟨h.leads, hspent⟩)
  · rw [heq]
    exact ⟨place, ⟨h.view, h.place_le, h.taken⟩, hstands⟩

/-- A call that brings no accepted records leaves a walk at its place, whatever it does to its stage
and counters. -/
theorem Within.snoc (h : log.Within es w shard place) {e : Event} {w' : Walk}
    (he : e.accepted = []) (hview : w'.view = w.view) (hahead : w'.ahead = w.ahead) :
    log.Within (es ++ [e]) w' shard place where
  view := hview.trans h.view
  place_le := h.place_le
  taken := by
    rw [accepted_snoc, he, List.append_nil, hahead]
    exact h.taken

/-- Accepting the next records of a shard moves the place behind them. -/
theorem Within.credit (h : log.Within es w shard place) {batch : List Record}
    (hbatch : batch = ((log.content shard).drop place).take batch.length)
    (hle : place + batch.length ≤ (log.records shard.id).length) :
    log.Within (es ++ [⟨.deliver batch, .ok ()⟩]) (w.credit batch.length) shard
      (place + batch.length) where
  view := h.view
  place_le := hle
  taken := by
    obtain ⟨before, horder, htaken⟩ := h.taken
    refine ⟨before, horder, ?_⟩
    rw [accepted_snoc, htaken, List.append_assoc, List.take_add, ← hbatch]
    rfl

theorem Within.mem (h : log.Within es w shard place) : shard ∈ log.shards := by
  obtain ⟨before, horder, -⟩ := h.taken
  rw [← (lineageOrder_perm log.shards).mem_iff, horder]
  exact List.mem_append_right _ (List.mem_cons_self ..)

/-- The shard at which a failed call leaves a walk is read on from the same place. -/
theorem Progress.reading (h : log.Progress stands world es w)
    (hreading : w.stage.reading? = some (shard, cursor)) :
    ∃ place, log.Within es w shard place ∧ stands world cursor shard.id place := by
  unfold Progress at h
  cases hstage : w.stage with
  | fetching s c limit =>
    rw [hstage] at h hreading
    cases hreading
    exact h
  | delivering s c batch next =>
    rw [hstage] at h hreading
    cases hreading
    obtain ⟨place, hwithin, hstands, -⟩ := h
    exact ⟨place, hwithin, hstands⟩
  | describing | acquiring | pausing | finished | failed =>
    rw [hstage] at hreading
    cases hreading

theorem Progress.mono {world' : World} (h : log.Progress stands world es w)
    (hkeeps : ∀ cursor id place, stands world cursor id place → stands world' cursor id place) :
    log.Progress stands world' es w := by
  unfold Progress at h ⊢
  cases hstage : w.stage with
  | fetching shard cursor limit | pausing shard cursor =>
    rw [hstage] at h
    obtain ⟨place, hwithin, hstands⟩ := h
    exact ⟨place, hwithin, hkeeps _ _ _ hstands⟩
  | delivering shard cursor batch next =>
    rw [hstage] at h
    obtain ⟨place, hwithin, hstands, hbatch, hle, hnext⟩ := h
    refine ⟨place, hwithin, hkeeps _ _ _ hstands, hbatch, hle, ?_⟩
    cases next with
    | none => exact hnext
    | some next => exact hkeeps _ _ _ hnext
  | describing | acquiring | finished | failed =>
    rw [hstage] at h
    exact h

theorem Serves.opens (h : log.Serves env stands) (hwithin : log.Within es w shard place)
    {answer : Except Fault (Option Cursor)} {world' : World}
    (hanswer : env (.acquire shard) world = (some answer, world')) :
    ∃ cursor, answer = .ok (some cursor) ∧ stands world' cursor shard.id 0 :=
  h.acquire world shard answer world' hwithin.mem hanswer

theorem Serves.not_saysGone (h : log.Serves env stands) (hprogress : log.Progress stands world es w)
    {e : Event} {world' : World} (hcall : w.stage.call? = some e.call)
    (hanswer : env e.call world = (some e.answer, world')) : e.saysGone = false := by
  unfold Progress at hprogress
  obtain ⟨call, answer⟩ := e
  cases call with
  | describe | deliver | pause => rfl
  | acquire shard =>
    rw [Stage.acquiring_of_call hcall] at hprogress
    obtain ⟨cursor, hopen, -⟩ := h.opens hprogress hanswer
    have hok : answer = .ok (some cursor) := hopen
    rw [hok]
    rfl
  | fetch cursor limit =>
    obtain ⟨shard, hstage⟩ := Stage.fetching_of_call hcall
    rw [hstage] at hprogress
    obtain ⟨place, -, hstands⟩ := hprogress
    cases answer with
    | ok page => rfl
    | error f =>
      have hkind := h.fails world cursor limit shard.id place f world' hstands hanswer
      simpa [Event.saysGone] using hkind

/-- The records of a page come next in their shard, and the limit of the fetch holds them all. -/
theorem Serves.page (h : log.Serves env stands) {limit : Nat} {page : RecordPage} {world' : World}
    (hwithin : log.Within es w shard place) (hstands : stands world cursor shard.id place)
    (hanswer : env (.fetch cursor limit) world = (some (.ok page), world')) :
    page.records.length ≤ limit ∧
      w.batchOf page.records = ((log.content shard).drop place).take page.records.length ∧
      place + page.records.length ≤ (log.records shard.id).length ∧
      log.Follows stands world' shard.id (place + page.records.length) page.next := by
  obtain ⟨count, hlimit, hend, hrecords, hnext⟩ :=
    h.fetch world cursor limit shard.id place page world' hstands hanswer
  have hlength : page.records.length = count := by
    rw [hrecords, List.length_take, List.length_drop]
    omega
  have hbatch : w.batchOf page.records = page.records.map (Record.handedOn log.view) := by
    rw [← hwithin.view]
    rfl
  rw [hlength]
  refine ⟨hlimit, ?_, hend, hnext⟩
  rw [hbatch, hrecords, content, List.map_take, List.map_drop]

/-- Every answered call keeps the accepted records in front of the cursor. -/
theorem Progress.step (h : log.Progress stands world es w) (hserves : log.Serves env stands)
    (hgoOn : settings.stopOnError = false) (hmetered : w.Metered settings es) {e : Event}
    {world' : World} {w' : Walk} (hanswer : env e.call world = (some e.answer, world'))
    (hstep : w.Step settings e w') : log.Progress stands world' (es ++ [e]) w' := by
  have hkeeps := fun cursor id place => hserves.keeps e.call world (some e.answer) world' cursor id
    place hanswer
  have hreading (shard : Shard) (cursor : Cursor)
      (heq : w.stage.reading? = some (shard, cursor)) := h.reading heq
  have hgone := hserves.not_saysGone h hstep.call hanswer
  unfold Progress at h
  cases hstep with
  | unlisted hstage =>
    have hdescribe := hserves.describe world _ world' hanswer
    cases hdescribe
  | listed hstage =>
    rw [hstage] at h
    have hdescribe := hserves.describe world _ world' hanswer
    cases hdescribe
    apply Between.advance
    refine ⟨rfl, [], rfl, ?_⟩
    rw [accepted_snoc, h]
    rfl
  | opened hstage =>
    rw [hstage] at h
    obtain ⟨cursor, hopen, hstands⟩ := hserves.opens h hanswer
    cases hopen
    exact (h.snoc rfl rfl rfl).readOn hstands
  | gone _ hclaim =>
    rw [hclaim] at hgone
    cases hgone
  | stopped _ _ hstop =>
    rw [hgoOn] at hstop
    cases hstop
  | skipped hstage =>
    rw [hstage] at h
    obtain ⟨cursor, hopen, -⟩ := hserves.opens h hanswer
    cases hopen
  | retried _ hshard hfail =>
    obtain ⟨place, hwithin, hstands⟩ := hreading _ _ hshard
    exact ⟨place, hwithin.snoc (Event.accepted_of_failure hfail) rfl rfl, hkeeps _ _ _ hstands⟩
  | ended hstage hempty hnext =>
    rw [hstage] at h
    obtain ⟨place, hwithin, hstands⟩ := h
    obtain ⟨-, -, -, hfollows⟩ := hserves.page hwithin hstands hanswer
    rw [hempty, hnext] at hfollows
    exact (hwithin.snoc rfl rfl rfl).exhaust hfollows
  | idle hstage hempty hnext =>
    rw [hstage] at h
    obtain ⟨place, hwithin, hstands⟩ := h
    obtain ⟨-, -, -, hfollows⟩ := hserves.page hwithin hstands hanswer
    rw [hempty, hnext] at hfollows
    exact ⟨place, hwithin.snoc rfl rfl rfl, hfollows⟩
  | @offered shard cursor limit page granted budget hstage hrecords hreserve _ =>
    rw [hstage] at h
    obtain ⟨place, hwithin, hstands⟩ := h
    obtain ⟨hlimit, hbatch, hend, hfollows⟩ := hserves.page hwithin hstands hanswer
    have hgranted := (hmetered.reserve hstage hreserve).1
    rw [Nat.min_eq_left hlimit] at hgranted
    rw [hgranted, List.take_length]
    have hlength : (w.batchOf page.records).length = page.records.length := List.length_map _
    refine ⟨place, hwithin.snoc rfl rfl rfl, hkeeps _ _ _ hstands, ?_⟩
    rw [hlength]
    exact ⟨hbatch, hend, hfollows⟩
  | starved hstage hrecords hreserve =>
    rw [hstage] at h
    obtain ⟨place, hwithin, hstands⟩ := h
    obtain ⟨hlimit, -⟩ := hserves.page hwithin hstands hanswer
    have hgranted := (hmetered.reserve hstage hreserve).1
    rw [Nat.min_eq_left hlimit] at hgranted
    exact absurd (List.length_eq_zero_iff.1 hgranted.symm) hrecords
  | closed hstage =>
    rw [hstage] at h
    obtain ⟨place, hwithin, hstands, hbatch, hend, hfollows⟩ := h
    exact (hwithin.credit hbatch hend).exhaust hfollows
  | moved hstage =>
    rw [hstage] at h
    obtain ⟨place, hwithin, hstands, hbatch, hend, hfollows⟩ := h
    exact (hwithin.credit hbatch hend).readOn (hkeeps _ _ _ hfollows)
  | resumed hstage =>
    rw [hstage] at h
    obtain ⟨place, hwithin, hstands⟩ := h
    exact (hwithin.snoc rfl rfl rfl).readOn (hkeeps _ _ _ hstands)

/-- The accepted records are always the first ones of the log. -/
theorem Progress.leads (h : log.Progress stands world es w) : accepted es <+: log.inOrder := by
  unfold Progress at h
  cases hstage : w.stage with
  | describing =>
    rw [hstage] at h
    rw [show accepted es = [] from h]
    exact List.nil_prefix
  | acquiring shard =>
    rw [hstage] at h
    exact Within.leads h
  | fetching shard cursor limit | pausing shard cursor | delivering shard cursor batch next =>
    rw [hstage] at h
    obtain ⟨place, hwithin, -⟩ := h
    exact hwithin.leads
  | finished =>
    rw [hstage] at h
    rcases h with heq | ⟨hleads, -⟩
    · exact heq ▸ List.prefix_rfl
    · exact hleads
  | failed =>
    rw [hstage] at h
    cases h

/-- A walk that has ended has ended well, with all the records that were wanted. -/
theorem Progress.ended (h : log.Progress stands world es w) (hmetered : w.Metered settings es)
    {result : Except Error Summary} (hresult : w.result? = some result) :
    result = .ok w.summary ∧ accepted es = log.wanted settings.maxRecords := by
  unfold Progress at h
  have hholds := hmetered.holds
  unfold Walk.result? at hresult
  cases hstage : w.stage with
  | finished =>
    rw [hstage] at h hresult hholds
    cases hresult
    refine ⟨rfl, ?_⟩
    rcases h with hall | ⟨hleads, hspent⟩
    · cases hmost : settings.maxRecords with
      | none => exact hall
      | some most =>
        have hwithin := hholds.within most hmost
        rw [wanted, ← hall, List.take_of_length_le (by omega)]
    · rw [hholds.isExhausted_iff.1 hspent, wanted]
      exact List.prefix_iff_eq_take.1 hleads
  | failed =>
    rw [hstage] at h
    cases h
  | describing | acquiring | fetching | delivering | pausing =>
    rw [hstage] at hresult
    cases hresult

end Walk

end StoredLog

/-- **A run hands on the log as it is stored**, in order and each record once: never more than its
first records, and all that were wanted by the time it has ended. -/
theorem Run.steps_delivers {World : Type} {log : StoredLog} {env : Environment World}
    {stands : World → Cursor → String → Nat → Prop} (hserves : log.Serves env stands)
    {settings : Settings} (hgoOn : settings.stopOnError = false) (world : World) (n : Nat) :
    accepted (steps env settings n (start settings world)).events <+:
        log.wanted settings.maxRecords ∧
    ∀ result, (steps env settings n (start settings world)).walk.result? = some result →
      ∃ summary, result = .ok summary ∧
        accepted (steps env settings n (start settings world)).events =
          log.wanted settings.maxRecords ∧
        summary.processed = settings.maxRecords.elim log.total (min · log.total) := by
  have hinv : (steps env settings n (start settings world)).walk.Metered settings
        (steps env settings n (start settings world)).events ∧
      log.Progress stands (steps env settings n (start settings world)).world
        (steps env settings n (start settings world)).events
        (steps env settings n (start settings world)).walk := by
    have hstart : log.Progress stands world [] (.start settings) := accepted_nil
    apply steps_induction (P := fun r => r.walk.Metered settings r.events ∧
      log.Progress stands r.world r.events r.walk) ⟨.start settings, hstart⟩
    intro r r' ⟨hmetered, hprogress⟩ hmove
    cases hmove with
    | rest => exact ⟨hmetered, hprogress⟩
    | lose h => exact ⟨hmetered, hprogress.mono fun c id p => hserves.keeps _ _ _ _ c id p h⟩
    | answer h hw =>
      exact ⟨hmetered.step hw, hprogress.step hserves hgoOn hmetered h hw⟩
  generalize steps env settings n (start settings world) = r at hinv
  obtain ⟨hmetered, hprogress⟩ := hinv
  constructor
  · cases hmost : settings.maxRecords with
    | none => exact hprogress.leads
    | some most =>
      have hwithin := hmetered.holds.within most hmost
      exact List.prefix_take_iff.2 ⟨hprogress.leads, by omega⟩
  · intro result hresult
    obtain ⟨hok, hwanted⟩ := hprogress.ended hmetered hresult
    refine ⟨r.walk.summary, hok, hwanted, ?_⟩
    rw [hmetered.processed, hwanted, log.length_wanted]

/-- Two shards of two records each, the child listed before its parent. -/
def familyLog : StoredLog where
  shards := [⟨"b", some "a"⟩, ⟨"a", none⟩]
  view := some .newImage
  records
    | "a" => [{ id := some "1" }, { id := some "2" }]
    | "b" => [{ id := some "3" }, { id := some "4" }]
    | _ => []

/-- The cursors of the two shards, with their places. -/
def cursorTable : List (String × String × Nat) :=
  [("a0", "a", 0), ("a1", "a", 1), ("b0", "b", 0), ("b1", "b", 1)]

/-- An engine that is throttled at every third call, sends an empty page or one record, and has a
handler that is busy at every other call. -/
def patchyLog : Environment Nat
  | .describe, t => (some (.ok ⟨familyLog.shards, familyLog.view⟩), t + 1)
  | .acquire shard, t => (some (.ok (some (if shard.id = "a" then ⟨"a0"⟩ else ⟨"b0"⟩))), t + 1)
  | .fetch cursor limit, t =>
    (some (if t % 3 = 0 then .error { kind := .throttling, message := "Rate exceeded" }
      else if t % 3 = 1 ∨ limit = 0 then .ok ⟨[], some cursor⟩
      else .ok <| match cursor.token with
        | "a0" => ⟨[{ id := some "1" }], some ⟨"a1"⟩⟩
        | "a1" => ⟨[{ id := some "2" }], none⟩
        | "b0" => ⟨[{ id := some "3" }], some ⟨"b1"⟩⟩
        | _ => ⟨[{ id := some "4" }], none⟩), t + 1)
  | .deliver _, t => (some (if t % 2 = 0 then .error ⟨["busy"]⟩ else .ok ()), t + 1)
  | .pause _, t => (some (), t + 1)

def goingOn : Settings := { batchSize := 2, maxRecords := some 3, stopOnError := false }

/-- Where the cursors of `patchyLog` stand, whenever they are used. -/
def patchyPlace (_ : Nat) (cursor : Cursor) (id : String) (place : Nat) : Prop :=
  (cursor.token, id, place) ∈ cursorTable

theorem patchyPlace_lt {world : Nat} {cursor : Cursor} {id : String} {place : Nat}
    (h : patchyPlace world cursor id place) : place < (familyLog.records id).length := by
  have hrows : ∀ row ∈ cursorTable, row.2.2 < (familyLog.records row.2.1).length := by decide
  exact hrows _ h

theorem patchyLog_serves : familyLog.Serves patchyLog patchyPlace where
  describe world answer world' h := by
    cases h
    rfl
  acquire world shard answer world' hmem h := by
    cases h
    simp only [familyLog, List.mem_cons, List.not_mem_nil, or_false] at hmem
    rcases hmem with rfl | rfl
    · exact ⟨⟨"b0"⟩, rfl, List.mem_of_elem_eq_true rfl⟩
    · exact ⟨⟨"a0"⟩, rfl, List.mem_of_elem_eq_true rfl⟩
  fetch world cursor limit id place page world' hstands h := by
    obtain ⟨token⟩ := cursor
    simp only [patchyLog, Prod.mk.injEq, Option.some.injEq] at h
    obtain ⟨hpage, rfl⟩ := h
    split at hpage
    · cases hpage
    · split at hpage
      · cases hpage
        exact ⟨0, Nat.zero_le _, Nat.le_of_lt (patchyPlace_lt hstands), rfl, hstands⟩
      · next hserves =>
        have hlimit : 1 ≤ limit := by omega
        simp only [patchyPlace, cursorTable, List.mem_cons, List.not_mem_nil, or_false,
          Prod.mk.injEq] at hstands
        rcases hstands with ⟨rfl, rfl, rfl⟩ | ⟨rfl, rfl, rfl⟩ | ⟨rfl, rfl, rfl⟩ | ⟨rfl, rfl, rfl⟩
        all_goals
          cases hpage
          refine ⟨1, hlimit, by decide, rfl, ?_⟩
          simp [StoredLog.Follows, patchyPlace, cursorTable, familyLog]
  fails world cursor limit id place f world' _ h := by
    simp only [patchyLog, Prod.mk.injEq, Option.some.injEq] at h
    obtain ⟨hpage, rfl⟩ := h
    split at hpage
    · cases hpage
      simp
    · split at hpage <;> cases hpage
  keeps _ _ _ _ _ _ _ _ h := h

theorem patchyLog_delivers :
    familyLog.Serves patchyLog patchyPlace ∧ goingOn.stopOnError = false ∧
    (Run.steps patchyLog goingOn 16 (.start goingOn 0)).walk.result? =
      some (.ok { processed := 3, batches := 3, visited := 2, exhausted := 1, recovered := 2 }) ∧
    accepted (Run.steps patchyLog goingOn 16 (.start goingOn 0)).events =
      familyLog.inOrder.take 3 := by
  have hgoOn : goingOn.stopOnError = false := rfl
  obtain ⟨-, hended⟩ := Run.steps_delivers patchyLog_serves hgoOn 0 16
  obtain ⟨_, -, hall, -⟩ := hended _ rfl
  exact ⟨patchyLog_serves, hgoOn, rfl, hall⟩

end ItemTable.ChangeLog
