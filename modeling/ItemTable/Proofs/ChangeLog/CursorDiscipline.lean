import ItemTable.Proofs.ChangeLog.Departure
import ItemTable.Proofs.ChangeLog.Lineage
import Mathlib.Data.List.Basic

/-!
# Which call may follow which

A walk keeps to one cursor at a time. `Call.MayFollow` says what must have happened before a call:
one description before all others, the shards in the order of their lineage, and before a fetch just
the answers that leave its shard at its cursor (`Continues`), with a pause among them exactly where
the fetch before it has brought nothing (`Stalls`). A pause lasts as long as the settings say, and
nothing else calls for one. `Run.steps_mayFollow` says that every call of every run is such a call,
whatever the engine and the handler answer.
-/
namespace ItemTable.ChangeLog

/-- The shard whose first cursor is asked for. -/
def Call.opens? : Call → Option Shard
  | .acquire shard => some shard
  | _ => none

/-- The shards whose first cursors have been asked for, in order. -/
def opened (es : List Event) : List Shard := es.filterMap fun e => e.call.opens?

theorem opened_append (es es' : List Event) : opened (es ++ es') = opened es ++ opened es' :=
  List.filterMap_append

/-- The last fetch has brought nothing: it has failed, it has come back empty, or its batch has been
refused. The shard is left at a cursor, the same one unless the page was empty. -/
inductive Stalls : List Event → Cursor → Prop
  | failed {past cursor limit f} (hkind : f.kind ≠ .resourceNotFound) :
      Stalls (past ++ [⟨.fetch cursor limit, .error f⟩]) cursor
  | empty {past cursor limit page next} (hempty : page.records = [])
      (hnext : page.next = some next) : Stalls (past ++ [⟨.fetch cursor limit, .ok page⟩]) next
  | refused {past cursor limit page batch r} (hrecords : page.records ≠ []) :
      Stalls (past ++ [⟨.fetch cursor limit, .ok page⟩, ⟨.deliver batch, .error r⟩]) cursor

/-- The last answers leave a shard at a cursor: the first one that the engine has given for it, the
next one after an accepted batch, and where the last fetch has brought nothing, the one at which it
has left the shard, after a pause. -/
inductive Continues (interval : Nat) : List Event → Cursor → Prop
  | first {past shard cursor} :
      Continues interval (past ++ [⟨.acquire shard, .ok (some cursor)⟩]) cursor
  | accepted {past cursor limit page batch next} (hrecords : page.records ≠ [])
      (hnext : page.next = some next) :
      Continues interval
        (past ++ [⟨.fetch cursor limit, .ok page⟩, ⟨.deliver batch, .ok ()⟩]) next
  | paused {past cursor} (hstalls : Stalls past cursor) :
      Continues interval (past ++ [⟨.pause interval, ()⟩]) cursor

/-- An answer ends the shard that is being read: it is gone, or nothing comes after its last page,
which was empty or has been accepted. -/
inductive Event.EndsShard (past : List Event) : Event → Prop
  | gone {e} (hgone : e.saysGone = true) : EndsShard past e
  | empty {cursor limit page} (hempty : page.records = []) (hnext : page.next = none) :
      EndsShard past ⟨.fetch cursor limit, .ok page⟩
  | accepted {earlier cursor limit page batch}
      (hpage : past = earlier ++ [⟨.fetch cursor limit, .ok page⟩]) (hnext : page.next = none) :
      EndsShard past ⟨.deliver batch, .ok ()⟩

/-- The last answer has ended a shard. -/
def AtEnd (es : List Event) : Prop := ∃ past e, es = past ++ [e] ∧ e.EndsShard past

/-- The shard that a call is for. A walk reads the shard that it has opened last. -/
def Call.shard? (past : List Event) : Call → Option Shard
  | .describe => none
  | .acquire shard => some shard
  | .fetch _ _ | .deliver _ | .pause _ => (opened past).getLast?

theorem Call.shard?_eq {past : List Event} {call : Call} {shard : Shard}
    (h : call.shard? past = some shard) :
    (opened past ++ call.opens?.toList).getLast? = some shard := by
  cases call with
  | describe => cases h
  | acquire other =>
    obtain rfl : other = shard := Option.some.inj h
    exact List.getLast?_concat
  | fetch cursor limit | deliver batch | pause =>
    simp only [opens?, Option.toList_none, List.append_nil]
    exact h

/-- At some time the shard that was being read has ended. -/
def HasEnded (past : List Event) (shard : Shard) : Prop :=
  ∃ earlier later, past = earlier ++ later ∧ AtEnd earlier ∧
    (opened earlier).getLast? = some shard

/-- What must have happened before a call. -/
structure Call.MayFollow (settings : Settings) (call : Call) (past : List Event) : Prop where
  /-- The log is described first and only once, and nothing is called without its description. -/
  describes : past = [] ∧ call = .describe ∨
    call ≠ .describe ∧ ∃ d, past.head? = some ⟨.describe, .ok d⟩
  /-- Shards are opened in the order of their lineage, and none of them twice. -/
  opens : ∀ shard d, call = .acquire shard → past.head? = some ⟨.describe, .ok d⟩ →
    opened past ++ [shard] <+: lineageOrder d.shards ∧
      ((d.shards.map Shard.id).Nodup → ∀ earlier ∈ opened past, earlier.id ≠ shard.id)
  /-- A fetch goes on at the cursor at which the last answers leave its shard. -/
  fetches : ∀ cursor limit, call = .fetch cursor limit →
    Continues settings.pollInterval past cursor
  /-- A pause lasts as long as the settings say, and it comes right after a fetch without result. -/
  pauses : ∀ duration, call = .pause duration →
    duration = settings.pollInterval ∧ ∃ cursor, Stalls past cursor
  /-- Once a shard has ended, the walk goes to the next one. -/
  leaves : AtEnd past → ∃ shard, call = .acquire shard
  /-- A shard that has ended gets no further call. -/
  returns : ∀ d ended shard, past.head? = some ⟨.describe, .ok d⟩ → (d.shards.map Shard.id).Nodup →
    HasEnded past ended → call.shard? past = some shard → shard.id ≠ ended.id

/-- The shard whose first cursor a walk is about to ask for. -/
def Stage.pending : Stage → List Shard
  | acquiring shard => [shard]
  | _ => []

theorem Stage.pending_of_call {stage : Stage} {call : Call} (h : stage.call? = some call) :
    stage.pending = call.opens?.toList := by
  cases stage <;> cases h <;> rfl

namespace Walk

variable {settings : Settings} {es : List Event} {w w' : Walk} {e : Event}

theorem opened_snoc (hstep : Step settings w e w') :
    opened (es ++ [e]) = opened es ++ w.stage.pending := by
  rw [opened_append, Stage.pending_of_call hstep.call]
  cases h : e.call.opens? <;> simp [opened, h]

def unopened (w : Walk) : List Shard := w.stage.pending ++ w.ahead

theorem unopened_advance (w : Walk) : w.advance.unopened = w.ahead := by
  rcases advance_cases w with ⟨heq, -⟩ | ⟨shard, rest, hahead, -, heq⟩
  · rw [heq]
    rfl
  · rw [heq, hahead]
    rfl

theorem unopened_readOn (w : Walk) (shard : Shard) (cursor : Cursor) :
    (w.readOn settings shard cursor).unopened = w.ahead := by
  rcases readOn_cases settings w shard cursor with ⟨heq, -⟩ | ⟨heq, -⟩ <;> rw [heq] <;> rfl

/-- After the description a step opens no more than the pending shard. -/
theorem Step.unopened_eq (h : Step settings w e w') (hstage : w.stage ≠ .describing) :
    w'.unopened = w.ahead := by
  cases h with
  | unlisted h | listed h => exact absurd h hstage
  | stopped | retried | idle | offered | starved => rfl
  | gone | skipped | ended | closed => exact unopened_advance _
  | opened | moved | resumed => exact unopened_readOn _ _ _

/-- The shards in their order are those that have been opened, and those that still are to be. -/
theorem Path.shards (h : Path settings es w) {d : Description}
    (hhead : es.head? = some ⟨.describe, .ok d⟩) :
    opened es ++ w.unopened = lineageOrder d.shards := by
  induction h with
  | start => cases hhead
  | @snoc es e w w' hpath hstep ih =>
    rcases hpath.view with ⟨hstage, rfl⟩ | ⟨err, hstage⟩ | ⟨hstage, d', hhead', -⟩
    · obtain rfl : e = ⟨.describe, .ok d⟩ := Option.some.inj hhead
      cases hstep with
      | listed => exact unopened_advance _
      | gone _ hgone => cases hgone
      | stopped _ hfail | retried _ _ hfail => cases hfail
    · have hcall := hstep.call
      rw [hstage] at hcall
      cases hcall
    · have hsame : es.head? = some ⟨.describe, .ok d⟩ := by
        rw [List.head?_append, hhead'] at hhead
        rw [hhead']
        exact hhead
      rw [opened_snoc hstep, hstep.unopened_eq hstage, List.append_assoc]
      exact ih hsame

/-- The page behind a batch at the handler has brought records. -/
theorem Path.page (h : Path settings es w) {shard : Shard} {cursor : Cursor} {batch : List Record}
    {next : Option Cursor} (hstage : w.stage = .delivering shard cursor batch next) :
    ∃ earlier limit page, es = earlier ++ [⟨.fetch cursor limit, .ok page⟩] ∧ page.next = next ∧
      page.records ≠ [] := by
  obtain ⟨earlier, limit, page, hevents, hnext, hne, hbatch⟩ := h.delivering hstage
  refine ⟨earlier, limit, page, hevents, hnext, fun hempty => hne ?_⟩
  rw [hbatch, hempty, List.take_nil]
  rfl

/-- The last answers have led to the cursor of a pending fetch, or lead there when the pause is
over. -/
structure Resumes (settings : Settings) (es : List Event) (w : Walk) : Prop where
  fetching : ∀ shard cursor limit, w.stage = .fetching shard cursor limit →
    Continues settings.pollInterval es cursor
  pausing : ∀ shard cursor duration, w.stage = .pausing shard cursor duration →
    duration = settings.pollInterval ∧ Stalls es cursor

theorem Resumes.of_stage (hfetching : ∀ shard cursor limit, w.stage ≠ .fetching shard cursor limit)
    (hpausing : ∀ shard cursor duration, w.stage ≠ .pausing shard cursor duration) :
    Resumes settings es w where
  fetching := fun _ _ _ hstage => absurd hstage (hfetching _ _ _)
  pausing := fun _ _ _ hstage => absurd hstage (hpausing _ _ _)

theorem Resumes.advance (settings : Settings) (es : List Event) (w : Walk) :
    Resumes settings es w.advance := by
  rcases advance_cases w with ⟨heq, -⟩ | ⟨shard, rest, -, -, heq⟩ <;> rw [heq] <;>
    exact .of_stage (by simp) (by simp)

theorem Resumes.readOn {cursor : Cursor} (h : Continues settings.pollInterval es cursor)
    (shard : Shard) : Resumes settings es (w.readOn settings shard cursor) := by
  rcases readOn_cases settings w shard cursor with ⟨heq, -⟩ | ⟨heq, -⟩ <;> rw [heq]
  · exact .of_stage (by simp) (by simp)
  · refine ⟨fun _ _ _ hstage => ?_, fun _ _ _ hstage => by cases hstage⟩
    cases hstage
    exact h

theorem Resumes.waitAt {cursor : Cursor} (h : Stalls es cursor) (shard : Shard) :
    Resumes settings es (w.waitAt settings shard cursor) := by
  refine ⟨fun _ _ _ hstage => (by cases hstage), fun _ _ _ hstage => ?_⟩
  cases hstage
  exact ⟨rfl, h⟩

/-- A failure that is retried leaves the shard at the cursor at which it was. -/
theorem Path.stalls_of_failure (h : Path settings es w) (hcall : w.stage.call? = some e.call)
    {err : Error} (hfail : e.failure? = some err) {shard : Shard} {cursor : Cursor}
    (hreading : w.stage.reading? = some (shard, cursor)) :
    Stalls (es ++ [e]) cursor := by
  obtain ⟨call, answer⟩ := e
  cases hstage : w.stage with
  | fetching shard' cursor' limit =>
    rw [hstage] at hcall hreading
    cases hcall
    cases hreading
    cases answer with
    | ok page => cases hfail
    | error f =>
      exact .failed fun heq => by simp [Event.failure?, heq] at hfail
  | delivering shard' cursor' batch next =>
    obtain ⟨earlier, limit, page, rfl, -, hrecords⟩ := h.page hstage
    rw [hstage] at hcall hreading
    cases hcall
    cases hreading
    cases answer with
    | ok u => cases hfail
    | error r =>
      rw [List.append_assoc]
      exact .refused hrecords
  | describing | acquiring | pausing | finished | failed =>
    rw [hstage] at hreading
    cases hreading

theorem Path.resumes (h : Path settings es w) : Resumes settings es w := by
  induction h with
  | start => exact .of_stage (by simp [Walk.start, unstarted]) (by simp [Walk.start, unstarted])
  | @snoc es e w w' hpath hstep ih =>
    cases hstep with
    | unlisted | stopped | starved | offered => exact .of_stage (by simp) (by simp)
    | listed | gone | skipped | ended | closed => exact .advance _ _ _
    | opened hstage => exact .readOn .first _
    | retried hcall hreading hfail =>
      exact .waitAt (hpath.stalls_of_failure hcall hfail hreading) _
    | idle hstage hempty hnext => exact .waitAt (.empty hempty hnext) _
    | moved hstage =>
      obtain ⟨earlier, limit, page, rfl, hnext, hrecords⟩ := hpath.page hstage
      refine .readOn ?_ _
      rw [List.append_assoc]
      exact .accepted hrecords hnext
    | resumed hstage =>
      obtain ⟨rfl, hstalls⟩ := ih.pausing _ _ _ hstage
      exact .readOn (.paused hstalls) _

/-- A step by which a shard ends takes the walk on to the next one. -/
theorem Path.step_of_endsShard (h : Path settings es w) (hstep : Step settings w e w')
    (hends : e.EndsShard es) : w'.stage.isBetween = true := by
  cases hstep with
  | unlisted | stopped | starved => rfl
  | listed | gone | skipped | ended | closed => exact isBetween_advance _
  | opened | resumed =>
    cases hends with
    | gone hgone => cases hgone
  | retried _ _ hfail =>
    cases hends with
    | gone hgone =>
      rw [Event.saysGone_of_failure hfail] at hgone
      cases hgone
    | empty | accepted => cases hfail
  | idle _ _ hnext =>
    cases hends with
    | gone hgone => cases hgone
    | empty _ hnone =>
      rw [hnext] at hnone
      cases hnone
  | offered _ hrecords =>
    cases hends with
    | gone hgone => cases hgone
    | empty hempty => exact absurd hempty hrecords
  | moved hstage =>
    -- the page that has been accepted is the last one that was fetched, and it has a next cursor
    obtain ⟨earlier, limit, page, hevents, hnext, -⟩ := h.page hstage
    cases hends with
    | gone hgone => cases hgone
    | accepted hpage hnone =>
      rw [hevents] at hpage
      obtain ⟨-, hsame⟩ := List.append_inj' hpage rfl
      cases hsame
      rw [hnext] at hnone
      cases hnone

theorem Path.isBetween_of_atEnd (h : Path settings es w) (hend : AtEnd es) :
    w.stage.isBetween = true := by
  obtain ⟨past, e, hes, hends⟩ := hend
  cases h with
  | start => simp at hes
  | snoc hpath hstep =>
    obtain ⟨rfl, hlast⟩ := List.append_inj' hes rfl
    cases hlast
    exact hpath.step_of_endsShard hstep hends

theorem Path.acquires_of_atEnd (h : Path settings es w) {call : Call}
    (hcall : w.stage.call? = some call) (hend : AtEnd es) : ∃ shard, call = .acquire shard := by
  have hbetween := h.isBetween_of_atEnd hend
  cases hstage : w.stage with
  | acquiring shard =>
    rw [hstage] at hcall
    cases hcall
    exact ⟨shard, rfl⟩
  | finished | failed =>
    rw [hstage] at hcall
    cases hcall
  | describing | fetching | delivering | pausing =>
    rw [hstage] at hbetween
    cases hbetween

theorem Path.opened_prefix (h : Path settings es w) {call : Call} {d : Description}
    (hcall : w.stage.call? = some call) (hhead : es.head? = some ⟨.describe, .ok d⟩) :
    opened es ++ call.opens?.toList <+: lineageOrder d.shards := by
  rw [← h.shards hhead, unopened, Stage.pending_of_call hcall, ← List.append_assoc]
  exact List.prefix_append _ _

theorem Path.opened_nodup (h : Path settings es w) {call : Call} {d : Description}
    (hcall : w.stage.call? = some call) (hhead : es.head? = some ⟨.describe, .ok d⟩)
    (hnodup : (d.shards.map Shard.id).Nodup) :
    ((opened es ++ call.opens?.toList).map Shard.id).Nodup := by
  have horder : ((lineageOrder d.shards).map Shard.id).Nodup :=
    ((lineageOrder_perm d.shards).map Shard.id).nodup_iff.2 hnodup
  exact horder.sublist ((h.opened_prefix hcall hhead).sublist.map Shard.id)

theorem Path.split (h : Path settings es w) {past future : List Event}
    (hes : es = past ++ e :: future) : ∃ v v', Path settings past v ∧ Step settings v e v' := by
  induction h generalizing future with
  | start => cases past <;> cases hes
  | @snoc es last w w' hpath hstep ih =>
    rcases List.eq_nil_or_concat future with rfl | ⟨init, other, rfl⟩
    · obtain ⟨rfl, hlast⟩ := List.append_inj' hes rfl
      cases hlast
      exact ⟨w, w', hpath, hstep⟩
    · rw [List.concat_eq_append, ← List.cons_append, ← List.append_assoc] at hes
      exact ih (List.append_inj' hes rfl).1

/-- The first call after the end of a shard opens another one. -/
theorem Path.opened_of_atEnd (h : Path settings es w) {call : Call}
    (hcall : w.stage.call? = some call) {earlier later : List Event} (hes : es = earlier ++ later)
    (hend : AtEnd earlier) :
    ∃ shard more, opened es ++ call.opens?.toList = opened earlier ++ shard :: more := by
  cases later with
  | nil =>
    obtain rfl : es = earlier := by rw [hes, List.append_nil]
    obtain ⟨shard, rfl⟩ := h.acquires_of_atEnd hcall hend
    exact ⟨shard, [], rfl⟩
  | cons e later =>
    obtain ⟨v, v', hpath, hstep⟩ := h.split hes
    obtain ⟨shard, hopens⟩ := hpath.acquires_of_atEnd hstep.call hend
    have hnew : opened (e :: later) = shard :: opened later := by
      rw [opened, List.filterMap_cons, hopens]
      rfl
    refine ⟨shard, opened later ++ call.opens?.toList, ?_⟩
    rw [hes, opened_append, hnew, List.append_assoc, List.cons_append]

theorem Path.mayFollow (h : Path settings es w) {call : Call} (hcall : w.stage.call? = some call) :
    call.MayFollow settings es where
  describes := by
    rcases h.view with ⟨hstage, rfl⟩ | ⟨err, hstage⟩ | ⟨hstage, d, hhead, -⟩
    · rw [hstage] at hcall
      cases hcall
      exact .inl ⟨rfl, rfl⟩
    · rw [hstage] at hcall
      cases hcall
    · exact .inr ⟨fun heq => hstage (Stage.describing_of_call (heq ▸ hcall)), d, hhead⟩
  opens := by
    rintro shard d rfl hhead
    refine ⟨h.opened_prefix hcall hhead, fun hnodup earlier hearlier => ?_⟩
    have hapart := h.opened_nodup hcall hhead hnodup
    rw [List.map_append, List.nodup_append] at hapart
    exact hapart.2.2 earlier.id (List.mem_map_of_mem hearlier) shard.id (List.mem_singleton.2 rfl)
  fetches := by
    rintro cursor limit rfl
    obtain ⟨shard, hstage⟩ := Stage.fetching_of_call hcall
    exact h.resumes.fetching shard cursor limit hstage
  pauses := by
    rintro duration rfl
    obtain ⟨shard, cursor, hstage⟩ := Stage.pausing_of_call hcall
    obtain ⟨hduration, hstalls⟩ := h.resumes.pausing shard cursor duration hstage
    exact ⟨hduration, cursor, hstalls⟩
  leaves := h.acquires_of_atEnd hcall
  returns := by
    rintro d ended shard hhead hnodup ⟨earlier, later, hes, hend, hlast⟩ hshard
    obtain ⟨first, more, hopened⟩ := h.opened_of_atEnd hcall hes hend
    have hapart := h.opened_nodup hcall hhead hnodup
    have hcurrent := Call.shard?_eq hshard
    rw [hopened, List.getLast?_append_cons] at hcurrent
    rw [hopened, List.map_append, List.nodup_append] at hapart
    exact (hapart.2.2 ended.id (List.mem_map_of_mem (List.mem_of_getLast? hlast)) shard.id
      (List.mem_map_of_mem (List.mem_of_getLast? hcurrent))).symm

theorem Path.events_mayFollow (h : Path settings es w) {past future : List Event}
    (hes : es = past ++ e :: future) : e.call.MayFollow settings past := by
  obtain ⟨v, v', hpath, hstep⟩ := h.split hes
  exact hpath.mayFollow hstep.call

end Walk

/-- **Every call of every run may follow the calls before it**, whatever the engine and the handler
answer: those that have been answered, and the one that has not. -/
theorem Run.steps_mayFollow {World : Type} (env : Environment World) (settings : Settings)
    (world : World) (n : Nat) :
    (∀ past e future, (steps env settings n (start settings world)).events = past ++ e :: future →
      e.call.MayFollow settings past) ∧
    ∀ call, (steps env settings n (start settings world)).walk.stage.call? = some call →
      call.MayFollow settings (steps env settings n (start settings world)).events := by
  have hpath := path env settings world n
  exact ⟨fun _ _ _ hes => hpath.events_mayFollow hes, fun _ hcall => hpath.mayFollow hcall⟩

/-- An engine that is throttled once, sends an empty page once, and has lost its second shard by the
time that it is read and its third one before, with a handler that is busy once. -/
def restlessLog : Environment Nat
  | .describe, t => (some (.ok ⟨[⟨"b", some "a"⟩, ⟨"a", none⟩, ⟨"c", some "b"⟩], none⟩), t + 1)
  | .acquire shard, t =>
    (some (.ok (if shard.id = "c" then none else some ⟨shard.id ++ "/0"⟩)), t + 1)
  | .fetch cursor _, t =>
    (some (match cursor.token with
      | "a/0" =>
        if t < 4 then .error { kind := .throttling, message := "Rate exceeded" }
        else .ok ⟨[], some ⟨"a/1"⟩⟩
      | "a/1" => .ok ⟨[{}], some ⟨"a/2"⟩⟩
      | "a/2" => .ok ⟨[], none⟩
      | _ => .error { kind := .resourceNotFound, message := "Trimmed data" }), t + 1)
  | .deliver _, t => (some (if t < 10 then .error ⟨["busy"]⟩ else .ok ()), t + 1)
  | .pause _, t => (some (), t + 1)

theorem restlessLog_mayFollow :
    (Run.steps restlessLog lenient 15 (.start lenient 0)).events.map Event.call =
      [.describe, .acquire ⟨"a", none⟩, .fetch ⟨"a/0"⟩ 100, .pause 1000, .fetch ⟨"a/0"⟩ 100,
        .pause 1000, .fetch ⟨"a/1"⟩ 100, .deliver [.ofRaw {}], .pause 1000, .fetch ⟨"a/1"⟩ 100,
        .deliver [.ofRaw {}], .fetch ⟨"a/2"⟩ 100, .acquire ⟨"b", some "a"⟩, .fetch ⟨"b/0"⟩ 100,
        .acquire ⟨"c", some "b"⟩] ∧
    (Call.acquire ⟨"b", some "a"⟩).MayFollow lenient
      (Run.steps restlessLog lenient 12 (.start lenient 0)).events ∧
    (Call.pause 1000).MayFollow lenient
      (Run.steps restlessLog lenient 8 (.start lenient 0)).events ∧
    (Call.fetch ⟨"a/1"⟩ 100).MayFollow lenient
      (Run.steps restlessLog lenient 9 (.start lenient 0)).events := by
  obtain ⟨hmade, -⟩ := Run.steps_mayFollow restlessLog lenient 0 13
  obtain ⟨-, hpausing⟩ := Run.steps_mayFollow restlessLog lenient 0 8
  obtain ⟨-, hfetching⟩ := Run.steps_mayFollow restlessLog lenient 0 9
  exact ⟨rfl, hmade _ ⟨.acquire ⟨"b", some "a"⟩, .ok (some ⟨"b/0"⟩)⟩ [] rfl, hpausing _ rfl,
    hfetching _ rfl⟩

end ItemTable.ChangeLog
