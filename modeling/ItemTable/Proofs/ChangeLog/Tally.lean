import ItemTable.Proofs.ChangeLog.CursorDiscipline
import Mathlib.Data.List.DropRight
import Mathlib.Data.List.ModifyLast

/-!
# What the counters of a walk count

The answers of a run fall into visits, one for every shard that has been opened. What is counted can
be read off them: the failures, the batches that the handler has accepted, the visits, and those of
them that have read their shard to its end (`readsToEnd`). `Walk.Path.counted` says that every walk
counts just that, whatever the engine and the handler have answered.
-/
namespace ItemTable.ChangeLog

namespace Event

/-- The batch that the handler has accepted by this answer. -/
def acceptedBatch? : Event → Option (List Record)
  | ⟨.deliver batch, .ok ()⟩ => some batch
  | _ => none

/-- The page that the engine has sent by this answer. -/
def page? : Event → Option RecordPage
  | ⟨.fetch _ _, .ok page⟩ => some page
  | _ => none

/-- Neither a page nor its acceptance: the answer changes nothing about how far a shard is read. -/
def IsIdle (e : Event) : Prop := e.page? = none ∧ e.acceptedBatch? = none

theorem isIdle_of_saysGone {e : Event} (h : e.saysGone = true) : e.IsIdle := by
  obtain ⟨call, answer⟩ := e
  cases call with
  | fetch cursor limit =>
    cases answer with
    | error f => exact ⟨rfl, rfl⟩
    | ok page => cases h
  | acquire shard => exact ⟨rfl, rfl⟩
  | describe | deliver batch | pause => cases h

theorem isIdle_of_failure {e : Event} {err : Error} (h : e.failure? = some err) : e.IsIdle := by
  obtain ⟨call, answer⟩ := e
  cases call with
  | fetch cursor limit =>
    cases answer with
    | error f => exact ⟨rfl, rfl⟩
    | ok page => cases h
  | deliver batch =>
    cases answer with
    | error r => exact ⟨rfl, rfl⟩
    | ok u => cases h
  | acquire shard => exact ⟨rfl, rfl⟩
  | describe | pause => cases h

theorem failure?_of_saysGone {e : Event} (h : e.saysGone = true) : e.failure? = none := by
  cases hfail : e.failure? with
  | none => rfl
  | some err =>
    rw [saysGone_of_failure hfail] at h
    cases h

end Event

/-- The failures of a run, in order. -/
def failures (es : List Event) : List Error := es.filterMap Event.failure?

/-- The batches that the handler has accepted, in order. -/
def acceptedBatches (es : List Event) : List (List Record) := es.filterMap Event.acceptedBatch?

theorem failures_snoc (es : List Event) (e : Event) :
    failures (es ++ [e]) = failures es ++ e.failure?.toList := by
  rw [failures, List.filterMap_append]
  cases h : e.failure? <;> simp [failures, h]

theorem acceptedBatches_snoc (es : List Event) (e : Event) :
    acceptedBatches (es ++ [e]) = acceptedBatches es ++ e.acceptedBatch?.toList := by
  rw [acceptedBatches, List.filterMap_append]
  cases h : e.acceptedBatch? <;> simp [acceptedBatches, h]

theorem accepted_eq_flatten (es : List Event) : accepted es = (acceptedBatches es).flatten := by
  induction es with
  | nil => rfl
  | cons e es ih =>
    rw [accepted, List.flatMap_cons, ← accepted, ih, acceptedBatches, acceptedBatches,
      List.filterMap_cons]
    obtain ⟨call, answer⟩ := e
    cases call with
    | deliver batch =>
      cases answer with
      | error r => rfl
      | ok u => rfl
    | describe | acquire shard | fetch cursor limit | pause => rfl

/-- The answers about shards, visit by visit. A visit starts where a first cursor is asked for. -/
def visits (es : List Event) : List (List Event) :=
  es.foldl (fun past e =>
    if e.call.opens?.isSome then past ++ [[e]] else past.modifyLast (· ++ [e])) []

theorem visits_snoc_of_opens {e : Event} {shard : Shard} (h : e.call = .acquire shard)
    (es : List Event) : visits (es ++ [e]) = visits es ++ [[e]] := by
  rw [visits, List.foldl_append]
  simp [visits, h, Call.opens?]

theorem visits_snoc {es : List Event} {e : Event} {earlier : List (List Event)} {visit : List Event}
    (hopens : e.call.opens? = none) (hlast : visits es = earlier ++ [visit]) :
    visits (es ++ [e]) = earlier ++ [visit ++ [e]] := by
  rw [visits, List.foldl_append, ← visits, hlast]
  simp [hopens, List.modifyLast_concat]

theorem visits_eq_nil {es : List Event} {e : Event} (hopens : e.call.opens? = none)
    (hnil : visits es = []) : visits (es ++ [e]) = [] := by
  rw [visits, List.foldl_append, ← visits, hnil, List.foldl_cons, hopens]
  rfl

/-- The last page of a visit has no next cursor, and it is empty or what was handed on of it has
been accepted. -/
def readsToEnd (visit : List Event) : Bool :=
  match (visit.filterMap Event.page?).getLast? with
  | none => false
  | some page =>
    page.next.isNone && (page.records.isEmpty ||
      (visit.rtakeWhile fun e => e.page?.isNone).any fun e => e.acceptedBatch?.isSome)

theorem readsToEnd_of_isIdle {e : Event} (h : e.IsIdle) (visit : List Event) :
    readsToEnd (visit ++ [e]) = readsToEnd visit := by
  obtain ⟨hpage, haccepted⟩ := h
  have hlast : (visit ++ [e]).filterMap Event.page? = visit.filterMap Event.page? := by
    rw [List.filterMap_append, List.filterMap_cons_none hpage]
    exact List.append_nil _
  have hbehind : (visit ++ [e]).rtakeWhile (fun e => e.page?.isNone) =
      visit.rtakeWhile (fun e => e.page?.isNone) ++ [e] :=
    List.rtakeWhile_concat_pos _ _ _ (by rw [hpage]; rfl)
  rw [readsToEnd, readsToEnd, hlast, hbehind, List.any_append]
  simp [haccepted]

/-- A page that has just come ends its visit only if it is empty. -/
theorem readsToEnd_of_page {e : Event} {page : RecordPage} (h : e.page? = some page)
    (visit : List Event) :
    readsToEnd (visit ++ [e]) = (page.next.isNone && page.records.isEmpty) := by
  have hlast : ((visit ++ [e]).filterMap Event.page?).getLast? = some page := by
    rw [List.filterMap_append, List.filterMap_cons_some h]
    exact List.getLast?_concat
  have hbehind : (visit ++ [e]).rtakeWhile (fun e => e.page?.isNone) = [] :=
    List.rtakeWhile_concat_neg _ _ _ (by rw [h]; simp)
  rw [readsToEnd, hlast, hbehind]
  simp

/-- A page whose records are accepted ends its visit if it has no next cursor. -/
theorem readsToEnd_of_accepted {e e' : Event} {page : RecordPage} {batch : List Record}
    (h : e.page? = some page) (h' : e'.acceptedBatch? = some batch) (hpage : e'.page? = none)
    (visit : List Event) : readsToEnd (visit ++ [e] ++ [e']) = page.next.isNone := by
  have hlast : ((visit ++ [e] ++ [e']).filterMap Event.page?).getLast? = some page := by
    rw [List.filterMap_append, List.filterMap_append, List.filterMap_cons_some h,
      List.filterMap_cons_none hpage]
    simp
  have hbehind : (visit ++ [e] ++ [e']).rtakeWhile (fun e => e.page?.isNone) = [e'] := by
    rw [List.rtakeWhile_concat_pos _ _ _ (by rw [hpage]; rfl),
      List.rtakeWhile_concat_neg _ _ _ (by rw [h]; simp)]
    rfl
  rw [readsToEnd, hlast, hbehind]
  simp [h']

/-- How many visits have read their shard to its end. -/
def readVisits (es : List Event) : Nat := (visits es).countP readsToEnd

theorem readVisits_of_isIdle {e : Event} (h : e.IsIdle) (es : List Event) :
    readVisits (es ++ [e]) = readVisits es := by
  rw [readVisits, readVisits]
  cases hopens : e.call.opens? with
  | some shard =>
    have hcall : e.call = .acquire shard := by
      obtain ⟨call, answer⟩ := e
      cases call <;> cases hopens
      rfl
    have hnone : readsToEnd [e] = false := readsToEnd_of_isIdle h []
    rw [visits_snoc_of_opens hcall, List.countP_append, List.countP_cons_of_neg (by simp [hnone])]
    rfl
  | none =>
    rcases List.eq_nil_or_concat (visits es) with hnil | ⟨earlier, visit, hlast⟩
    · rw [visits_eq_nil hopens hnil, hnil]
    · rw [List.concat_eq_append] at hlast
      rw [visits_snoc hopens hlast, hlast, List.countP_append, List.countP_append,
        List.countP_cons, List.countP_cons, readsToEnd_of_isIdle h]

/-- A shard is being visited that has not been read to its end. -/
structure IsVisiting (es : List Event) (shard : Shard) : Prop where
  last : (opened es).getLast? = some shard
  unread : ∃ earlier visit, visits es = earlier ++ [visit] ∧ readsToEnd visit = false

namespace IsVisiting

variable {es : List Event} {shard : Shard} {e : Event}

theorem start (es : List Event) (shard : Shard) (cursor : Option Cursor) :
    IsVisiting (es ++ [⟨.acquire shard, .ok cursor⟩]) shard where
  last := by
    rw [opened_append]
    exact List.getLast?_concat
  unread := ⟨visits es, _, visits_snoc_of_opens rfl es, rfl⟩

/-- What an answer makes of a visit decides about the count of the visits that are read to their
end. -/
theorem snoc (h : IsVisiting es shard) (hopens : e.call.opens? = none) {read : Bool}
    (hread : ∀ earlier visit, visits es = earlier ++ [visit] → readsToEnd visit = false →
      readsToEnd (visit ++ [e]) = read) :
    readVisits (es ++ [e]) = readVisits es + read.toNat ∧
      (read = false → IsVisiting (es ++ [e]) shard) := by
  obtain ⟨earlier, visit, hlast, hunread⟩ := h.unread
  have hnow := hread earlier visit hlast hunread
  constructor
  · rw [readVisits, readVisits, visits_snoc hopens hlast, hlast, List.countP_append,
      List.countP_append, List.countP_singleton, List.countP_singleton, hunread, hnow]
    cases read <;> rfl
  · rintro rfl
    refine ⟨?_, earlier, _, visits_snoc hopens hlast, hnow⟩
    have hnone : opened [e] = [] := List.filterMap_cons_none hopens
    rw [opened_append, hnone, List.append_nil]
    exact h.last

theorem idle (h : IsVisiting es shard) (hopens : e.call.opens? = none) (hidle : e.IsIdle) :
    IsVisiting (es ++ [e]) shard :=
  (h.snoc hopens fun _ visit _ hunread => (readsToEnd_of_isIdle hidle visit).trans hunread).2 rfl

theorem page (h : IsVisiting es shard) (cursor : Cursor) (limit : Nat) (page : RecordPage) :
    readVisits (es ++ [⟨.fetch cursor limit, .ok page⟩]) =
        readVisits es + (page.next.isNone && page.records.isEmpty).toNat ∧
      ((page.next.isNone && page.records.isEmpty) = false →
        IsVisiting (es ++ [⟨.fetch cursor limit, .ok page⟩]) shard) :=
  h.snoc rfl fun _ visit _ _ => readsToEnd_of_page rfl visit

theorem accepted {cursor : Cursor} {limit : Nat} {page : RecordPage}
    (h : IsVisiting (es ++ [⟨.fetch cursor limit, .ok page⟩]) shard) (batch : List Record) :
    readVisits (es ++ [⟨.fetch cursor limit, .ok page⟩] ++ [⟨.deliver batch, .ok ()⟩]) =
        readVisits (es ++ [⟨.fetch cursor limit, .ok page⟩]) + page.next.isNone.toNat ∧
      (page.next.isNone = false →
        IsVisiting (es ++ [⟨.fetch cursor limit, .ok page⟩] ++
          [⟨.deliver batch, .ok ()⟩]) shard) := by
  refine h.snoc rfl fun earlier visit hlast _ => ?_
  -- the visit ends with the page that has come last
  obtain ⟨before, rfl⟩ : ∃ before, visit = before ++ [⟨.fetch cursor limit, .ok page⟩] := by
    rcases List.eq_nil_or_concat (visits es) with hnil | ⟨others, before, hbefore⟩
    · rw [visits_eq_nil rfl hnil] at hlast
      exact absurd hlast.symm (List.append_ne_nil_of_right_ne_nil _ (List.cons_ne_nil _ _))
    · rw [List.concat_eq_append] at hbefore
      rw [visits_snoc rfl hbefore] at hlast
      exact ⟨before, (List.cons.inj (List.append_inj' hlast rfl).2).1.symm⟩
  exact readsToEnd_of_accepted rfl rfl rfl before

end IsVisiting

/-- The counters are those that the answers show. -/
structure Summary.Counts (s : Summary) (es : List Event) : Prop where
  batches : s.batches = (acceptedBatches es).length
  visited : s.visited = (opened es).length
  exhausted : s.exhausted = readVisits es
  recovered : s.recovered = (failures es).length

/-- The shard that a walk has a cursor of. -/
def Stage.entered? : Stage → Option Shard
  | fetching shard _ _ | delivering shard _ _ _ | pausing shard _ _ => some shard
  | describing | acquiring _ | finished | failed _ => none

namespace Walk

variable {settings : Settings} {es : List Event} {w w' : Walk} {e : Event}

/-- The counters agree with the answers, up to the visit that is about to start and the failure that
has ended the walk. -/
structure Counted (es : List Event) (w : Walk) : Prop where
  batches : w.summary.batches = (acceptedBatches es).length
  visited : w.summary.visited = (opened es ++ w.stage.pending).length
  exhausted : w.summary.exhausted = readVisits es
  recovered : (∀ err, w.stage ≠ .failed err) → w.summary.recovered = (failures es).length
  visiting : ∀ shard, w.stage.entered? = some shard → IsVisiting es shard

theorem Counted.of_counts (h : w.summary.Counts es) (hpending : w.stage.pending = [])
    (hvisiting : ∀ shard, w.stage.entered? = some shard → IsVisiting es shard) : Counted es w where
  batches := h.batches
  visited := by rw [hpending, List.append_nil]; exact h.visited
  exhausted := h.exhausted
  recovered := fun _ => h.recovered
  visiting := hvisiting

theorem Counted.advance (h : w.summary.Counts es) : Counted es w.advance := by
  rcases advance_cases w with ⟨heq, -⟩ | ⟨shard, rest, -, -, heq⟩ <;> rw [heq]
  · exact .of_counts h rfl fun _ hshard => by cases hshard
  · refine ⟨h.batches, ?_, h.exhausted, fun _ => h.recovered, fun _ hshard => by cases hshard⟩
    rw [List.length_append, ← h.visited]
    rfl

theorem Counted.readOn (h : w.summary.Counts es) {shard : Shard} (hvisiting : IsVisiting es shard)
    (cursor : Cursor) : Counted es (w.readOn settings shard cursor) := by
  rcases readOn_cases settings w shard cursor with ⟨heq, -⟩ | ⟨heq, -⟩ <;> rw [heq]
  · exact .of_counts h rfl fun _ hshard => by cases hshard
  · refine .of_counts h rfl fun _ hshard => ?_
    cases hshard
    exact hvisiting

/-- Waiting calls for no other cursor than the one of the shard that is being visited. -/
theorem Counted.waitAt (h : w.summary.Counts es) {shard : Shard} (hvisiting : IsVisiting es shard)
    (cursor : Cursor) : Counted es (w.waitAt settings shard cursor) := by
  refine .of_counts h rfl fun _ hshard => ?_
  cases hshard
  exact hvisiting

theorem Step.stage_ne_failed (h : Step settings w e w') (err : Error) : w.stage ≠ .failed err := by
  intro hstage
  have hcall := h.call
  rw [hstage] at hcall
  cases hcall

/-- An answer without page, acceptance and failure leaves the counters right. -/
theorem Counted.quiet (h : Counted es w) (hstep : Step settings w e w') (hidle : e.IsIdle)
    (hfail : e.failure? = none) : w.summary.Counts (es ++ [e]) where
  batches := by
    rw [acceptedBatches_snoc, hidle.2, Option.toList_none, List.append_nil]
    exact h.batches
  visited := by rw [opened_snoc hstep]; exact h.visited
  exhausted := (readVisits_of_isIdle hidle es).symm ▸ h.exhausted
  recovered := by
    rw [failures_snoc, hfail, Option.toList_none, List.append_nil]
    exact h.recovered hstep.stage_ne_failed

/-- A failure is to be counted. -/
theorem Counted.noted (h : Counted es w) (hstep : Step settings w e w') {err : Error}
    (hfail : e.failure? = some err) : w.noteFailure.summary.Counts (es ++ [e]) where
  batches := by
    rw [acceptedBatches_snoc, (Event.isIdle_of_failure hfail).2, Option.toList_none,
      List.append_nil]
    exact h.batches
  visited := by rw [opened_snoc hstep]; exact h.visited
  exhausted := (readVisits_of_isIdle (Event.isIdle_of_failure hfail) es).symm ▸ h.exhausted
  recovered := by
    rw [failures_snoc, hfail, Option.toList_some, List.length_append,
      ← h.recovered hstep.stage_ne_failed]
    rfl

/-- A page leaves all counters but one right: it has ended its visit if it is empty and the last
one. -/
theorem Counted.page (h : Counted es w) {shard : Shard} {cursor : Cursor} {limit : Nat}
    {page : RecordPage} (hstage : w.stage = .fetching shard cursor limit)
    (hstep : Step settings w ⟨.fetch cursor limit, .ok page⟩ w') :
    Summary.Counts { w.summary with
        exhausted := w.summary.exhausted + (page.next.isNone && page.records.isEmpty).toNat }
      (es ++ [⟨.fetch cursor limit, .ok page⟩]) where
  batches := by rw [acceptedBatches_snoc, List.length_append]; exact h.batches
  visited := by rw [opened_snoc hstep]; exact h.visited
  exhausted := by
    rw [((h.visiting shard (by rw [hstage]; rfl)).page cursor limit page).1, ← h.exhausted]
  recovered := by
    rw [failures_snoc, List.length_append]
    exact h.recovered hstep.stage_ne_failed

theorem Counted.accepted {cursor : Cursor} {limit : Nat} {page : RecordPage} {shard : Shard}
    {batch : List Record} {next : Option Cursor}
    (h : Counted (es ++ [⟨.fetch cursor limit, .ok page⟩]) w)
    (hstage : w.stage = .delivering shard cursor batch next)
    (hstep : Step settings w ⟨.deliver batch, .ok ()⟩ w') (hnext : page.next = next) :
    Summary.Counts { (w.credit batch.length).summary with
        exhausted := w.summary.exhausted + next.isNone.toNat }
      (es ++ [⟨.fetch cursor limit, .ok page⟩] ++ [⟨.deliver batch, .ok ()⟩]) where
  batches := by
    rw [acceptedBatches_snoc, List.length_append, ← h.batches]
    rfl
  visited := by rw [opened_snoc hstep]; exact h.visited
  exhausted := by
    rw [((h.visiting shard (by rw [hstage]; rfl)).accepted batch).1, ← h.exhausted, hnext]
  recovered := by
    rw [failures_snoc, List.length_append]
    exact h.recovered hstep.stage_ne_failed

/-- Every step keeps the counters in agreement with the answers. -/
theorem Counted.step (h : Counted es w) (hpath : Path settings es w)
    (hstep : Step settings w e w') :
    Counted (es ++ [e]) w' := by
  have hstep' := hstep
  cases hstep with
  | unlisted hstage =>
    have hcounts := h.quiet hstep' ⟨rfl, rfl⟩ rfl
    exact .of_counts hcounts rfl fun _ hshard => by cases hshard
  | listed hstage => exact .advance (h.quiet hstep' ⟨rfl, rfl⟩ rfl)
  | opened hstage => exact .readOn (h.quiet hstep' ⟨rfl, rfl⟩ rfl) (.start es _ _) _
  | gone hcall hgone =>
    exact .advance (h.quiet hstep' (Event.isIdle_of_saysGone hgone)
      (Event.failure?_of_saysGone hgone))
  | stopped hcall hfail =>
    have hcounts := h.noted hstep' hfail
    refine ⟨hcounts.batches, ?_, hcounts.exhausted, fun hne => absurd rfl (hne _),
      fun _ hshard => by cases hshard⟩
    show w.summary.visited = (opened (es ++ [e]) ++ []).length
    rw [List.append_nil]
    exact hcounts.visited
  | @skipped shard f hstage hkind =>
    have hfail : (⟨.acquire shard, .error f⟩ : Event).failure? = some (.engine f) := by
      simp [Event.failure?, hkind]
    exact .advance (h.noted hstep' hfail)
  | @retried _ _ shard cursor hcall hreading hfail =>
    have hentered : w.stage.entered? = some shard := by
      cases hstage : w.stage <;> rw [hstage] at hreading <;> cases hreading <;> rfl
    have hopens : e.call.opens? = none := by
      cases hstage : w.stage <;> rw [hstage] at hreading hcall <;> cases hreading <;>
        rw [← Option.some.inj hcall] <;> rfl
    have hvisiting := (h.visiting shard hentered).idle hopens (Event.isIdle_of_failure hfail)
    have hcounts : w.giveBack.noteFailure.summary.Counts (es ++ [e]) := h.noted hstep' hfail
    exact .waitAt hcounts hvisiting cursor
  | ended hstage hempty hnext =>
    have hcounts := h.page hstage hstep'
    rw [hempty, hnext] at hcounts
    exact .advance hcounts
  | @idle shard cursor limit page next hstage hempty hnext =>
    have hcounts := h.page hstage hstep'
    have hvisiting := ((h.visiting shard (by rw [hstage]; rfl)).page cursor limit page).2
      (by rw [hnext]; rfl)
    rw [hnext] at hcounts
    exact .waitAt hcounts hvisiting next
  | @offered shard cursor limit page _ _ hstage hrecords =>
    have hcounts := h.page hstage hstep'
    have hfull : (page.next.isNone && page.records.isEmpty) = false := by
      rw [List.isEmpty_eq_false_iff.2 hrecords, Bool.and_false]
    have hvisiting := ((h.visiting shard (by rw [hstage]; rfl)).page cursor limit page).2 hfull
    rw [hfull] at hcounts
    refine .of_counts hcounts rfl fun _ hshard => ?_
    cases hshard
    exact hvisiting
  | starved hstage hrecords =>
    have hcounts := h.page hstage hstep'
    rw [List.isEmpty_eq_false_iff.2 hrecords, Bool.and_false] at hcounts
    exact .of_counts hcounts rfl fun _ hshard => by cases hshard
  | closed hstage =>
    obtain ⟨earlier, limit, page, rfl, hnext, -⟩ := hpath.page hstage
    exact .advance (h.accepted hstage hstep' hnext)
  | @moved shard cursor batch next hstage =>
    obtain ⟨earlier, limit, page, rfl, hnext, -⟩ := hpath.page hstage
    have hvisiting := ((h.visiting shard (by rw [hstage]; rfl)).accepted batch).2
      (by rw [hnext]; rfl)
    exact .readOn (h.accepted hstage hstep' hnext) hvisiting next
  | @resumed shard cursor duration hstage =>
    have hvisiting :=
      (h.visiting shard (by rw [hstage]; rfl)).idle (e := ⟨.pause duration, ()⟩) rfl ⟨rfl, rfl⟩
    exact .readOn (h.quiet hstep' ⟨rfl, rfl⟩ rfl) hvisiting cursor

theorem Path.counted (h : Path settings es w) : Counted es w := by
  induction h with
  | start => exact ⟨rfl, rfl, rfl, fun _ => rfl, fun _ hshard => by cases hshard⟩
  | snoc hpath hstep ih => exact ih.step hpath hstep

end Walk

end ItemTable.ChangeLog
