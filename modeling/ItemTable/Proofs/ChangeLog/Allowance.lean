import ItemTable.Proofs.ChangeLog.Path
import Mathlib.Data.List.Forall2

/-!
# What a walk may ask for and hand on

The engine need not keep to the limit of a fetch, and the handler may send any number of batches
back. The budget still counts exactly the records that the handler has accepted or holds
(`Budget.Holds`), and `Run.steps_withinBudget` says what follows for the calls of every run.
-/
namespace ItemTable.ChangeLog

/-- How many records may be fetched at once after a number of accepted ones. -/
def Settings.allowance (settings : Settings) (taken : Nat) : Nat :=
  match settings.maxRecords with
  | none => settings.batchSize
  | some most => min settings.batchSize (most - taken)

theorem Settings.of_check {settings : Settings} (h : settings.check = .ok ()) :
    1 ≤ settings.batchSize ∧ settings.batchSize ≤ maxBatchSize ∧ settings.maxRecords ≠ some 0 := by
  unfold check at h
  split at h
  · cases h
  · next hsize =>
    split at h
    · cases h
    · next hmost =>
      have hsize := Decidable.not_not.1 hsize
      exact ⟨hsize.1, hsize.2, hmost⟩

namespace Budget

theorem reserve_of_unlimited {b : Budget} (h : b.limit = none) (wanted : Nat) :
    b.reserve wanted = (wanted, { b with used := (b.used + wanted) % countBound }) := by
  simp [reserve, h]

theorem reserve_of_limited {b : Budget} {limit : Nat} (h : b.limit = some limit) (wanted : Nat) :
    b.reserve wanted =
      (min wanted (limit - b.used),
        { b with used := b.used + min wanted (limit - b.used) }) := by
  simp [reserve, h]

/-- The budget after `taken` accepted records, with `held` more at the handler. Without a limit the
count is that of a machine word, and says nothing once a batch could carry it past its bound. -/
structure Holds (settings : Settings) (taken held : Nat) (b : Budget) : Prop where
  limit : b.limit = settings.maxRecords
  held_le : held ≤ settings.batchSize
  within : ∀ most, settings.maxRecords = some most → taken + held ≤ most
  used : b.used = taken + held ∨
    settings.maxRecords = none ∧ countBound ≤ taken + settings.batchSize

namespace Holds

variable {settings : Settings} {taken held : Nat} {b : Budget}

theorem start (settings : Settings) : Holds settings 0 0 { limit := settings.maxRecords } where
  limit := rfl
  held_le := Nat.zero_le _
  within := fun most _ => Nat.zero_le most
  used := .inl rfl

theorem used_eq (h : Holds settings taken held b) {most : Nat}
    (hmost : settings.maxRecords = some most) : b.used = taken + held := by
  rcases h.used with hused | ⟨hnone, _⟩
  · exact hused
  · rw [hmost] at hnone
    cases hnone

/-- The budget is spent when as many records are accepted as were asked for. -/
theorem isExhausted_iff (h : Holds settings taken 0 b) :
    b.isExhausted = true ↔ settings.maxRecords = some taken := by
  cases hmost : settings.maxRecords with
  | none => simp [isExhausted, remaining, h.limit, hmost]
  | some most =>
    have hused := h.used_eq hmost
    have hwithin := h.within most hmost
    simp only [isExhausted, remaining, h.limit, hmost, hused, Option.map_some, beq_iff_eq,
      Option.some.injEq]
    omega

theorem fetchLimit_eq (h : Holds settings taken 0 b) :
    b.fetchLimit settings.batchSize = settings.allowance taken := by
  cases hmost : settings.maxRecords with
  | none => simp [fetchLimit, remaining, h.limit, Settings.allowance, hmost]
  | some most =>
    have hused := h.used_eq hmost
    simp only [fetchLimit, remaining, h.limit, hmost, hused, Option.map_some, Settings.allowance]
    exact Nat.min_comm _ _

/-- While the budget is not spent, a fetch asks for something and never for more than a batch. -/
theorem allowance_bounds (h : Holds settings taken 0 b) (hleft : b.isExhausted = false)
    (hsize : 1 ≤ settings.batchSize) :
    1 ≤ settings.allowance taken ∧ settings.allowance taken ≤ settings.batchSize := by
  have hne : settings.maxRecords ≠ some taken := fun hmost => by
    rw [(h.isExhausted_iff).2 hmost] at hleft
    cases hleft
  unfold Settings.allowance
  cases hmost : settings.maxRecords with
  | none => exact ⟨hsize, Nat.le_refl _⟩
  | some most =>
    have hwithin := h.within most hmost
    have hlt : most ≠ taken := fun heq => hne (by rw [hmost, heq])
    exact ⟨Nat.le_min.2 ⟨hsize, by omega⟩, Nat.min_le_left _ _⟩

/-- What a fetch may ask for is granted in full. -/
theorem reserve (h : Holds settings taken 0 b) {wanted : Nat}
    (hwanted : wanted ≤ settings.allowance taken) :
    (b.reserve wanted).1 = wanted ∧ Holds settings taken wanted (b.reserve wanted).2 := by
  unfold Settings.allowance at hwanted
  cases hmost : settings.maxRecords with
  | none =>
    simp only [hmost] at hwanted
    rw [reserve_of_unlimited (h.limit.trans hmost)]
    refine ⟨rfl, h.limit, hwanted, fun most heq => by simp [hmost] at heq, ?_⟩
    by_cases hover : countBound ≤ taken + settings.batchSize
    · exact .inr ⟨hmost, hover⟩
    · left
      have hused : b.used = taken := h.used.resolve_right fun hor => hover hor.2
      show (b.used + wanted) % countBound = taken + wanted
      rw [hused, Nat.mod_eq_of_lt (by omega)]
  | some most =>
    simp only [hmost] at hwanted
    have hused : b.used = taken := h.used_eq hmost
    have hgranted : min wanted (most - b.used) = wanted := by omega
    have hwithin := h.within most hmost
    rw [reserve_of_limited (h.limit.trans hmost), hgranted]
    refine ⟨rfl, h.limit, by omega, fun m hm => ?_, .inl ?_⟩
    · rw [hmost] at hm
      cases hm
      omega
    · show b.used + wanted = taken + wanted
      rw [hused]

theorem release (h : Holds settings taken held b) : Holds settings taken 0 (b.release held) where
  limit := h.limit
  held_le := Nat.zero_le _
  within := fun most hmost => Nat.le_trans (Nat.le_add_right _ _) (h.within most hmost)
  used := by
    rcases h.used with hused | hover
    · left
      simp only [Budget.release, hused]
      omega
    · exact .inr hover

theorem accept (h : Holds settings taken held b) : Holds settings (taken + held) 0 b where
  limit := h.limit
  held_le := Nat.zero_le _
  within := h.within
  used := by
    rcases h.used with hused | ⟨hnone, hover⟩
    · exact .inl hused
    · exact .inr ⟨hnone, by omega⟩

end Holds

end Budget

namespace Walk

variable {settings : Settings} {es : List Event} {w : Walk}

/-- The counters of a walk agree with the events that led to it. -/
structure Metered (settings : Settings) (es : List Event) (w : Walk) : Prop where
  processed : w.summary.processed = (accepted es).length
  holds : w.budget.Holds settings (accepted es).length w.stage.held
  entering : ∀ shard, w.stage = .acquiring shard → w.budget.isExhausted = false
  asking : ∀ shard cursor limit, w.stage = .fetching shard cursor limit →
    w.budget.isExhausted = false ∧ limit = settings.allowance (accepted es).length

/-- The counters agree, and nothing is at the handler. -/
structure Settled (settings : Settings) (es : List Event) (w : Walk) : Prop where
  processed : w.summary.processed = (accepted es).length
  holds : w.budget.Holds settings (accepted es).length 0

/-- Nothing more is to agree while no call to the engine about a shard is pending. -/
theorem Settled.metered (h : Settled settings es w) (hheld : w.stage.held = 0)
    (hacquire : ∀ shard, w.stage ≠ .acquiring shard)
    (hfetch : ∀ shard cursor limit, w.stage ≠ .fetching shard cursor limit) :
    Metered settings es w where
  processed := h.processed
  holds := hheld ▸ h.holds
  entering := fun shard heq => absurd heq (hacquire shard)
  asking := fun shard cursor limit heq => absurd heq (hfetch shard cursor limit)

theorem Settled.finish (h : Settled settings es w) : Metered settings es w.finish :=
  Settled.metered ⟨h.processed, h.holds⟩ rfl (by simp) (by simp)

theorem Settled.fail (h : Settled settings es w) (err : Error) :
    Metered settings es (w.fail err) :=
  Settled.metered ⟨h.processed, h.holds⟩ rfl (by simp) (by simp)

theorem Settled.waitAt (h : Settled settings es w) (shard : Shard) (cursor : Cursor) :
    Metered settings es (w.waitAt settings shard cursor) :=
  Settled.metered ⟨h.processed, h.holds⟩ rfl (by simp) (by simp)

theorem Settled.advance (h : Settled settings es w) : Metered settings es w.advance := by
  rcases advance_cases w with ⟨heq, -⟩ | ⟨shard, rest, -, hleft, heq⟩
  · rw [heq]
    exact h.finish
  · rw [heq]
    exact ⟨h.processed, h.holds, fun _ _ => hleft, by simp⟩

theorem Settled.exhaust (h : Settled settings es w) : Metered settings es w.exhaust :=
  Settled.advance ⟨h.processed, h.holds⟩

theorem Settled.readOn (h : Settled settings es w) (shard : Shard) (cursor : Cursor) :
    Metered settings es (w.readOn settings shard cursor) := by
  rcases readOn_cases settings w shard cursor with ⟨heq, -⟩ | ⟨heq, hleft⟩
  · rw [heq]
    exact h.finish
  · rw [heq]
    refine ⟨h.processed, h.holds, by simp, fun s c l hstage => ?_⟩
    cases hstage
    exact ⟨hleft, h.holds.fetchLimit_eq⟩

theorem Metered.settled (h : Metered settings es w) (hheld : w.stage.held = 0) {e : Event}
    (he : e.accepted = []) : Settled settings (es ++ [e]) w where
  processed := by rw [accepted_snoc, he, List.append_nil]; exact h.processed
  holds := by rw [accepted_snoc, he, List.append_nil]; exact hheld ▸ h.holds

theorem Metered.giveBack (h : Metered settings es w) {e : Event} (he : e.accepted = []) :
    Settled settings (es ++ [e]) w.giveBack where
  processed := by rw [accepted_snoc, he, List.append_nil]; exact h.processed
  holds := by rw [accepted_snoc, he, List.append_nil]; exact h.holds.release

theorem Metered.credit (h : Metered settings es w) {shard : Shard} {cursor : Cursor}
    {batch : List Record} {next : Option Cursor}
    (hstage : w.stage = .delivering shard cursor batch next) :
    Settled settings (es ++ [⟨.deliver batch, .ok ()⟩]) (w.credit batch.length) where
  processed := by
    rw [accepted_snoc, List.length_append, ← h.processed]
    rfl
  holds := by
    rw [accepted_snoc, List.length_append]
    have hholds := h.holds
    rw [hstage] at hholds
    exact hholds.accept

theorem Metered.start (settings : Settings) : Metered settings [] (.start settings) where
  processed := rfl
  holds := Budget.Holds.start settings
  entering := fun _ h => by cases h
  asking := fun _ _ _ h => by cases h

/-- Taking the records of a page moves them from the budget to the handler. -/
theorem Metered.reserve (h : Metered settings es w) {shard : Shard} {cursor : Cursor}
    {limit count granted : Nat} {budget : Budget} (hstage : w.stage = .fetching shard cursor limit)
    (hreserve : w.budget.reserve (min count limit) = (granted, budget)) :
    granted = min count limit ∧
      budget.Holds settings (accepted es).length granted := by
  have hholds := h.holds
  rw [hstage] at hholds
  obtain ⟨-, hlimit⟩ := h.asking shard cursor limit hstage
  have hwanted : min count limit ≤ settings.allowance (accepted es).length :=
    hlimit ▸ Nat.min_le_right _ _
  have hall := hholds.reserve hwanted
  rw [hreserve] at hall
  have hgranted : granted = min count limit := hall.1
  refine ⟨hgranted, ?_⟩
  rw [hgranted]
  exact hall.2

/-- Every step keeps the counters in agreement with the events. -/
theorem Metered.step (h : Metered settings es w) {e : Event} {w' : Walk}
    (hstep : Step settings w e w') : Metered settings (es ++ [e]) w' := by
  cases hstep with
  | unlisted hstage => exact (h.settled (by rw [hstage]; rfl) rfl).fail _
  | @listed d hstage =>
    have hsettled := h.settled (e := ⟨.describe, .ok d⟩) (by rw [hstage]; rfl) rfl
    exact Settled.advance ⟨hsettled.processed, hsettled.holds⟩
  | opened hstage => exact (h.settled (by rw [hstage]; rfl) rfl).readOn _ _
  | gone hcall hgone =>
    have hheld : w.stage.held = 0 := by
      obtain ⟨shard, hstage | ⟨cursor, limit, hstage⟩⟩ := Stage.asking_of_saysGone hcall hgone <;>
        rw [hstage] <;> rfl
    exact (h.settled hheld (Event.accepted_of_saysGone hgone)).advance
  | stopped _ hfail => exact (h.giveBack (Event.accepted_of_failure hfail)).fail _
  | @skipped shard f hstage =>
    have hsettled := h.settled (e := ⟨.acquire shard, .error f⟩) (by rw [hstage]; rfl) rfl
    exact Settled.advance ⟨hsettled.processed, hsettled.holds⟩
  | retried _ _ hfail =>
    have hsettled := h.giveBack (Event.accepted_of_failure hfail)
    have hnoted : Settled settings (es ++ [e]) w.giveBack.noteFailure :=
      ⟨hsettled.processed, hsettled.holds⟩
    exact hnoted.waitAt _ _
  | ended hstage => exact (h.settled (by rw [hstage]; rfl) rfl).exhaust
  | idle hstage => exact (h.settled (by rw [hstage]; rfl) rfl).waitAt _ _
  | @offered shard cursor limit page granted budget hstage _ hreserve _ =>
    obtain ⟨hgranted, hbudget⟩ := h.reserve hstage hreserve
    have hlength : (w.batchOf (page.records.take granted)).length = granted := by
      rw [batchOf, List.length_map, List.length_take, hgranted]
      omega
    have hsettled := h.settled (e := ⟨.fetch cursor limit, .ok page⟩) (by rw [hstage]; rfl) rfl
    refine ⟨hsettled.processed, ?_, by simp, by simp⟩
    rw [accepted_snoc, List.length_append]
    show budget.Holds settings (_ + 0) (w.batchOf (page.records.take granted)).length
    rw [hlength]
    exact hbudget
  | @starved shard cursor limit page budget hstage _ hreserve =>
    obtain ⟨-, hbudget⟩ := h.reserve hstage hreserve
    have hsettled := h.settled (e := ⟨.fetch cursor limit, .ok page⟩) (by rw [hstage]; rfl) rfl
    refine ⟨hsettled.processed, ?_, by simp, by simp⟩
    rw [accepted_snoc, List.length_append]
    exact hbudget
  | closed hstage => exact (h.credit hstage).exhaust
  | moved hstage => exact (h.credit hstage).readOn _ _
  | resumed hstage => exact (h.settled (by rw [hstage]; rfl) rfl).readOn _ _

theorem Path.metered (h : Path settings es w) : Metered settings es w := by
  induction h with
  | start => exact .start settings
  | snoc _ hstep ih => exact ih.step hstep

/-- A batch at the handler comes from the page fetched last. -/
theorem Path.delivering (h : Path settings es w) {shard : Shard} {cursor : Cursor}
    {batch : List Record} {next : Option Cursor}
    (hstage : w.stage = .delivering shard cursor batch next) :
    ∃ earlier limit page, es = earlier ++ [⟨.fetch cursor limit, .ok page⟩] ∧
      page.next = next ∧ batch ≠ [] ∧ batch = w.batchOf (page.records.take limit) := by
  cases h with
  | start => cases hstage
  | @snoc es e w _ hpath hstep =>
    cases hstep with
    | @offered shard cursor limit page granted budget hfetch hrecords hreserve hgranted =>
      cases hstage
      obtain ⟨hcount, -⟩ := hpath.metered.reserve hfetch hreserve
      have htake : page.records.take granted = page.records.take limit := by
        rw [hcount, Nat.min_comm, ← List.take_eq_take_min]
      refine ⟨es, limit, page, rfl, rfl, ?_, by rw [htake]; rfl⟩
      simp only [batchOf, ne_eq, List.map_eq_nil_iff, List.take_eq_nil_iff, not_or]
      exact ⟨hgranted, hrecords⟩
    | unlisted | stopped | retried | idle | starved => cases hstage
    | listed | gone | skipped | ended | closed =>
      exact absurd hstage (advance_stage_ne_delivering _ _ _ _ _)
    | opened | moved | resumed => exact absurd hstage (readOn_stage_ne_delivering _ _ _ _ _ _ _)

end Walk

namespace Record

/-- A raw record as the handler gets it from a log of a view. -/
def handedOn (view : Option ViewType) (raw : RawRecord) : Record := .ofRaw (raw.withView view)

/-- A record carries a change. A size that is not given, or is negative, is none. -/
structure Carries (change : RawChange) (record : Record) : Prop where
  keys : record.keys = change.keys
  newImage : record.newImage = change.newImage
  oldImage : record.oldImage = change.oldImage
  sequence : record.sequence = change.sequence.getD ""
  size : record.size = (change.size.getD 0).toNat

/-- A record is what a log of a view hands on for a raw one. Its body says which view it has; where
it does not the log does, and where neither does, or there is no body, it is that of the keys. -/
structure HandsOn (log : Option ViewType) (raw : RawRecord) (record : Record) : Prop where
  id : record.id = raw.id.getD ""
  kind : record.kind = raw.kind
  version : record.version = raw.version.getD ""
  source : record.source = raw.source.getD ""
  region : record.region = raw.region.getD ""
  identity : record.identity = raw.identity
  body : ∀ change, raw.change = some change → record.Carries change
  bodiless : raw.change = none → record.Carries {} ∧ record.view = .keysOnly
  said : ∀ change view, raw.change = some change → change.view = some view → record.view = view
  unsaid : ∀ change view, raw.change = some change → change.view = none → log = some view →
    record.view = view
  unknown : ∀ change, raw.change = some change → change.view = none → log = none →
    record.view = .keysOnly

theorem handsOn_handedOn (log : Option ViewType) (raw : RawRecord) :
    HandsOn log raw (handedOn log raw) where
  id := rfl
  kind := rfl
  version := rfl
  source := rfl
  region := rfl
  identity := rfl
  body := fun change hchange => by
    constructor <;> simp [handedOn, RawRecord.withView, ofRaw, hchange]
  bodiless := fun hchange => by
    refine ⟨?_, by simp [handedOn, RawRecord.withView, ofRaw, hchange, ViewType.default]⟩
    constructor <;> simp [handedOn, RawRecord.withView, ofRaw, hchange]
  said := fun change view hchange hview => by
    simp [handedOn, RawRecord.withView, ofRaw, hchange, hview]
  unsaid := fun change view hchange hview hlog => by
    simp [handedOn, RawRecord.withView, ofRaw, hchange, hview, hlog]
  unknown := fun change hchange hview hlog => by
    simp [handedOn, RawRecord.withView, ofRaw, hchange, hview, hlog, ViewType.default]

end Record

/-- What the budget guarantees about a run at any point. -/
structure Run.WithinBudget {World : Type} (settings : Settings) (r : Run World) : Prop where
  /-- A fetch asks for as many records as may still be taken, and for one at least. -/
  asking : ∀ cursor limit, r.walk.stage.call? = some (.fetch cursor limit) →
    limit = settings.allowance (accepted r.events).length ∧
      1 ≤ limit ∧ limit ≤ settings.batchSize
  /-- Whatever page comes, some of its records are granted. -/
  granting : ∀ cursor limit (page : RecordPage),
    r.walk.stage.call? = some (.fetch cursor limit) → page.records ≠ [] →
      (r.walk.budget.reserve (min page.records.length limit)).1 ≠ 0
  /-- A batch holds the first records of the page that has just come, and no more than were asked
  for. -/
  delivering : ∀ batch, r.walk.stage.call? = some (.deliver batch) →
    ∃ description earlier cursor limit page,
      r.events.head? = some ⟨.describe, .ok description⟩ ∧
      r.events = earlier ++ [⟨.fetch cursor limit, .ok page⟩] ∧
      batch ≠ [] ∧ batch.length ≤ limit ∧
      List.Forall₂ (Record.HandsOn description.view) (page.records.take batch.length) batch
  /-- No more records are accepted than were asked for. -/
  total : ∀ most, settings.maxRecords = some most → (accepted r.events).length ≤ most
  processed : r.walk.summary.processed = (accepted r.events).length
  /-- Outside a handler call the budget counts the processed records. A run without a limit could
  carry that count past the bound of a machine word; it does not until a batch may reach the
  bound. -/
  used : (∀ batch, r.walk.stage.call? ≠ some (.deliver batch)) →
    r.walk.budget.used = r.walk.summary.processed ∨
      settings.maxRecords = none ∧ countBound ≤ r.walk.summary.processed + settings.batchSize

/-- **Every run stays within its budget**, whatever pages the engine sends and however often the
handler refuses them. -/
theorem Run.steps_withinBudget {World : Type} (env : Environment World) (settings : Settings)
    (hcheck : settings.check = .ok ()) (world : World) (n : Nat) :
    WithinBudget settings (steps env settings n (start settings world)) := by
  have hpath := path env settings world n
  generalize steps env settings n (start settings world) = r at hpath
  have hmetered := hpath.metered
  obtain ⟨hsize, -, -⟩ := Settings.of_check hcheck
  have hholds (hidle : ∀ batch, r.walk.stage.call? ≠ some (.deliver batch)) :
      r.walk.budget.Holds settings (accepted r.events).length 0 :=
    Stage.held_eq_zero hidle ▸ hmetered.holds
  have hfetch (cursor : Cursor) (limit : Nat)
      (hcall : r.walk.stage.call? = some (.fetch cursor limit)) :
      r.walk.budget.isExhausted = false ∧
        limit = settings.allowance (accepted r.events).length := by
    obtain ⟨shard, hstage⟩ := Stage.fetching_of_call hcall
    exact hmetered.asking shard cursor limit hstage
  constructor
  case asking =>
    intro cursor limit hcall
    obtain ⟨hleft, rfl⟩ := hfetch cursor limit hcall
    exact ⟨rfl, (hholds (by simp [hcall])).allowance_bounds hleft hsize⟩
  case granting =>
    intro cursor limit page hcall hrecords
    obtain ⟨hleft, rfl⟩ := hfetch cursor limit hcall
    have hidle := hholds (by simp [hcall])
    rw [(hidle.reserve (Nat.min_le_right _ _)).1]
    have hpos := (hidle.allowance_bounds hleft hsize).1
    have hlength := List.length_pos_iff.2 hrecords
    omega
  case delivering =>
    intro batch hcall
    obtain ⟨shard, cursor, next, hstage⟩ := Stage.delivering_of_call hcall
    obtain ⟨earlier, limit, page, hevents, -, hne, hbatch⟩ := hpath.delivering hstage
    obtain ⟨hdescribing, -⟩ | ⟨err, hfailed⟩ | ⟨-, description, hhead, hview⟩ := hpath.view
    · rw [hstage] at hdescribing; cases hdescribing
    · rw [hstage] at hfailed; cases hfailed
    · have hlength : batch.length = min limit page.records.length := by
        rw [hbatch, Walk.batchOf, List.length_map, List.length_take]
      have htaken : page.records.take batch.length = page.records.take limit := by
        rw [hlength, ← List.take_eq_take_min]
      refine ⟨description, earlier, cursor, limit, page, hhead, hevents, hne, ?_, ?_⟩
      · exact hlength ▸ Nat.min_le_left _ _
      · rw [htaken, hbatch, Walk.batchOf, hview, List.forall₂_map_right_iff, List.forall₂_same]
        exact fun raw _ => Record.handsOn_handedOn _ raw
  case total =>
    intro most hmost
    have hwithin := hmetered.holds.within most hmost
    omega
  case processed => exact hmetered.processed
  case used =>
    intro hidle
    rw [hmetered.processed]
    exact (hholds hidle).used

/-- An engine that sends three records at every fetch, whatever the limit, and never moves its
cursor, with a handler that refuses every other batch. -/
def overfullLog : Environment Nat
  | .describe, t => (some (.ok ⟨[⟨"s", none⟩], some .newImage⟩), t)
  | .acquire _, t => (some (.ok (some ⟨"c"⟩)), t)
  | .fetch cursor _, t =>
    (some (.ok ⟨[{ change := some {} }, { id := some "b" }, {}], some cursor⟩), t)
  | .deliver _, t => (some (if t % 2 = 0 then .error ⟨["busy"]⟩ else .ok ()), t + 1)
  | .pause _, t => (some (), t)

def threeRecords : Settings := { batchSize := 2, maxRecords := some 3, stopOnError := false }

/-- Of the three records that come first two are handed on: one that takes the view of the log, and
one that has no body to take it. -/
theorem overfullLog_withinBudget :
    threeRecords.check = .ok () ∧
    Run.WithinBudget threeRecords
      (Run.steps overfullLog threeRecords 12 (.start threeRecords 0)) ∧
    (∃ first second,
      (Run.steps overfullLog threeRecords 3 (.start threeRecords 0)).walk.stage.call? =
        some (.deliver [first, second]) ∧
      first.view = .newImage ∧ first.id = "" ∧ second.view = .keysOnly ∧ second.id = "b") ∧
    (Run.steps overfullLog threeRecords 12 (.start threeRecords 0)).walk.result? =
      some (.ok { processed := 3, batches := 2, visited := 1, recovered := 2 }) := by
  have hwithin := Run.steps_withinBudget overfullLog threeRecords rfl 0
  obtain ⟨description, earlier, cursor, limit, page, hhead, hevents, -, -, hbatch⟩ :=
    (hwithin 3).delivering _ rfl
  have hpage : some _ = (earlier ++ [_]).getLast? := congrArg List.getLast? hevents
  rw [List.getLast?_concat] at hpage
  cases hhead
  cases hpage
  obtain _ | ⟨hfirst, _ | ⟨hsecond, -⟩⟩ := hbatch
  exact ⟨rfl, hwithin 12, ⟨_, _, rfl, hfirst.unsaid _ _ rfl rfl rfl, hfirst.id,
    (hsecond.bodiless rfl).2, hsecond.id⟩, rfl⟩

end ItemTable.ChangeLog
