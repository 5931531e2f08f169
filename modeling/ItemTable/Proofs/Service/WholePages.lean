import ItemTable.Proofs.Service.KnownValues
import ItemTable.Service.Changes
import ItemTable.Service.Items

/-!
# Pages and records are handed on whole

A record of a change log is converted with all its images and all its other parts, or not at all,
and a page with all its items or records, in their order, or not at all. So what an operation gives
is a page that shows the whole answer, or an error (`Answers`). That no name stands twice in an item
is not assumed of answers: the reader keeps the last value of a name, and so every item that has
been read is distinct (`givesOnly_fields`).
-/
namespace ItemTable.Service

open ItemTable.ChangeLog ItemTable.Json

/-! ## Records -/

theorem toImage?_eq (x : Option Fields) : toImage? x = x.mapM Fields.toItem? := by
  cases x <;> rfl

theorem isWhole_toImage? {x : Option Fields} (h : ∀ fields ∈ x, fields.AreDistinct) :
    IsWhole (toImage? x) (∃ fields ∈ x, fields.HasUnknown) (Option.Rel Fields.Shows x) := by
  rw [toImage?_eq]
  exact IsWhole.optional fun fields hfields => Fields.isWhole_toItem? (h fields hfields)

theorem Fields.shows_nil_iff {item : Item} : Fields.Shows [] item ↔ item = .empty := by
  have hdistinct : AreDistinct [] := List.nodup_nil
  rw [shows_iff hdistinct]
  constructor
  · rintro ⟨entries, hentries, rfl⟩
    cases hentries
    rfl
  · rintro rfl
    exact ⟨[], .nil, rfl⟩

/-- Fields that are missing count as an empty item. -/
theorem shows_getD_iff {x : Option Fields} {item : Item} :
    Fields.Shows (x.getD []) item ↔ ∃ y, Option.Rel Fields.Shows x y ∧ item = y.getD .empty := by
  cases x with
  | none =>
    rw [Option.getD_none, Fields.shows_nil_iff]
    constructor
    · rintro rfl
      exact ⟨none, .none, rfl⟩
    · rintro ⟨_, ⟨⟩, rfl⟩
      rfl
  | some fields =>
    constructor
    · intro h
      exact ⟨some item, .some h, rfl⟩
    · rintro ⟨_, ⟨h⟩, rfl⟩
      exact h

namespace SentChange

/-- The items that a change carries. -/
def images (c : SentChange) : List Fields :=
  c.keys.toList ++ (c.newImage.toList ++ c.oldImage.toList)

def HasUnknown (c : SentChange) : Prop := ∃ fields ∈ c.images, fields.HasUnknown

def AreDistinct (c : SentChange) : Prop := ∀ fields ∈ c.images, fields.AreDistinct

/-- The change carries the same items, and what it says besides is taken over. -/
structure Shows (c : SentChange) (raw : RawChange) : Prop where
  keys : Fields.Shows (c.keys.getD []) raw.keys
  newImage : Option.Rel Fields.Shows c.newImage raw.newImage
  oldImage : Option.Rel Fields.Shows c.oldImage raw.oldImage
  sequence : raw.sequence = c.sequence
  size : raw.size = c.size
  view : raw.view = c.view.bind ViewType.ofName?

theorem isWhole_toRaw? {c : SentChange} (h : c.AreDistinct) :
    IsWhole c.toRaw? c.HasUnknown c.Shows := by
  unfold AreDistinct images at h
  simp only [List.forall_mem_append, Option.mem_toList] at h
  obtain ⟨hkeys, hnew, hold⟩ := h
  have hkeys := isWhole_toImage? hkeys
  have hnew := isWhole_toImage? hnew
  have hold := isWhole_toImage? hold
  refine ⟨?_, fun raw => ?_⟩
  · unfold HasUnknown images
    simp only [List.mem_append, Option.mem_toList, ← Option.mem_def, or_and_right, exists_or]
    rw [← hkeys.eq_none_iff, ← hnew.eq_none_iff, ← hold.eq_none_iff]
    unfold toRaw?
    cases toImage? c.keys <;> cases toImage? c.newImage <;> cases toImage? c.oldImage <;> simp
  · have hparts : c.toRaw? = some raw ↔ ∃ keys newImage oldImage, toImage? c.keys = some keys ∧
        toImage? c.newImage = some newImage ∧ toImage? c.oldImage = some oldImage ∧
        raw = { keys := keys.getD .empty, newImage, oldImage
                sequence := c.sequence, size := c.size
                view := c.view.bind ViewType.ofName? } := by
      unfold toRaw?
      cases toImage? c.keys <;> cases toImage? c.newImage <;> cases toImage? c.oldImage <;>
        simp [eq_comm]
    rw [hparts]
    simp only [hkeys.eq_some_iff, hnew.eq_some_iff, hold.eq_some_iff]
    constructor
    · rintro ⟨keys, newImage, oldImage, hk, hn, ho, rfl⟩
      exact ⟨shows_getD_iff.2 ⟨keys, hk, rfl⟩, hn, ho, rfl, rfl, rfl⟩
    · obtain ⟨_, newImage, oldImage, _, _, _⟩ := raw
      rintro ⟨hk, hn, ho, rfl, rfl, rfl⟩
      obtain ⟨keys, hkeys', rfl⟩ := shows_getD_iff.1 hk
      exact ⟨keys, newImage, oldImage, hkeys', hn, ho, rfl⟩

end SentChange

namespace SentRecord

def HasUnknown (r : SentRecord) : Prop := ∃ c ∈ r.change, c.HasUnknown

def AreDistinct (r : SentRecord) : Prop := ∀ c ∈ r.change, c.AreDistinct

/-- The record has the same change, and what it says besides is taken over. -/
structure Shows (r : SentRecord) (raw : RawRecord) : Prop where
  id : raw.id = r.id
  kind : raw.kind = r.kind.bind ChangeKind.ofName?
  version : raw.version = r.version
  source : raw.source = r.source
  region : raw.region = r.region
  change : Option.Rel SentChange.Shows r.change raw.change
  identity : raw.identity = r.identity.map fun i => ⟨i.1.getD "", i.2.getD ""⟩

theorem isWhole_toRaw? {r : SentRecord} (h : r.AreDistinct) :
    IsWhole r.toRaw? r.HasUnknown r.Shows := by
  have hchange := IsWhole.optional fun c hc => SentChange.isWhole_toRaw? (h c hc)
  have hraw : r.toRaw? = (fun change => {
      id := r.id, kind := r.kind.bind ChangeKind.ofName?, version := r.version, source := r.source
      region := r.region, change
      identity := r.identity.map fun i => ⟨i.1.getD "", i.2.getD ""⟩ }) <$>
        r.change.mapM SentChange.toRaw? := by
    unfold toRaw?
    cases r.change with
    | none => rfl
    | some c => cases h : c.toRaw? <;> simp [h]
  rw [hraw]
  refine (hchange.map _).congr Iff.rfl fun raw => ?_
  constructor
  · obtain ⟨_, _, _, _, _, change, _⟩ := raw
    rintro ⟨rfl, rfl, rfl, rfl, rfl, hshows, rfl⟩
    exact ⟨change, hshows, rfl⟩
  · rintro ⟨change, hshows, rfl⟩
    exact ⟨rfl, rfl, rfl, rfl, rfl, hshows, rfl⟩

end SentRecord

/-! ## Pages -/

namespace SentPage

def HasUnknown (p : SentPage) : Prop :=
  (∃ fields ∈ p.items, fields.HasUnknown) ∨ ∃ key ∈ p.lastKey, key.HasUnknown

def AreDistinct (p : SentPage) : Prop :=
  (∀ fields ∈ p.items, fields.AreDistinct) ∧ ∀ key ∈ p.lastKey, key.AreDistinct

/-- The page has the same items in the same order, the same last key, and the counts that are not
negative. -/
structure Shows (p : SentPage) (page : ItemPage) : Prop where
  items : List.Forall₂ Fields.Shows p.items page.items
  lastKey : Option.Rel Fields.Shows p.lastKey page.lastKey
  count : page.count = size? p.count
  scannedCount : page.scannedCount = size? p.scannedCount

theorem isWhole_toPage? {p : SentPage} (h : p.AreDistinct) :
    IsWhole p.toPage? p.HasUnknown p.Shows := by
  have hitems := IsWhole.mapM fun fields hfields => Fields.isWhole_toItem? (h.1 fields hfields)
  have hkey := IsWhole.optional fun key hkey => Fields.isWhole_toItem? (h.2 key hkey)
  have hpage : p.toPage? = do
      let items ← p.items.mapM Fields.toItem?
      let lastKey ← p.lastKey.mapM Fields.toItem?
      return { items, lastKey, count := size? p.count, scannedCount := size? p.scannedCount } := by
    unfold toPage?
    cases p.lastKey <;> rfl
  rw [hpage]
  refine (hitems.and hkey _).congr Iff.rfl fun page => ?_
  constructor
  · obtain ⟨items, lastKey, _, _⟩ := page
    rintro ⟨hitems, hkey, rfl, rfl⟩
    exact ⟨items, lastKey, hitems, hkey, rfl⟩
  · rintro ⟨items, lastKey, hitems, hkey, rfl⟩
    exact ⟨hitems, hkey, rfl, rfl⟩

end SentPage

namespace SentRecords

def HasUnknown (p : SentRecords) : Prop := ∃ r ∈ p.records, r.HasUnknown

def AreDistinct (p : SentRecords) : Prop := ∀ r ∈ p.records, r.AreDistinct

/-- The page has the same records in the same order, and the same cursor. -/
structure Shows (p : SentRecords) (page : RecordPage) : Prop where
  records : List.Forall₂ SentRecord.Shows p.records page.records
  next : page.next = p.next.map Cursor.mk

theorem isWhole_toPage? {p : SentRecords} (h : p.AreDistinct) :
    IsWhole p.toPage? p.HasUnknown p.Shows := by
  have hrecords := IsWhole.mapM fun r hr => SentRecord.isWhole_toRaw? (h r hr)
  have hpage : p.toPage? =
      (fun records => { records, next := p.next.map Cursor.mk }) <$>
          p.records.mapM SentRecord.toRaw? := by
    unfold toPage?
    cases p.records.mapM SentRecord.toRaw? <;> rfl
  rw [hpage]
  refine (hrecords.map _).congr Iff.rfl fun page => ?_
  constructor
  · obtain ⟨records, _⟩ := page
    rintro ⟨hrecords, rfl⟩
    exact ⟨records, hrecords, rfl⟩
  · rintro ⟨records, hrecords, rfl⟩
    exact ⟨hrecords, rfl⟩

end SentRecords

/-- What an update returns has an unknown value in it. -/
def OutcomeHasUnknown (attributes : Option Fields) : Prop :=
  ∃ fields ∈ attributes, fields.HasUnknown

/-- An update returns the attributes that are sent; none are an empty item. -/
def ShowsOutcome (attributes : Option Fields) (outcome : UpdateOutcome) : Prop :=
  Fields.Shows (attributes.getD []) outcome.attributes

theorem isWhole_toOutcome? {attributes : Option Fields}
    (h : ∀ fields ∈ attributes, fields.AreDistinct) :
    IsWhole (toOutcome? attributes) (OutcomeHasUnknown attributes) (ShowsOutcome attributes) := by
  have hitem := IsWhole.optional fun fields hfields => Fields.isWhole_toItem? (h fields hfields)
  have houtcome : toOutcome? attributes =
      (fun item : Option Item => UpdateOutcome.mk (item.getD .empty)) <$>
          attributes.mapM Fields.toItem? := by
    cases attributes with
    | none => rfl
    | some fields => cases h : fields.toItem? <;> simp [toOutcome?, h]
  rw [houtcome]
  refine (hitem.map _).congr Iff.rfl fun outcome => ?_
  obtain ⟨item⟩ := outcome
  simp only [ShowsOutcome, shows_getD_iff, UpdateOutcome.mk.injEq]

/-! ## What is read -/

section Reading

variable {α : Type}

/-- Whatever the reader gives has the property. -/
def GivesOnly (read? : Document → Option α) (P : α → Prop) : Prop := ∀ d a, read? d = some a → P a

variable {read? : Document → Option α} {P : α → Prop}

theorem GivesOnly.member (h : GivesOnly read? P) (name : String) :
    GivesOnly (member? name read?) fun x => ∀ a ∈ x, P a := by
  intro d x hx a ha
  cases ha
  unfold member? at hx
  split at hx
  · cases hx
  · cases hx
  · next d' _ _ =>
    obtain ⟨a, ha, heq⟩ := Option.map_eq_some_iff.1 hx
    cases heq
    exact h d' a ha

theorem GivesOnly.list (h : GivesOnly read? P) :
    GivesOnly (listOf? read?) fun as => ∀ a ∈ as, P a := by
  intro d as has
  obtain ⟨ds, -, hmap⟩ := Option.bind_eq_some_iff.1 has
  clear has
  induction ds generalizing as with
  | nil =>
    cases hmap
    exact List.forall_mem_nil _
  | cons d' ds ih =>
    rw [List.mapM_cons] at hmap
    obtain ⟨a, ha, hmap⟩ := Option.bind_eq_some_iff.1 hmap
    obtain ⟨rest, hrest, heq⟩ := Option.bind_eq_some_iff.1 hmap
    cases heq
    exact List.forall_mem_cons.2 ⟨h d' a ha, ih rest hrest⟩

theorem GivesOnly.object (h : GivesOnly read? P) : GivesOnly (objectOf? read?) P := by
  intro d a ha
  unfold objectOf? at ha
  split at ha
  · exact h _ a ha
  · cases ha

end Reading

theorem ascending_readFields? {members : List (Label × Document)} {fields fields' : Fields}
    (h : Ascending fields)
    (hread : Value.readFields? fields members = some fields') : Ascending fields' := by
  induction members generalizing fields with
  | nil =>
    rw [Value.readFields?] at hread
    cases hread
    exact h
  | cons m members ih =>
    obtain ⟨label, d⟩ := m
    rw [Value.readFields?] at hread
    obtain ⟨name, -, hread⟩ := Option.bind_eq_some_iff.1 hread
    obtain ⟨v, -, hread⟩ := Option.bind_eq_some_iff.1 hread
    exact ih (ascending_placeEntry name v h) hread

/-- The reader of items keeps one value for each name. -/
theorem givesOnly_fields : GivesOnly Fields.read? Fields.AreDistinct := by
  intro d fields h
  unfold Fields.read? at h
  split at h
  · exact Bindings.nodup_keys ⟨fields, ascending_readFields? List.Pairwise.nil h⟩
  · cases h

theorem givesOnly_page : GivesOnly SentPage.read? SentPage.AreDistinct := by
  refine GivesOnly.object fun d page h => ?_
  obtain ⟨items, hitems, h⟩ := Option.bind_eq_some_iff.1 h
  obtain ⟨lastKey, hkey, h⟩ := Option.bind_eq_some_iff.1 h
  obtain ⟨count, -, h⟩ := Option.bind_eq_some_iff.1 h
  obtain ⟨scannedCount, -, h⟩ := Option.bind_eq_some_iff.1 h
  cases h
  have hitems := givesOnly_fields.list.member "Items" d items hitems
  refine ⟨?_, givesOnly_fields.member "LastEvaluatedKey" d lastKey hkey⟩
  cases items with
  | none => exact List.forall_mem_nil _
  | some items => exact hitems items rfl

theorem givesOnly_change : GivesOnly SentChange.read? SentChange.AreDistinct := by
  refine GivesOnly.object fun d c h => ?_
  obtain ⟨keys, hkeys, h⟩ := Option.bind_eq_some_iff.1 h
  obtain ⟨newImage, hnew, h⟩ := Option.bind_eq_some_iff.1 h
  obtain ⟨oldImage, hold, h⟩ := Option.bind_eq_some_iff.1 h
  obtain ⟨sequence, -, h⟩ := Option.bind_eq_some_iff.1 h
  obtain ⟨size, -, h⟩ := Option.bind_eq_some_iff.1 h
  obtain ⟨view, -, h⟩ := Option.bind_eq_some_iff.1 h
  cases h
  unfold SentChange.AreDistinct SentChange.images
  simp only [List.forall_mem_append, Option.mem_toList]
  exact ⟨givesOnly_fields.member "Keys" d keys hkeys,
    givesOnly_fields.member "NewImage" d newImage hnew,
    givesOnly_fields.member "OldImage" d oldImage hold⟩

theorem givesOnly_record : GivesOnly SentRecord.read? SentRecord.AreDistinct := by
  refine GivesOnly.object fun d r h => ?_
  obtain ⟨id, -, h⟩ := Option.bind_eq_some_iff.1 h
  obtain ⟨kind, -, h⟩ := Option.bind_eq_some_iff.1 h
  obtain ⟨version, -, h⟩ := Option.bind_eq_some_iff.1 h
  obtain ⟨source, -, h⟩ := Option.bind_eq_some_iff.1 h
  obtain ⟨region, -, h⟩ := Option.bind_eq_some_iff.1 h
  obtain ⟨change, hchange, h⟩ := Option.bind_eq_some_iff.1 h
  obtain ⟨identity, -, h⟩ := Option.bind_eq_some_iff.1 h
  cases h
  exact givesOnly_change.member "dynamodb" d change hchange

theorem givesOnly_records : GivesOnly SentRecords.read? SentRecords.AreDistinct := by
  refine GivesOnly.object fun d p h => ?_
  obtain ⟨records, hrecords, h⟩ := Option.bind_eq_some_iff.1 h
  obtain ⟨next, -, h⟩ := Option.bind_eq_some_iff.1 h
  cases h
  have hrecords := givesOnly_record.list.member "Records" d records hrecords
  cases records with
  | none => exact List.forall_mem_nil _
  | some records => exact hrecords records rfl

theorem givesOnly_attributes :
    GivesOnly readAttributes? fun attributes => ∀ fields ∈ attributes, fields.AreDistinct :=
  (givesOnly_fields.member "Attributes").object

/-! ## Operations -/

section Operations

variable {α β : Type}

/-- An operation gives the whole of its answer. It fails if something in the answer is unknown, and
otherwise only if there is no answer to read, with the same error. -/
structure Answers (answer : Except Failure α) (result : Except Failure β) (Unknown : α → Prop)
    (Shows : α → β → Prop) : Prop where
  ok_iff : ∀ b, result = .ok b ↔ ∃ a, answer = .ok a ∧ Shows a b
  unknown_iff : result = .error .unknownValue ↔ ∃ a, answer = .ok a ∧ Unknown a
  error_iff : ∀ f, f ≠ .unknownValue → (result = .error f ↔ answer = .error f)

variable {read? : Document → Option α} {P Unknown : α → Prop} {convert : α → Option β}
    {Shows : α → β → Prop}

/-- An answer has been read, or there is none; that a value is unknown is no reason yet. -/
structure IsAnswer (read? : Document → Option α) (answer : Except Failure α) : Prop where
  read : ∀ a, answer = .ok a → ∃ d, read? d = some a
  error : answer ≠ .error .unknownValue

theorem isAnswer_error {f : Failure} (hf : f ≠ .unknownValue) : IsAnswer read? (.error f) := by
  refine ⟨fun a h => ?_, fun h => hf ?_⟩
  · cases h
  · cases h
    rfl

theorem Reply.isAnswer_result (read? : Document → Option α) (r : Reply) :
    IsAnswer read? (r.result read?) := by
  cases r with
  | lost => exact isAnswer_error Failure.noConfusion
  | answer status headers body =>
    rw [Reply.result]
    split
    · split
      · next a ha =>
        refine ⟨fun a' h => ?_, fun h => ?_⟩
        · cases h
          exact ⟨body, ha⟩
        · cases h
      · exact isAnswer_error Failure.noConfusion
    · exact isAnswer_error Failure.noConfusion

theorem Exchange.isAnswer_call (request : Sent) (read? : Document → Option α) (x : Exchange) :
    IsAnswer read? (x.call request read?).1 := by
  unfold Exchange.call
  split
  · exact emptyReply.isAnswer_result read?
  · next reply _ _ => exact reply.isAnswer_result read?

theorem isAnswer_onTable (table : String) (request : Sent) (read? : Document → Option α)
    (x : Exchange) :
    IsAnswer read? (onTable table request read? x).1 := by
  unfold onTable
  split
  · exact isAnswer_error Failure.noConfusion
  · exact x.isAnswer_call request read?

theorem known_eq_ok_iff {x : Option β} {b : β} : known x = .ok b ↔ x = some b := by
  cases x with
  | none => exact iff_of_false (fun h => by cases h) fun h => by cases h
  | some a =>
    exact ⟨fun h => congrArg some (Except.ok.inj h),
      fun h => congrArg Except.ok (Option.some.inj h)⟩

theorem known_eq_error_iff {x : Option β} {f : Failure} :
    known x = .error f ↔ x = none ∧ f = .unknownValue := by
  cases x with
  | none => exact ⟨fun h => ⟨rfl, (Except.error.inj h).symm⟩, fun h => by rw [h.2, known]⟩
  | some a => exact iff_of_false (fun h => by cases h) fun h => by cases h.1

/-- What is converted whole is given whole. -/
theorem IsAnswer.answers {answer : Except Failure α} (h : IsAnswer read? answer)
    (hread : GivesOnly read? P) (hconvert : ∀ a, P a → IsWhole (convert a) (Unknown a) (Shows a)) :
    Answers answer (answer >>= fun a => known (convert a)) Unknown Shows := by
  cases answer with
  | error f =>
    have hresult : ((.error f : Except Failure α) >>= fun a => known (convert a)) = .error f := rfl
    rw [hresult]
    refine ⟨fun b => iff_of_false (fun heq => by cases heq) ?_,
      iff_of_false (fun heq => h.error ?_) ?_, fun f' _ => ?_⟩
    · rintro ⟨a, heq, -⟩
      cases heq
    · rw [Except.error.inj heq]
    · rintro ⟨a, heq, -⟩
      cases heq
    · rw [Except.error.injEq, Except.error.injEq]
  | ok a =>
    obtain ⟨d, hd⟩ := h.read a rfl
    have hwhole := hconvert a (hread d a hd)
    have hresult :
        ((.ok a : Except Failure α) >>= fun a => known (convert a)) = known (convert a) := rfl
    rw [hresult]
    refine ⟨fun b => ?_, ?_, fun f hf => ?_⟩
    · rw [known_eq_ok_iff, hwhole.eq_some_iff]
      simp
    · rw [known_eq_error_iff, hwhole.eq_none_iff]
      simp
    · rw [known_eq_error_iff]
      exact iff_of_false (fun heq => hf heq.2) fun heq => by cases heq

end Operations

/-- Values, items, records and pages are converted whole or not at all, and what the operations of
the service give is all of what they have been answered. -/
theorem service_values_whole :
    (∀ v : AttributeValue, (Value.ofAttribute v).toAttribute? = some v) ∧
      (∀ v : Value, IsWhole v.toAttribute? v.HasUnknown v.Shows) ∧
      (∀ fields : Fields, fields.AreDistinct →
        IsWhole fields.toItem? fields.HasUnknown fields.Shows) ∧
      (∀ r : SentRecord, r.AreDistinct → IsWhole r.toRaw? r.HasUnknown r.Shows) ∧
      (∀ p : SentPage, p.AreDistinct → IsWhole p.toPage? p.HasUnknown p.Shows) ∧
      (∀ p : SentRecords, p.AreDistinct → IsWhole p.toPage? p.HasUnknown p.Shows) ∧
      (∀ (c : Client) (q : QueryRequest) (x : Exchange),
        Answers
          (onTable q.table ⟨itemTarget "Query", c.queryBody (.ofRequest q)⟩ SentPage.read? x).1
          (queryWith c q x).1 SentPage.HasUnknown SentPage.Shows) ∧
      (∀ (c : Client) (s : ScanRequest) (x : Exchange),
        Answers (onTable s.table ⟨itemTarget "Scan", c.scanBody (.ofRequest s)⟩ SentPage.read? x).1
          (scanWith c s x).1 SentPage.HasUnknown SentPage.Shows) ∧
      (∀ (c : Client) (u : UpdateRequest) (x : Exchange),
        Answers
          (onTable u.table ⟨itemTarget "UpdateItem", c.updateBody (.ofRequest u)⟩
            readAttributes? x).1
          (updateWith c u x).1 OutcomeHasUnknown ShowsOutcome) ∧
      ∀ (cursor : Cursor) (limit : Nat) (x : Exchange),
        Answers (x.call (fetchRequest cursor limit) SentRecords.read?).1 (fetch cursor limit x).1
          SentRecords.HasUnknown SentRecords.Shows :=
  ⟨Value.toAttribute?_ofAttribute, Value.isWhole_toAttribute?, fun _ => Fields.isWhole_toItem?,
    fun _ => SentRecord.isWhole_toRaw?, fun _ => SentPage.isWhole_toPage?,
    fun _ => SentRecords.isWhole_toPage?,
    fun _ q x => (isAnswer_onTable q.table _ _ x).answers givesOnly_page fun _ =>
      SentPage.isWhole_toPage?,
    fun _ s x => (isAnswer_onTable s.table _ _ x).answers givesOnly_page fun _ =>
      SentPage.isWhole_toPage?,
    fun _ u x => (isAnswer_onTable u.table _ _ x).answers givesOnly_attributes fun _ =>
      isWhole_toOutcome?,
    fun _ _ x => (x.isAnswer_call _ _).answers givesOnly_records fun _ =>
      SentRecords.isWhole_toPage?⟩

/-- One unknown value inside a list inside an item refuses the page, with all its items. Without
that item the page is given. -/
theorem nestedUnknown_refuses_page :
    let plain : Fields := [("id", .text "a")]
    let strange : Fields := [("id", .text "b"), ("log", .list [.map [("kind", .unknown)]])]
    SentPage.toPage? ⟨[plain, strange], none, 2, 2⟩ = none ∧
      ∃ page, SentPage.toPage? ⟨[plain], none, 1, 1⟩ = some page ∧ page.items.length = 1 := by
  intro plain strange
  have hplain : plain.AreDistinct := by
    unfold Fields.AreDistinct
    decide
  have hstrange : strange.AreDistinct := by
    unfold Fields.AreDistinct
    decide
  have hpages := service_values_whole.2.2.2.2.1
  have hboth := hpages ⟨[plain, strange], none, 2, 2⟩
    ⟨List.forall_mem_cons.2 ⟨hplain, List.forall_mem_singleton.2 hstrange⟩, fun _ h => by cases h⟩
  have hone :=
    hpages ⟨[plain], none, 1, 1⟩ ⟨List.forall_mem_singleton.2 hplain, fun _ h => by cases h⟩
  constructor
  · have hunknown : strange.HasUnknown :=
      ⟨("log", _), List.mem_cons_of_mem _ List.mem_cons_self,
        .item List.mem_cons_self (.entry List.mem_cons_self .unknown)⟩
    exact hboth.eq_none_iff.2 (.inl ⟨strange, List.mem_cons_of_mem _ List.mem_cons_self, hunknown⟩)
  · have hknown : ¬SentPage.HasUnknown ⟨[plain], none, 1, 1⟩ := by
      rintro (⟨fields, hmem, e, he, hunknown⟩ | ⟨key, hkey, -⟩)
      · cases List.mem_singleton.1 hmem
        cases List.mem_singleton.1 he
        cases hunknown
      · cases hkey
    obtain ⟨page, hshows⟩ := hone.exists_shown hknown
    exact ⟨page, (hone.eq_some_iff page).2 hshows, hshows.items.length_eq.symm⟩

end ItemTable.Service
