import ItemTable.ChangeLog.Record
import ItemTable.Proofs.Json.RecordReading
import ItemTable.Proofs.Value.WireFormat
import ItemTable.Reply

/-!
# Records survive the wire

What is written of a request, of a reply, of a shard or of a change record is read back as the same.
Each of the records is a chain of its fields, one lemma for each, in the order in which its reader
has them (`WrittenAs`); the main statement is `records_survive_wire`.

There are two ways of leaving something out. A field that may be nothing is left out if it is
nothing, and a map that is no option is left out if it is empty. So an empty map under an option is
written, and is never taken for nothing. `Proper` says of a record that its numbers fit and that its
values are as this library makes them.
-/
namespace ItemTable

open ItemTable.Json ItemTable.Json.RecordReader

variable {α : Type}

/-- All values of the item are as this library makes them. -/
def Item.Ordered (item : Item) : Prop := ∀ e ∈ item.entries, e.2.Ordered

theorem Item.carries {item : Item} (h : item.Ordered) :
    Item.decode.Carries item.toDocument item := by
  rw [Item.toDocument, AttributeValue.entryDocuments_eq_map]
  exact Decoder.bindings_carries AttributeValue.toDocument fun e he =>
    ⟨AttributeValue.decode_restores e.2 (h e he), AttributeValue.writable_toDocument e.2⟩

theorem Bindings.textDocument_eq (m : Bindings String) :
    m.textDocument = .object (m.entries.map fun e => (some e.1, .text e.2)) true := by
  rw [Bindings.textDocument, Document.ofMembers, List.map_map]
  rfl

theorem Bindings.carries (m : Bindings String) :
    (Decoder.bindings Decoder.text).Carries m.textDocument m := by
  rw [m.textDocument_eq]
  exact Decoder.bindings_carries Document.text fun e _ => Decoder.text_carries e.2

/-! ## Maps that are left out -/

theorem Bindings.isEmpty_iff {m : Bindings α} : m.isEmpty = true ↔ m = .empty := by
  obtain ⟨entries, ascending⟩ := m
  rw [Bindings.isEmpty, List.isEmpty_iff]
  constructor
  · rintro rfl
    rfl
  · intro h
    exact congrArg Bindings.entries h

/-- What is written of a map that is left out if it binds nothing. -/
def unlessEmpty (write : Bindings α → Document) (m : Bindings α) : Option Document :=
  if m.isEmpty then none else some (write m)

theorem unlessEmpty_eq_some_iff {write : Bindings α → Document} {m : Bindings α} {d : Document} :
    unlessEmpty write m = some d ↔ m ≠ .empty ∧ write m = d := by
  rw [unlessEmpty, Option.ite_none_left_eq_some, Bindings.isEmpty_iff, Option.some_inj]

theorem unlessEmpty_eq_none_iff {write : Bindings α → Document} {m : Bindings α} :
    unlessEmpty write m = none ↔ m = .empty := by
  rw [unlessEmpty, ite_eq_left_iff, Bindings.isEmpty_iff]
  simp

theorem namesMember_eq (names : Bindings String) :
    namesMember names =
      Member.optional "ExpressionAttributeNames" (unlessEmpty Bindings.textDocument names) := by
  unfold namesMember unlessEmpty
  split <;> rfl

theorem itemMember_eq (name : String) (item : Item) :
    itemMember name item = Member.optional name (unlessEmpty Item.toDocument item) := by
  unfold itemMember unlessEmpty
  split <;> rfl

/-- A map that is left out if it binds nothing is read as the empty map if it is missing. -/
theorem unlessEmpty_reads {name : String} {value : Decoder (Bindings α)}
    {write : Bindings α → Document} {m : Bindings α} (h : value.Carries (write m) m) :
    (defaulted name value .empty).Reads [(name, unlessEmpty write m)] m := by
  refine defaulted_reads (fun d hd => ?_) fun hnone => (unlessEmpty_eq_none_iff.1 hnone).symm
  obtain ⟨-, rfl⟩ := unlessEmpty_eq_some_iff.1 hd
  exact h

theorem item_reads {name : String} {item : Item} (h : item.Ordered) :
    (defaulted name Item.decode .empty).Reads [(name, unlessEmpty Item.toDocument item)] item :=
  unlessEmpty_reads (Item.carries h)

/-- An optional item is written even if it is empty. -/
theorem optional_item_reads {name : String} {x : Option Item} (h : ∀ item ∈ x, item.Ordered)
    {short : Option (Option Item)} :
    (field name Item.decode.orNull (.ok none) short).Reads [(name, x.map Item.toDocument)] x :=
  orNull_reads (fun item hitem => Item.carries (h item hitem)) fun _ => Document.noConfusion

/-! ## The records -/

/-- The records of a type are written as their slots, and the reader makes them out of these. -/
structure WrittenAs (reader : RecordReader α) (write : α → Document) (Proper : α → Prop)
    (slots : α → List Slot) : Prop where
  written : ∀ a, write a = Slot.written (slots a)
  names : ∀ a, ((slots a).map Prod.fst).Nodup
  reads : ∀ a, Proper a → reader.Reads (slots a) a

theorem WrittenAs.carries {reader : RecordReader α} {write : α → Document} {Proper : α → Prop}
    {slots : α → List Slot} (h : WrittenAs reader write Proper slots) {a : α} (ha : Proper a)
    (name : String) : (reader.decoder name).Carries (write a) a := by
  rw [h.written a]
  exact (h.reads a ha).carries (h.names a) name

theorem Selection.lookEntry_name (s : Selection) :
    lookEntry s.name choices = some s := by cases s <;> decide

theorem ReturnValues.lookEntry_name (r : ReturnValues) : lookEntry r.name choices = some r := by
  cases r <;> decide

theorem ChangeLog.ViewType.lookEntry_name (v : ViewType) : lookEntry v.name choices = some v := by
  cases v <;> decide

theorem ChangeLog.ChangeKind.lookEntry_name (k : ChangeKind) :
    lookEntry k.name choices = some k := by
  cases k <;> decide

namespace QueryRequest

/-- The request holds what its fields can hold. -/
structure Proper (q : QueryRequest) : Prop where
  values : Item.Ordered q.values
  limit : ∀ n ∈ q.limit, IsInt32 n
  startKey : q.startKey.Ordered

def slots (q : QueryRequest) : List Slot :=
  [("TableName", some (.text q.table)),
    ("IndexName", q.index.map .text),
    ("KeyConditionExpression", some (.text q.keyCondition)),
    ("FilterExpression", q.filter.map .text),
    ("ProjectionExpression", q.projection.map .text),
    ("ExpressionAttributeNames", unlessEmpty Bindings.textDocument q.names),
    ("ExpressionAttributeValues", unlessEmpty Item.toDocument q.values),
    ("ScanIndexForward", q.forward.map .boolean),
    ("Limit", q.limit.map .ofInt),
    ("ExclusiveStartKey", unlessEmpty Item.toDocument q.startKey),
    ("Select", (q.selection.map Selection.name).map .text),
    ("ConsistentRead", q.consistent.map .boolean)]

theorem writtenAs : WrittenAs reader toDocument Proper slots where
  written q := by
    rw [toDocument, namesMember_eq, itemMember_eq, itemMember_eq]
    rfl
  names q := by simp [slots]
  reads q h := (required_reads (Decoder.text_carries q.table)).map mk
    |>.and (text_reads q.index)
    |>.and (required_reads (Decoder.text_carries q.keyCondition))
    |>.and (text_reads q.filter)
    |>.and (text_reads q.projection)
    |>.and (unlessEmpty_reads q.names.carries)
    |>.and (item_reads h.values)
    |>.and (flag_reads q.forward)
    |>.and (int32_reads h.limit)
    |>.and (item_reads h.startKey)
    |>.and (choice_reads Selection.lookEntry_name q.selection)
    |>.and (flag_reads q.consistent)

end QueryRequest

namespace ScanRequest

/-- The request holds what its fields can hold. -/
structure Proper (s : ScanRequest) : Prop where
  values : Item.Ordered s.values
  limit : ∀ n ∈ s.limit, IsInt32 n
  startKey : s.startKey.Ordered
  segment : ∀ n ∈ s.segment, IsInt32 n
  totalSegments : ∀ n ∈ s.totalSegments, IsInt32 n

def slots (s : ScanRequest) : List Slot :=
  [("TableName", some (.text s.table)),
    ("IndexName", s.index.map .text),
    ("FilterExpression", s.filter.map .text),
    ("ProjectionExpression", s.projection.map .text),
    ("ExpressionAttributeNames", unlessEmpty Bindings.textDocument s.names),
    ("ExpressionAttributeValues", unlessEmpty Item.toDocument s.values),
    ("Limit", s.limit.map .ofInt),
    ("ExclusiveStartKey", unlessEmpty Item.toDocument s.startKey),
    ("Segment", s.segment.map .ofInt),
    ("TotalSegments", s.totalSegments.map .ofInt),
    ("Select", (s.selection.map Selection.name).map .text),
    ("ConsistentRead", s.consistent.map .boolean)]

theorem writtenAs : WrittenAs reader toDocument Proper slots where
  written s := by
    rw [toDocument, namesMember_eq, itemMember_eq, itemMember_eq]
    rfl
  names s := by simp [slots]
  reads s h := (required_reads (Decoder.text_carries s.table)).map mk
    |>.and (text_reads s.index)
    |>.and (text_reads s.filter)
    |>.and (text_reads s.projection)
    |>.and (unlessEmpty_reads s.names.carries)
    |>.and (item_reads h.values)
    |>.and (int32_reads h.limit)
    |>.and (item_reads h.startKey)
    |>.and (int32_reads h.segment)
    |>.and (int32_reads h.totalSegments)
    |>.and (choice_reads Selection.lookEntry_name s.selection)
    |>.and (flag_reads s.consistent)

end ScanRequest

namespace UpdateRequest

/-- The request holds what its fields can hold. -/
structure Proper (u : UpdateRequest) : Prop where
  key : u.key.Ordered
  values : Item.Ordered u.values

def slots (u : UpdateRequest) : List Slot :=
  [("TableName", some (.text u.table)),
    ("Key", some u.key.toDocument),
    ("UpdateExpression", some (.text u.update)),
    ("ConditionExpression", u.condition.map .text),
    ("ExpressionAttributeNames", unlessEmpty Bindings.textDocument u.names),
    ("ExpressionAttributeValues", unlessEmpty Item.toDocument u.values),
    ("ReturnValues", (u.returnValues.map ReturnValues.name).map .text)]

theorem writtenAs : WrittenAs reader toDocument Proper slots where
  written u := by
    rw [toDocument, namesMember_eq, itemMember_eq]
    rfl
  names u := by simp [slots]
  reads u h := (required_reads (Decoder.text_carries u.table)).map mk
    |>.and (required_reads (Item.carries h.key))
    |>.and (required_reads (Decoder.text_carries u.update))
    |>.and (text_reads u.condition)
    |>.and (unlessEmpty_reads u.names.carries)
    |>.and (item_reads h.values)
    |>.and (choice_reads ReturnValues.lookEntry_name u.returnValues)

end UpdateRequest

namespace UpdateOutcome

/-- The attributes are as this library makes them. -/
def Proper (u : UpdateOutcome) : Prop := u.attributes.Ordered

def slots (u : UpdateOutcome) : List Slot :=
  [("attributes", unlessEmpty Item.toDocument u.attributes)]

theorem writtenAs : WrittenAs reader toDocument Proper slots where
  written u := by
    rw [toDocument, itemMember_eq]
    rfl
  names u := by simp [slots]
  reads _ h := (item_reads h).map mk

end UpdateOutcome

namespace ItemPage

/-- The page holds what its fields can hold. -/
structure Proper (p : ItemPage) : Prop where
  items : ∀ item ∈ p.items, item.Ordered
  lastKey : ∀ key ∈ p.lastKey, key.Ordered
  count : ∀ n ∈ p.count, n < wordBound
  scannedCount : ∀ n ∈ p.scannedCount, n < wordBound

def slots (p : ItemPage) : List Slot :=
  [("items", some (.ofList (p.items.map Item.toDocument))),
    ("lastKey", p.lastKey.map Item.toDocument),
    ("count", p.count.map .ofNat),
    ("scannedCount", p.scannedCount.map .ofNat)]

theorem writtenAs : WrittenAs reader toDocument Proper slots where
  written _ := rfl
  names p := by simp [slots]
  reads p h :=
    have hitems :
        (Decoder.list Item.decode).Carries (.ofList (p.items.map Item.toDocument)) p.items :=
      Decoder.list_carries Item.toDocument fun item hitem => Item.carries (h.items item hitem)
    (field_reads_written hitems).map mk
    |>.and (optional_item_reads h.lastKey)
    |>.and (size_reads h.count)
    |>.and (size_reads h.scannedCount)

end ItemPage

namespace ChangeLog

namespace Shard

def slots (s : Shard) : List Slot :=
  [("ShardId", some (.text s.id)),
    ("ParentShardId", s.parent.map .text)]

theorem writtenAs : WrittenAs reader toDocument (fun _ => True) slots where
  written _ := rfl
  names s := by simp [slots]
  reads s _ := (required_reads (Decoder.text_carries s.id)).map mk
    |>.and (text_reads s.parent)

end Shard

namespace Identity

def slots (i : Identity) : List Slot :=
  [("PrincipalId", some (.text i.principal)),
    ("Type", some (.text i.kind))]

theorem writtenAs : WrittenAs reader toDocument (fun _ => True) slots where
  written _ := rfl
  names i := by simp [slots]
  reads i _ := (required_reads (Decoder.text_carries i.principal)).map mk
    |>.and (required_reads (Decoder.text_carries i.kind))

end Identity

namespace RawChange

/-- The change holds what its fields can hold. -/
structure Proper (c : RawChange) : Prop where
  keys : c.keys.Ordered
  newImage : ∀ item ∈ c.newImage, item.Ordered
  oldImage : ∀ item ∈ c.oldImage, item.Ordered
  size : ∀ n ∈ c.size, IsInt64 n

def slots (c : RawChange) : List Slot :=
  [("Keys", unlessEmpty Item.toDocument c.keys),
    ("NewImage", c.newImage.map Item.toDocument),
    ("OldImage", c.oldImage.map Item.toDocument),
    ("SequenceNumber", c.sequence.map .text),
    ("SizeBytes", c.size.map .ofInt),
    ("StreamViewType", (c.view.map ViewType.name).map .text)]

theorem writtenAs : WrittenAs reader toDocument Proper slots where
  written c := by
    rw [toDocument, itemMember_eq]
    rfl
  names c := by simp [slots]
  reads c h := (item_reads h.keys).map mk
    |>.and (optional_item_reads h.newImage)
    |>.and (optional_item_reads h.oldImage)
    |>.and (text_reads c.sequence)
    |>.and (int64_reads h.size)
    |>.and (choice_reads ViewType.lookEntry_name c.view)

end RawChange

namespace RawRecord

/-- The body of the record, if it has one, holds what its fields can hold. -/
def Proper (r : RawRecord) : Prop := ∀ c ∈ r.change, c.Proper

def slots (r : RawRecord) : List Slot :=
  [("eventID", r.id.map .text),
    ("eventName", (r.kind.map ChangeKind.name).map .text),
    ("eventVersion", r.version.map .text),
    ("eventSource", r.source.map .text),
    ("awsRegion", r.region.map .text),
    ("dynamodb", r.change.map RawChange.toDocument),
    ("userIdentity", r.identity.map Identity.toDocument)]

theorem writtenAs : WrittenAs reader toDocument Proper slots where
  written _ := rfl
  names r := by simp [slots]
  reads r h := (text_reads r.id).map mk
    |>.and (choice_reads ChangeKind.lookEntry_name r.kind)
    |>.and (text_reads r.version)
    |>.and (text_reads r.source)
    |>.and (text_reads r.region)
    |>.and (orNull_reads (fun c hc => RawChange.writtenAs.carries (h c hc) "RawStreamData")
      fun _ => Document.noConfusion)
    |>.and (orNull_reads (fun i _ => Identity.writtenAs.carries trivial "Identity")
      fun _ => Document.noConfusion)

end RawRecord

end ChangeLog

/-! ## Main result -/

/-- The values of a type survive the wire. Each is read back from what is written of it, and from
every other text of the same value, if it does not nest too deeply; and no two values are written
alike. -/
structure SurvivesWire (decode : Decoder α) (write : α → Document) (Proper : α → Prop) : Prop where
  back : ∀ a, Proper a → (write a).nesting < depthLimit → decodeText decode (write a).toText = .ok a
  every : ∀ a, Proper a → (write a).nesting < depthLimit →
    ∀ s d, Document.ofText s = some d → d.Same (write a) → decodeText decode s = .ok a
  distinct : ∀ a b, Proper a → Proper b → (write a).Same (write b) → a = b

section WrittenAs

variable {reader : RecordReader α} {write : α → Document} {Proper : α → Prop}
    {slots : α → List Slot}

theorem WrittenAs.survivesWire (h : WrittenAs reader write Proper slots) (name : String) :
    SurvivesWire (reader.decoder name) write Proper := by
  have every (a : α) (ha : Proper a) (hnesting : (write a).nesting < depthLimit) (s : String)
      (d : Document) (hs : Document.ofText s = some d) (hsame : d.Same (write a)) :
      decodeText (reader.decoder name) s = .ok a := by
    rw [decodeText_of_ofText hs]
    rw [← hsame.nesting_eq] at hnesting
    exact (h.carries ha name).restores d hsame _ hnesting
  refine ⟨fun a ha hnesting => ?_, every, fun a b ha hb hsame => ?_⟩
  · exact every a ha hnesting _ _ (Document.ofText_toText (h.carries ha name).writable)
      (Document.same_refl _)
  · have hreada :=
      (h.carries ha name).restores (write a) (Document.same_refl _) _ (Nat.lt_succ_self _)
    have hreadb := (h.carries hb name).restores (write a) hsame _ (Nat.lt_succ_self _)
    rw [hreada] at hreadb
    exact Except.ok.inj hreadb

theorem WrittenAs.member? (h : WrittenAs reader write Proper slots) (a : α) {name : String}
    {e : Option Document} (hs : (name, e) ∈ slots a) : (write a).member? name = e := by
  rw [h.written a]
  exact Slot.member?_written (h.names a) hs

end WrittenAs

/-- An optional map is written if it is there, be it empty. -/
theorem ItemPage.member?_lastKey (p : ItemPage) :
    p.toDocument.member? "lastKey" = p.lastKey.map Item.toDocument :=
  writtenAs.member? p (by simp [slots])

theorem UpdateOutcome.member?_attributes (u : UpdateOutcome) :
    u.toDocument.member? "attributes" = none ↔ u.attributes = .empty := by
  rw [writtenAs.member? u (List.mem_singleton.2 rfl), unlessEmpty_eq_none_iff]

namespace ChangeLog

theorem RawChange.member?_newImage (c : RawChange) :
    c.toDocument.member? "NewImage" = c.newImage.map Item.toDocument :=
  writtenAs.member? c (by simp [slots])

theorem RawChange.member?_oldImage (c : RawChange) :
    c.toDocument.member? "OldImage" = c.oldImage.map Item.toDocument :=
  writtenAs.member? c (by simp [slots])

theorem RawChange.member?_keys (c : RawChange) :
    c.toDocument.member? "Keys" = none ↔ c.keys = .empty := by
  rw [writtenAs.member? c List.mem_cons_self, unlessEmpty_eq_none_iff]

theorem RawRecord.member?_change (r : RawRecord) :
    r.toDocument.member? "dynamodb" = r.change.map RawChange.toDocument :=
  writtenAs.member? r (by simp [slots])

end ChangeLog

open ChangeLog in
/-- Requests, replies, shards and change records survive the wire. What may be absent is written if
it is there, even if it is an empty map or a body without content, and a map that is no option is
left out exactly if it is empty. -/
theorem records_survive_wire :
    SurvivesWire QueryRequest.decode QueryRequest.toDocument QueryRequest.Proper ∧
      SurvivesWire ScanRequest.decode ScanRequest.toDocument ScanRequest.Proper ∧
      SurvivesWire UpdateRequest.decode UpdateRequest.toDocument UpdateRequest.Proper ∧
      SurvivesWire UpdateOutcome.decode UpdateOutcome.toDocument UpdateOutcome.Proper ∧
      SurvivesWire ItemPage.decode ItemPage.toDocument ItemPage.Proper ∧
      SurvivesWire Shard.decode Shard.toDocument (fun _ => True) ∧
      SurvivesWire RawRecord.decode RawRecord.toDocument RawRecord.Proper ∧
      (∀ p : ItemPage, p.toDocument.member? "lastKey" = p.lastKey.map Item.toDocument) ∧
      (∀ r : RawRecord, r.toDocument.member? "dynamodb" = r.change.map RawChange.toDocument) ∧
      (∀ c : RawChange, c.toDocument.member? "NewImage" = c.newImage.map Item.toDocument ∧
        c.toDocument.member? "OldImage" = c.oldImage.map Item.toDocument ∧
        (c.toDocument.member? "Keys" = none ↔ c.keys = .empty)) ∧
      ∀ u : UpdateOutcome, u.toDocument.member? "attributes" = none ↔ u.attributes = .empty :=
  ⟨QueryRequest.writtenAs.survivesWire _, ScanRequest.writtenAs.survivesWire _,
    UpdateRequest.writtenAs.survivesWire _, UpdateOutcome.writtenAs.survivesWire _,
    ItemPage.writtenAs.survivesWire _, Shard.writtenAs.survivesWire _,
    RawRecord.writtenAs.survivesWire _, ItemPage.member?_lastKey, RawRecord.member?_change,
    fun c => ⟨c.member?_newImage, c.member?_oldImage, c.member?_keys⟩,
    UpdateOutcome.member?_attributes⟩

open ChangeLog in
/-- A record whose image is an empty map, and a page whose last key is one. -/
theorem empty_maps_survive_wire :
    let image : RawRecord := { change := some { newImage := some .empty, size := some (-1) } }
    let page : ItemPage := ⟨[.empty], some .empty, some 0, none⟩
    decodeText RawRecord.decode image.toDocument.toText = .ok image ∧
      decodeText ItemPage.decode page.toDocument.toText = .ok page ∧
      ¬image.toDocument.Same { image with change := some {} }.toDocument := by
  intro image page
  have hempty : Item.Ordered .empty := List.forall_mem_nil _
  have himage : image.Proper := by
    intro c hc
    cases hc
    exact { keys := hempty
            newImage := by simp [hempty]
            oldImage := nofun
            size := by simp [IsInt64] }
  have hbare : RawRecord.Proper { image with change := some {} } := by
    intro c hc
    cases hc
    exact { keys := hempty, newImage := nofun, oldImage := nofun, size := nofun }
  have hpage : page.Proper :=
    { items := by simp [page, hempty], lastKey := by simp [page, hempty],
      count := by simp [page, wordBound], scannedCount := nofun }
  obtain ⟨-, -, -, -, hpages, -, hrecords, -⟩ := records_survive_wire
  refine ⟨hrecords.back image himage (of_decide_eq_true rfl),
    hpages.back page hpage (of_decide_eq_true rfl), fun hsame => ?_⟩
  have hchange := congrArg RawRecord.change (hrecords.distinct image _ himage hbare hsame)
  exact absurd hchange (by simp [image])

end ItemTable
