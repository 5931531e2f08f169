import ItemTable.Proofs.Json.WrittenText
import ItemTable.Proofs.Value.WireForm
import Mathlib.Data.Set.List

/-!
# Which documents are values

The format of values is said here without the reader: `IsWireForm` goes down a document and says of
every object which members it may have. The reader accepts the documents of the format, as far as
they are not nested too deeply, and no others (`exists_decode`, `spells_of_decode`). What it reads
from one is written as a document of the same value, unless a map in it repeats a name: then only
the last of its values is kept.

The main results are `written_value_reads_back`, from the value to the text and back, and
`read_value_writes_document`, from the text to the value and back.
-/
namespace ItemTable.AttributeValue

open ItemTable.Json

mutual

/-- The format of values: an object of one member, whose key is the name of a tag and whose payload
is of the kind that the tag says. -/
def IsWireForm : Document → Prop
  | .object members closed => closed = true ∧ IsOnlyMember members
  | _ => False

def IsOnlyMember : List (Label × Document) → Prop
  | [(label, payload)] => ∃ t : ValueTag, label = some t.name ∧ IsPayload t payload
  | _ => False

def IsPayload (t : ValueTag) : Document → Prop
  | .text s => t = .text ∨ t = .number ∨ t = .binary ∧ Text.Base64.IsCanonical s.toList
  | .boolean _ => t = .boolean ∨ t = .null
  | .list ds closed => closed = true ∧
      ((t = .textSet ∨ t = .numberSet) ∧ (∀ d ∈ ds, ∃ s, d = .text s) ∨
        t = .binarySet ∧ (∀ d ∈ ds, ∃ s, d = .text s ∧ Text.Base64.IsCanonical s.toList) ∨
        t = .list ∧ AreValues ds)
  | .object members closed => closed = true ∧ t = .map ∧ AreNamedValues members
  | _ => False

def AreValues : List Document → Prop
  | [] => True
  | d :: ds => IsWireForm d ∧ AreValues ds

def AreNamedValues : List (Label × Document) → Prop
  | [] => True
  | (label, d) :: rest => (∃ name, label = some name) ∧ IsWireForm d ∧ AreNamedValues rest

end

/-- The keys of an object. -/
def labels : Document → List Label
  | .object members _ => members.map Prod.fst
  | _ => []

mutual

/-- No object that stands under the key of maps repeats a key, at any depth. -/
def MapKeysDistinct : Document → Prop
  | .list ds _ => ItemKeysDistinct ds
  | .object members _ => MemberKeysDistinct members
  | _ => True

def ItemKeysDistinct : List Document → Prop
  | [] => True
  | d :: ds => MapKeysDistinct d ∧ ItemKeysDistinct ds

def MemberKeysDistinct : List (Label × Document) → Prop
  | [] => True
  | (label, d) :: rest =>
    (label = some ValueTag.map.name → (labels d).Nodup) ∧ MapKeysDistinct d ∧
      MemberKeysDistinct rest

end

theorem areValues_iff {ds : List Document} : AreValues ds ↔ ∀ d ∈ ds, IsWireForm d := by
  induction ds with
  | nil => simp [AreValues]
  | cons d ds ih => rw [AreValues, ih, List.forall_mem_cons]

theorem areNamedValues_iff {members : List (Label × Document)} :
    AreNamedValues members ↔ ∀ m ∈ members, (∃ name, m.1 = some name) ∧ IsWireForm m.2 := by
  induction members with
  | nil => simp [AreNamedValues]
  | cons m members ih => rw [AreNamedValues, ih, List.forall_mem_cons, and_assoc]

theorem isWireForm_iff {d : Document} : IsWireForm d ↔ ∃ t p, d = tagged t p ∧ IsPayload t p := by
  constructor
  · intro h
    cases d with
    | object members closed =>
      obtain ⟨rfl, h⟩ := h
      match members, h with
      | [(_, p)], ⟨t, rfl, hp⟩ => exact ⟨t, p, rfl, hp⟩
    | null | boolean | number | text | halved | list | broken => exact absurd h id
  · rintro ⟨t, p, rfl, hp⟩
    exact ⟨rfl, t, rfl, hp⟩

theorem isPayload_list_iff {p : Document} :
    IsPayload .list p ↔ ∃ ds, p = .list ds true ∧ ∀ d ∈ ds, IsWireForm d := by
  cases p <;> simp [IsPayload, areValues_iff]

theorem isPayload_map_iff {p : Document} :
    IsPayload .map p ↔
      ∃ members, p = .object members true ∧ ∀ m ∈ members, (∃ name, m.1 = some name) ∧
        IsWireForm m.2 := by
  cases p <;> simp [IsPayload, areNamedValues_iff]

/-- Documents that all come from one function are what it makes of a list. -/
theorem exists_eq_map {α : Type} {f : α → Document} {ds : List Document}
    (h : ∀ d ∈ ds, ∃ a, d = f a) :
    ∃ as : List α, ds = as.map f := by
  have hrange : ds ∈ Set.range (List.map f) := by
    rw [Set.range_list_map]
    exact fun d hd => (h d hd).imp fun _ heq => heq.symm
  exact hrange.imp fun _ heq => heq.symm

theorem exists_bytesDocument {s : String} (h : Text.Base64.IsCanonical s.toList) :
    ∃ bytes, Document.text s = bytesDocument bytes := by
  obtain ⟨bytes, heq⟩ := Text.Base64.isCanonical_iff.1 h
  refine ⟨bytes, ?_⟩
  rw [bytesDocument, ← heq, String.ofList_toList]

theorem isCanonical_bytes (bytes : List UInt8) :
    Text.Base64.IsCanonical (String.ofList (Text.Base64.encode bytes)).toList := by
  rw [String.toList_ofList]
  exact Text.Base64.isCanonical_encode bytes

/-- The payloads of the other tags are those of their values. -/
theorem isPayload_plain_iff {t : ValueTag} (hlist : t ≠ .list) (hmap : t ≠ .map) {p : Document} :
    IsPayload t p ↔ ∃ v : AttributeValue, v.tag = t ∧ p = v.payload := by
  constructor
  · intro h
    cases p with
    | text s =>
      obtain rfl | rfl | ⟨rfl, hbytes⟩ := h
      · exact ⟨.text s, rfl, rfl⟩
      · exact ⟨.number s, rfl, rfl⟩
      · obtain ⟨bytes, heq⟩ := exists_bytesDocument hbytes
        exact ⟨.binary bytes, rfl, heq⟩
    | boolean b =>
      obtain rfl | rfl := h
      · exact ⟨.boolean b, rfl, rfl⟩
      · exact ⟨.null b, rfl, rfl⟩
    | list ds closed =>
      obtain ⟨rfl, ⟨htag, hds⟩ | ⟨rfl, hds⟩ | ⟨rfl, -⟩⟩ := h
      · obtain ⟨ss, rfl⟩ := exists_eq_map hds
        obtain rfl | rfl := htag
        · exact ⟨.textSet ss, rfl, rfl⟩
        · exact ⟨.numberSet ss, rfl, rfl⟩
      · obtain ⟨elements, rfl⟩ := exists_eq_map (f := bytesDocument) fun d hd => by
          obtain ⟨s, rfl, hs⟩ := hds d hd
          exact exists_bytesDocument hs
        exact ⟨.binarySet elements, rfl, rfl⟩
      · exact absurd rfl hlist
    | object members closed => exact absurd h.2.1 hmap
    | null | number | halved | broken => exact absurd h id
  · rintro ⟨v, rfl, rfl⟩
    cases v with
    | text | number | boolean | null => simp [payload, IsPayload, tag]
    | binary bytes => exact .inr (.inr ⟨rfl, isCanonical_bytes bytes⟩)
    | textSet elements =>
      refine ⟨rfl, .inl ⟨.inl rfl, fun d hd => ?_⟩⟩
      obtain ⟨s, -, rfl⟩ := List.mem_map.1 hd
      exact ⟨s, rfl⟩
    | numberSet elements =>
      refine ⟨rfl, .inl ⟨.inr rfl, fun d hd => ?_⟩⟩
      obtain ⟨s, -, rfl⟩ := List.mem_map.1 hd
      exact ⟨s, rfl⟩
    | binarySet elements =>
      refine ⟨rfl, .inr (.inl ⟨rfl, fun d hd => ?_⟩)⟩
      obtain ⟨bytes, -, rfl⟩ := List.mem_map.1 hd
      exact ⟨_, rfl, isCanonical_bytes bytes⟩
    | list => exact absurd rfl hlist
    | map => exact absurd rfl hmap

theorem itemKeysDistinct_iff {ds : List Document} :
    ItemKeysDistinct ds ↔ ∀ d ∈ ds, MapKeysDistinct d := by
  induction ds with
  | nil => simp [ItemKeysDistinct]
  | cons d ds ih => rw [ItemKeysDistinct, ih, List.forall_mem_cons]

theorem MapKeysDistinct.items {ds : List Document}
    (h : MapKeysDistinct (tagged .list (.list ds true))) :
    ∀ d ∈ ds, MapKeysDistinct d :=
  itemKeysDistinct_iff.1 h.2.1

theorem MemberKeysDistinct.values {members : List (Label × Document)}
    (h : MemberKeysDistinct members) :
    ∀ m ∈ members, MapKeysDistinct m.2 := by
  induction members with
  | nil => exact List.forall_mem_nil _
  | cons m members ih => exact List.forall_mem_cons.2 ⟨h.2.1, ih h.2.2⟩

theorem MapKeysDistinct.entries {members : List (Label × Document)}
    (h : MapKeysDistinct (tagged .map (.object members true))) :
    (members.map Prod.fst).Nodup ∧ ∀ m ∈ members, MapKeysDistinct m.2 :=
  ⟨h.1 rfl, MemberKeysDistinct.values h.2.1⟩

/-- What reading a value establishes about the document that it is read from. -/
structure Spells (depth : Nat) (d : Document) (v : AttributeValue) : Prop where
  format : IsWireForm d
  nesting : d.nesting < depth
  ordered : v.Ordered
  same : MapKeysDistinct d → d.Same v.toDocument

theorem nesting_tagged_lt_iff {t : ValueTag} {p : Document} {n : Nat} :
    (tagged t p).nesting < n ↔ 1 < n ∧ p.nesting < n - 1 := by
  rw [tagged, Document.nesting_object_lt_iff, List.forall_mem_singleton]

theorem same_tagged {t : ValueTag} {p p' : Document} (h : p.Same p') :
    (tagged t p).Same (tagged t p') :=
  Document.same_singleton_iff.2 ⟨p, rfl, h⟩

theorem orderedItems_iff {items : List AttributeValue} :
    OrderedItems items ↔ ∀ v ∈ items, v.Ordered := by
  induction items with
  | nil => simp [OrderedItems]
  | cons v vs ih => rw [OrderedItems, ih, List.forall_mem_cons]

theorem orderedEntries_iff {entries : List (String × AttributeValue)} :
    OrderedEntries entries ↔ ∀ e ∈ entries, e.2.Ordered := by
  induction entries with
  | nil => simp [OrderedEntries]
  | cons e es ih => rw [OrderedEntries, ih, List.forall_mem_cons]

section Spells

variable {depth : Nat}

/-- The values of a list are read with two levels of nesting less. -/
theorem spells_list {ds : List Document} {items : List AttributeValue} (hdepth : 1 < depth - 1)
    (hread : List.Forall₂ (fun d v => decode (depth - 1 - 1) d = .ok v) ds items)
    (hinside : ∀ d v, decode (depth - 1 - 1) d = .ok v → Spells (depth - 1 - 1) d v) :
    Spells depth (tagged .list (.list ds true)) (.list items) := by
  obtain ⟨hds, hitems⟩ := exists_mem_of_forall₂ (hread.imp hinside)
  constructor
  · refine isWireForm_iff.2 ⟨.list, _, rfl, isPayload_list_iff.2 ⟨ds, rfl, fun d hd => ?_⟩⟩
    obtain ⟨v, -, hv⟩ := hds d hd
    exact hv.format
  · rw [nesting_tagged_lt_iff, Document.nesting_list_lt_iff]
    refine ⟨by omega, hdepth, fun d hd => ?_⟩
    obtain ⟨v, -, hv⟩ := hds d hd
    exact hv.nesting
  · refine orderedItems_iff.2 fun v hv => ?_
    obtain ⟨d, -, hd⟩ := hitems v hv
    exact hd.ordered
  · intro hdistinct
    rw [toDocument_eq_tagged]
    refine same_tagged (Document.same_list_iff.2 ⟨ds, rfl, List.forall₂_map_right_iff.2 ?_⟩)
    obtain ⟨hlength, hzip⟩ := List.forall₂_iff_zip.1 hread
    refine List.forall₂_iff_zip.2 ⟨hlength, fun {d v} hmem => ?_⟩
    exact (hinside d v (hzip hmem)).same (hdistinct.items d (List.of_mem_zip hmem).1)

/-- The members of a map may repeat a key, and what the last one says is read. -/
theorem spells_map {ms : List (Label × Document)} {es : List (String × AttributeValue)}
    (hdepth : 1 < depth - 1)
    (hread : List.Forall₂ (Decoder.ReadsEntry (decode (depth - 1 - 1))) ms es)
    (hinside : ∀ d v, decode (depth - 1 - 1) d = .ok v → Spells (depth - 1 - 1) d v) :
    Spells depth (tagged .map (.object ms true)) (ofBindings (.ofList es)) := by
  obtain ⟨hms, hes⟩ := exists_mem_of_forall₂ hread
  constructor
  · refine isWireForm_iff.2 ⟨.map, _, rfl, isPayload_map_iff.2 ⟨ms, rfl, fun m hm => ?_⟩⟩
    obtain ⟨e, -, hkey, hvalue⟩ := hms m hm
    exact ⟨⟨e.1, hkey⟩, (hinside _ _ hvalue).format⟩
  · rw [nesting_tagged_lt_iff, Document.nesting_object_lt_iff]
    refine ⟨by omega, hdepth, fun m hm => ?_⟩
    obtain ⟨e, -, -, hvalue⟩ := hms m hm
    exact (hinside _ _ hvalue).nesting
  · refine ⟨(Bindings.ofList es).ascending, orderedEntries_iff.2 fun e he => ?_⟩
    have hmem := Bindings.mem_of_get?_ofList ((Bindings.get?_eq_some_iff _ _ _).2 he)
    obtain ⟨m, -, -, hvalue⟩ := hes e hmem
    exact (hinside _ _ hvalue).ordered
  · intro hdistinct
    obtain ⟨hnodup, hvalues⟩ := hdistinct.entries
    obtain ⟨hlength, hzip⟩ := List.forall₂_iff_zip.1 hread
    have hkeys : ms.map Prod.fst = (es.map Prod.fst).map some := by
      rw [← List.forall₂_eq_eq_eq, List.map_map, List.forall₂_map_left_iff,
        List.forall₂_map_right_iff]
      exact hread.imp fun _ _ h => h.1
    rw [hkeys] at hnodup
    rw [toDocument_eq_tagged]
    refine same_tagged (Document.same_object_iff.2 ⟨ms, es.map entryDocument, rfl, ?_,
      (Bindings.perm_entries_ofList hnodup.of_map).map _⟩)
    refine List.forall₂_map_right_iff.2 (List.forall₂_iff_zip.2 ⟨hlength, fun {m e} hmem => ?_⟩)
    obtain ⟨hkey, hvalue⟩ := hzip hmem
    exact ⟨hkey, (hinside _ _ hvalue).same (hvalues m (List.of_mem_zip hmem).1)⟩

theorem spells_plain {v : AttributeValue} (hlist : v.tag ≠ .list) (hmap : v.tag ≠ .map)
    (hdepth : 1 < depth) (hinside : v.payload.nesting < depth - 1) :
    Spells depth (tagged v.tag v.payload) v := by
  constructor
  · exact isWireForm_iff.2 ⟨_, _, rfl, (isPayload_plain_iff hlist hmap).2 ⟨v, rfl, rfl⟩⟩
  · exact nesting_tagged_lt_iff.2 ⟨hdepth, hinside⟩
  · cases v with
    | list => exact absurd rfl hlist
    | map => exact absurd rfl hmap
    | text | number | binary | textSet | numberSet | binarySet | boolean | null => trivial
  · intro _
    rw [toDocument_eq_tagged]
    exact Document.same_refl _

/-- The induction is on the nesting that is allowed, which every level of lists and objects uses
up. -/
theorem spells_of_decode {d : Document} {v : AttributeValue} (h : decode depth d = .ok v) :
    Spells depth d v := by
  induction depth using Nat.strong_induction_on generalizing d v with
  | _ depth ih =>
    obtain ⟨t, p, rfl, hdepth, hp⟩ := decode_eq_ok.1 h
    have hinside (d' : Document) (v' : AttributeValue) (h' : decode (depth - 1 - 1) d' = .ok v') :
        Spells (depth - 1 - 1) d' v' := ih _ (by omega) h'
    by_cases hlist : t = .list
    · subst hlist
      rw [decodePayload_list, map_eq_ok] at hp
      obtain ⟨items, hitems, rfl⟩ := hp
      obtain ⟨ds, rfl, hdepth', hread⟩ := Decoder.list_eq_ok.1 hitems
      exact spells_list hdepth' hread hinside
    by_cases hmap : t = .map
    · subst hmap
      rw [decodePayload_map, map_eq_ok] at hp
      obtain ⟨m, hm, rfl⟩ := hp
      obtain ⟨ms, es, rfl, hdepth', hread, rfl⟩ := Decoder.bindings_eq_ok.1 hm
      exact spells_map hdepth' hread hinside
    · rw [decodePayload_plain hlist hmap, decodePlain_eq_ok (by omega)] at hp
      obtain ⟨rfl, -, -, rfl, hnesting⟩ := hp
      exact spells_plain hlist hmap hdepth hnesting

/-- Every document in the format is read, as far as it is not nested too deeply. -/
theorem exists_decode {d : Document} (h : IsWireForm d) (hdepth : d.nesting < depth) :
    ∃ v, decode depth d = .ok v := by
  induction depth using Nat.strong_induction_on generalizing d with
  | _ depth ih =>
    obtain ⟨t, p, rfl, hp⟩ := isWireForm_iff.1 h
    obtain ⟨hone, hnesting⟩ := nesting_tagged_lt_iff.1 hdepth
    simp only [decode_eq_ok]
    by_cases hlist : t = .list
    · subst hlist
      obtain ⟨ds, rfl, hds⟩ := isPayload_list_iff.1 hp
      obtain ⟨hdepth', hinside⟩ := Document.nesting_list_lt_iff.1 hnesting
      obtain ⟨items, hread⟩ := exists_forall₂ fun d hd => ih _ (by omega) (hds d hd) (hinside d hd)
      refine ⟨.list items, _, _, rfl, hone, ?_⟩
      rw [decodePayload_list, map_eq_ok]
      exact ⟨items, Decoder.list_eq_ok.2 ⟨ds, rfl, hdepth', hread⟩, rfl⟩
    by_cases hmap : t = .map
    · subst hmap
      obtain ⟨ms, rfl, hms⟩ := isPayload_map_iff.1 hp
      obtain ⟨hdepth', hinside⟩ := Document.nesting_object_lt_iff.1 hnesting
      have hentry (m : Label × Document) (hm : m ∈ ms) :
          ∃ e, Decoder.ReadsEntry (decode (depth - 1 - 1)) m e := by
        obtain ⟨⟨name, hname⟩, hvalue⟩ := hms m hm
        obtain ⟨v, hv⟩ := ih _ (by omega) hvalue (hinside m hm)
        exact ⟨(name, v), hname, hv⟩
      obtain ⟨es, hread⟩ := exists_forall₂ hentry
      refine ⟨ofBindings (.ofList es), _, _, rfl, hone, ?_⟩
      rw [decodePayload_map, map_eq_ok]
      exact ⟨_, Decoder.bindings_eq_ok.2 ⟨ms, es, rfl, hdepth', hread, rfl⟩, rfl⟩
    · obtain ⟨v, rfl, rfl⟩ := (isPayload_plain_iff hlist hmap).1 hp
      refine ⟨v, _, _, rfl, hone, ?_⟩
      rw [decodePayload_plain hlist hmap, decodePlain_eq_ok (by omega)]
      exact ⟨rfl, hlist, hmap, rfl, hnesting⟩

end Spells

/-! ## Documents of the same value -/

theorem decode_eq_ok_iff_nesting {v : AttributeValue} (h : v.Ordered) {d : Document}
    (hsame : d.Same v.toDocument) {depth : Nat} :
    decode depth d = .ok v ↔ v.toDocument.nesting < depth := by
  rw [← hsame.nesting_eq]
  exact ⟨fun hread => (spells_of_decode hread).nesting, decode_restores v h d hsame depth⟩

theorem writable_tagged {t : ValueTag} {p : Document} (h : p.Writable) : (tagged t p).Writable :=
  ⟨rfl, ⟨t.name, rfl⟩, h, trivial⟩

theorem writable_map {α : Type} {f : α → Document} (h : ∀ a, (f a).Writable) (as : List α) :
    (Document.ofList (as.map f)).Writable := by
  refine Document.writable_list fun d hd => ?_
  obtain ⟨a, -, rfl⟩ := List.mem_map.1 hd
  exact h a

mutual

/-- The writer of texts shows the wire form of a value as it is. -/
theorem writable_toDocument : ∀ v : AttributeValue, v.toDocument.Writable
  | list items => writable_tagged ⟨rfl, writable_itemDocuments items⟩
  | map entries => writable_tagged ⟨rfl, writable_entryDocuments entries⟩
  | textSet elements | numberSet elements =>
    writable_tagged (writable_map (f := .text) (fun _ => trivial) elements)
  | binarySet elements =>
    writable_tagged (writable_map (f := bytesDocument) (fun _ => trivial) elements)
  | text _ | number _ | binary _ | boolean _ | null _ => writable_tagged trivial

theorem writable_itemDocuments : ∀ items : List AttributeValue,
    Document.WritableItems (itemDocuments items)
  | [] => trivial
  | v :: vs => ⟨writable_toDocument v, writable_itemDocuments vs⟩

theorem writable_entryDocuments : ∀ entries : List (String × AttributeValue),
    Document.WritableMembers (entryDocuments entries)
  | [] => trivial
  | (name, v) :: es => ⟨⟨name, rfl⟩, writable_toDocument v, writable_entryDocuments es⟩

end

/-- A value survives the wire: it is read back from the text that is written of it, and from every
other text of the same value, as far as its lists and maps are not nested more deeply than the
reader goes. -/
theorem written_value_reads_back {v : AttributeValue} (h : v.Ordered) :
    (∀ depth, decode depth v.toDocument = .ok v ↔ v.toDocument.nesting < depth) ∧
      Document.ofText v.toDocument.toText = some v.toDocument ∧
      (decodeText decode v.toDocument.toText = .ok v ↔ v.toDocument.nesting < depthLimit) ∧
      ∀ s d, Document.ofText s = some d → d.Same v.toDocument →
        (decodeText decode s = .ok v ↔ v.toDocument.nesting < depthLimit) := by
  have htext := Document.ofText_toText (writable_toDocument v)
  have hevery (s : String) (d : Document) (hs : Document.ofText s = some d)
      (hsame : d.Same v.toDocument) :
      decodeText decode s = .ok v ↔ v.toDocument.nesting < depthLimit := by
    rw [decodeText_of_ofText hs]
    exact decode_eq_ok_iff_nesting h hsame
  exact ⟨fun depth => decode_eq_ok_iff_nesting h (Document.same_refl _), htext,
    hevery _ _ htext (Document.same_refl _), hevery⟩

/-- Binary payloads of lengths that leave one and two bytes over, inside a list inside a map. -/
theorem nested_binaries_read_back :
    let v : AttributeValue :=
      .map [("bytes", .list [.binary [251, 239, 255, 0], .binarySet [[255, 1], []]]),
        ("off", .null false)]
    v.Ordered ∧ decodeText decode v.toDocument.toText = .ok v := by
  intro v
  have hkeys : "bytes" < "off" := by decide
  have h : v.Ordered := ⟨List.pairwise_pair.2 hkeys, ⟨trivial, trivial, trivial⟩, trivial, trivial⟩
  have hnesting : v.toDocument.nesting < depthLimit := of_decide_eq_true rfl
  exact ⟨h, (written_value_reads_back h).2.2.1.2 hnesting⟩

/-- A document is read as a value if and only if it is in the format of values and not nested too
deeply, and then it is the document that is written of what has been read, unless a map in it
repeats a name. -/
theorem read_value_writes_document {s : String} {d : Document} (h : Document.ofText s = some d) :
    ((∃ v, decodeText decode s = .ok v) ↔ IsWireForm d ∧ d.nesting < depthLimit) ∧
      ∀ v, decodeText decode s = .ok v → MapKeysDistinct d →
        v.Ordered ∧ d.Same v.toDocument ∧
          Document.ofText v.toDocument.toText = some v.toDocument := by
  rw [decodeText_of_ofText h]
  constructor
  · constructor
    · rintro ⟨v, hv⟩
      exact ⟨(spells_of_decode hv).format, (spells_of_decode hv).nesting⟩
    · rintro ⟨hformat, hnesting⟩
      exact exists_decode hformat hnesting
  · intro v hv hdistinct
    exact ⟨(spells_of_decode hv).ordered, (spells_of_decode hv).same hdistinct,
      Document.ofText_toText (writable_toDocument v)⟩

/-- The document of a map of two values, whose members stand in another order than they are written
in. -/
theorem reordered_map_read_and_written :
    let d := tagged .map (.object [(some "b", tagged .binary (.text "AQ==")),
      (some "a", tagged .list (.list [] true))] true)
    let v : AttributeValue := .map [("a", .list []), ("b", .binary [1])]
    decodeText decode d.toText = .ok v ∧ MapKeysDistinct d ∧ d.Same v.toDocument := by
  intro d v
  have htext : Document.ofText d.toText = some d := Document.ofText_toText (by
    simp [d, tagged, Document.Writable, Document.WritableItems, Document.WritableMembers])
  have hread : decodeText decode d.toText = .ok v := (decodeText_of_ofText htext).trans rfl
  have hdistinct : MapKeysDistinct d := by
    simp [d, tagged, MapKeysDistinct, MemberKeysDistinct, ItemKeysDistinct, labels, ValueTag.name]
  exact ⟨hread, hdistinct, ((read_value_writes_document htext).2 v hread hdistinct).2.1⟩

end ItemTable.AttributeValue
