import ItemTable.Proofs.Json.TypedReading
import ItemTable.Proofs.Text.CanonicalBase64
import ItemTable.Value.Wire

/-!
# What is read as an attribute value

A value is read off an object of one member, and `decode_eq_ok` says how: the key of the member is
the name of a tag, and the payload is read as this tag has it. The readers of lists and of maps of
values are the general ones (`decodePayload_list`, `decodePayload_map`), and those of the other
payloads accept exactly what is written of a value (`decodePlain_eq_ok`). So each value is read back
from its wire form, at any depth of nesting that is allowed: `decode_restores`. The members of a map
may stand in any order, which is why it speaks of documents of the same value.
-/
namespace ItemTable.AttributeValue

open ItemTable.Json

theorem itemDocuments_eq_map (items : List AttributeValue) :
    itemDocuments items = items.map toDocument := by
  induction items with
  | nil => rfl
  | cons v vs ih => rw [itemDocuments, ih, List.map_cons]

/-- A value of a map as a member of its object. -/
def entryDocument (e : String × AttributeValue) : Label × Document := (some e.1, e.2.toDocument)

theorem entryDocuments_eq_map (entries : List (String × AttributeValue)) :
    entryDocuments entries = entries.map entryDocument := by
  induction entries with
  | nil => rfl
  | cons e es ih => rw [entryDocuments, ih, List.map_cons, entryDocument]

theorem decodeItems_eq (depth : Nat) (closed : Bool) (ds : List Document) :
    decodeItems depth closed ds = Decoder.items (decode depth) closed ds := by
  induction ds with
  | nil => rfl
  | cons d ds ih => rw [decodeItems, ih, Decoder.items]

theorem decodeEntries_eq (depth : Nat) (closed : Bool) (m : Bindings AttributeValue)
    (members : List (Label × Document)) :
    decodeEntries depth closed m.entries members =
      Bindings.entries <$> Decoder.entries (decode depth) closed m members := by
  induction members generalizing m with
  | nil => cases closed <;> rfl
  | cons member rest ih =>
    have hplace (key : String) (v : AttributeValue) :
        placeEntry key v m.entries = (m.insert key v).entries := rfl
    simp only [decodeEntries, Decoder.entries, hplace, ih, map_bind]

theorem decodeEntries_nil (depth : Nat) (closed : Bool) (members : List (Label × Document)) :
    decodeEntries depth closed [] members =
      Bindings.entries <$> Decoder.entries (decode depth) closed .empty members :=
  decodeEntries_eq depth closed .empty members

/-- The payload of a list is read as a list of values, and that of a map as a map of values. -/
theorem decodePayload_list (depth : Nat) (d : Document) :
    decodePayload .list depth d = list <$> Decoder.list decode depth d := by
  cases d with
  | list ds closed => simp only [decodePayload, Decoder.list, decodeItems_eq, map_bind]
  | null | boolean | number | text | halved | object | broken =>
    simp only [decodePayload, decodePlain, Decoder.list, map_unexpected]

theorem decodePayload_map (depth : Nat) (d : Document) :
    decodePayload .map depth d = ofBindings <$> Decoder.bindings decode depth d := by
  cases d with
  | object members closed =>
    simp only [decodePayload, Decoder.bindings, decodeEntries_nil, map_bind, Functor.map_map]
    rfl
  | null | boolean | number | text | halved | list | broken =>
    simp only [decodePayload, decodePlain, Decoder.bindings, map_unexpected]

theorem decodePayload_plain {t : ValueTag} (hlist : t ≠ .list) (hmap : t ≠ .map) (depth : Nat)
    (d : Document) : decodePayload t depth d = decodePlain t depth d := by
  cases d with
  | list ds closed | object members closed =>
    cases t <;> first | rfl | contradiction
  | null | boolean | number | text | halved | broken => rfl

theorem decodeBytes_eq_ok {s : String} {bytes : List UInt8} :
    decodeBytes s = .ok bytes ↔ s = String.ofList (Text.Base64.encode bytes) := by
  have hlist : s = String.ofList (Text.Base64.encode bytes) ↔
      s.toList = Text.Base64.encode bytes := by
    rw [← String.toList_inj, String.toList_ofList]
  rw [hlist, ← Text.Base64.decode?_eq_some_iff, decodeBytes]
  cases Text.Base64.decode? s.toList with
  | none => simp
  | some bytes' => simp

/-- A value's payload in its wire form. -/
def payload : AttributeValue → Document
  | text s | number s => .text s
  | binary bytes => bytesDocument bytes
  | textSet elements | numberSet elements => .ofList (elements.map .text)
  | binarySet elements => .ofList (elements.map bytesDocument)
  | boolean b | null b => .boolean b
  | list items => .list (items.map toDocument) true
  | map entries => .object (entries.map entryDocument) true

theorem toDocument_eq_tagged (v : AttributeValue) : v.toDocument = tagged v.tag v.payload := by
  cases v with
  | list items => rw [toDocument, itemDocuments_eq_map, tag, payload]
  | map entries => rw [toDocument, entryDocuments_eq_map, tag, payload]
  | text | number | binary | textSet | numberSet | binarySet | boolean | null =>
    rw [toDocument]
    rfl

theorem list_text_eq_ok {depth : Nat} {d : Document} {ss : List String} :
    Decoder.list Decoder.text depth d = .ok ss ↔ d = .ofList (ss.map .text) ∧ 1 < depth := by
  have hread (ds : List Document) :
      List.Forall₂ (fun d s => Decoder.text (depth - 1) d = .ok s) ds ss ↔ ds = ss.map .text := by
    simp only [Decoder.text_eq_ok]
    rw [← List.forall₂_map_right_iff (R := Eq), List.forall₂_eq_eq_eq]
  simp only [Decoder.list_eq_ok, hread]
  constructor
  · rintro ⟨ds, rfl, hdepth, rfl⟩
    exact ⟨rfl, hdepth⟩
  · rintro ⟨rfl, hdepth⟩
    exact ⟨_, rfl, hdepth, rfl⟩

theorem forall₂_decodeBytes {ss : List String} {elements : List (List UInt8)} :
    List.Forall₂ (fun s bytes => decodeBytes s = .ok bytes) ss elements ↔
      ss = elements.map fun bytes => String.ofList (Text.Base64.encode bytes) := by
  simp only [decodeBytes_eq_ok]
  rw [← List.forall₂_map_right_iff (R := Eq), List.forall₂_eq_eq_eq]

/-- A list of texts nests nothing further. -/
theorem nesting_map_lt_iff {α : Type} {f : α → Document} (h : ∀ a, (f a).nesting = 0) (as : List α)
    {n : Nat} : (Document.ofList (as.map f)).nesting < n ↔ 1 < n := by
  rw [Document.ofList, Document.nesting_list_lt_iff]
  refine and_iff_left_of_imp fun hn d hd => ?_
  obtain ⟨a, -, rfl⟩ := List.mem_map.1 hd
  rw [h a]
  omega

theorem decodePlain_eq_ok {t : ValueTag} {depth : Nat} (hdepth : 0 < depth) {d : Document}
    {v : AttributeValue} :
    decodePlain t depth d = .ok v ↔
      t = v.tag ∧ t ≠ .list ∧ t ≠ .map ∧ d = v.payload ∧ v.payload.nesting < depth := by
  cases t with
  | text =>
    simp only [decodePlain, map_eq_ok, Decoder.text_eq_ok]
    cases v <;> simp [tag, payload, Document.nesting, hdepth]
  | number =>
    simp only [decodePlain, map_eq_ok, Decoder.text_eq_ok]
    cases v <;> simp [tag, payload, Document.nesting, hdepth]
  | boolean =>
    simp only [decodePlain, map_eq_ok, Decoder.boolean_eq_ok]
    cases v <;> simp [tag, payload, Document.nesting, hdepth]
  | null =>
    simp only [decodePlain, map_eq_ok, Decoder.boolean_eq_ok]
    cases v <;> simp [tag, payload, Document.nesting, hdepth]
  | binary =>
    simp only [decodePlain, bind_eq_ok, map_eq_ok, Decoder.text_eq_ok, decodeBytes_eq_ok]
    cases v <;> simp [tag, payload, bytesDocument, Document.nesting, hdepth]
  | textSet =>
    simp only [decodePlain, map_eq_ok, list_text_eq_ok]
    cases v <;>
      simp [tag, payload, nesting_map_lt_iff fun s => (rfl : (Document.text s).nesting = 0)]
  | numberSet =>
    simp only [decodePlain, map_eq_ok, list_text_eq_ok]
    cases v <;>
      simp [tag, payload, nesting_map_lt_iff fun s => (rfl : (Document.text s).nesting = 0)]
  | binarySet =>
    have hbytes (elements : List (List UInt8)) :
        (elements.map fun bytes => String.ofList (Text.Base64.encode bytes)).map Document.text =
          elements.map bytesDocument := List.map_map
    simp only [decodePlain, bind_eq_ok, map_eq_ok, list_text_eq_ok, mapM_eq_ok, forall₂_decodeBytes]
    cases v <;>
      simp [tag, payload, hbytes, nesting_map_lt_iff fun b => (rfl : (bytesDocument b).nesting = 0),
        -List.map_map]
  | list => simp [decodePlain]
  | map => simp [decodePlain]

theorem onlyMember_eq_ok {α : Type} {rest : List (Label × Document)} {closed : Bool} {a b : α} :
    onlyMember rest closed a = .ok b ↔ rest = [] ∧ closed = true ∧ a = b := by
  cases rest with
  | nil => simp [onlyMember, ending_eq_ok]
  | cons member rest =>
    refine iff_of_false (fun h => ?_) (by simp)
    obtain ⟨_, -, h⟩ := bind_eq_ok.1 h
    cases h

theorem ofName?_eq_some_iff {name : String} {t : ValueTag} :
    ValueTag.ofName? name = some t ↔ name = t.name := by
  constructor
  · intro h
    exact (of_decide_eq_true (List.find?_some (p := fun t : ValueTag =>
        decide (t.name = name)) h)).symm
  · rintro rfl
    exact ValueTag.ofName?_name t

/-- A value is read off an object of one member, whose key says how its payload is read. -/
theorem decode_eq_ok {depth : Nat} {d : Document} {v : AttributeValue} :
    decode depth d = .ok v ↔
      ∃ t p, d = tagged t p ∧ 1 < depth ∧ decodePayload t (depth - 1) p = .ok v := by
  constructor
  · intro h
    cases d with
    | object members closed =>
      rw [decode, bind_eq_ok] at h
      obtain ⟨_, henter, h⟩ := h
      obtain ⟨hdepth, rfl⟩ := enter_eq_ok.1 henter
      cases members with
      | nil =>
        obtain ⟨_, -, h⟩ := bind_eq_ok.1 h
        cases h
      | cons member rest =>
        rw [decodeMembers, bind_eq_ok] at h
        obtain ⟨name, hname, h⟩ := h
        dsimp only at h
        split at h
        · cases h
        · next t htag =>
          obtain ⟨v', hv', h⟩ := bind_eq_ok.1 h
          obtain ⟨rfl, rfl, rfl⟩ := onlyMember_eq_ok.1 h
          refine ⟨t, member.2, ?_, hdepth, hv'⟩
          rw [tagged, ← ofName?_eq_some_iff.1 htag, ← labelText_eq_ok.1 hname]
    | null | boolean | number | text | halved | list | broken => simp [decode] at h
  · rintro ⟨t, p, rfl, hdepth, h⟩
    rw [tagged, decode, bind_eq_ok]
    refine ⟨_, enter_eq_ok.2 ⟨hdepth, rfl⟩, ?_⟩
    rw [decodeMembers, bind_eq_ok]
    refine ⟨t.name, rfl, ?_⟩
    simp only [ValueTag.ofName?_name]
    exact bind_eq_ok.2 ⟨v, h, onlyMember_eq_ok.2 ⟨rfl, rfl, rfl⟩⟩

theorem tagged_restores {t : ValueTag} {p : Document} {v : AttributeValue}
    (h : Decoder.Restores (decodePayload t) p v) : decode.Restores (tagged t p) v := by
  intro d hsame depth hdepth
  obtain ⟨p', rfl, hp⟩ := Document.same_singleton_iff.1 hsame
  obtain ⟨hdepth, hinside⟩ := Document.nesting_object_lt_iff.1 hdepth
  exact decode_eq_ok.2 ⟨t, p', rfl, hdepth, h p' hp _ (hinside _ List.mem_cons_self)⟩

theorem same_payload_iff {v : AttributeValue} (hlist : v.tag ≠ .list) (hmap : v.tag ≠ .map)
    {d : Document} : d.Same v.payload ↔ d = v.payload := by
  cases v with
  | text | number | binary | boolean | null => exact Document.same_iff_eq rfl
  | textSet elements | numberSet elements => exact Document.same_map_iff (fun _ => rfl) elements
  | binarySet elements => exact Document.same_map_iff (fun _ => rfl) elements
  | list => exact absurd rfl hlist
  | map => exact absurd rfl hmap

theorem plain_restores {v : AttributeValue} (hlist : v.tag ≠ .list) (hmap : v.tag ≠ .map) :
    decode.Restores v.toDocument v := by
  rw [toDocument_eq_tagged]
  refine tagged_restores fun d hsame depth hdepth => ?_
  obtain rfl := (same_payload_iff hlist hmap).1 hsame
  rw [decodePayload_plain hlist hmap, decodePlain_eq_ok (Nat.zero_lt_of_lt hdepth)]
  exact ⟨rfl, hlist, hmap, rfl, hdepth⟩

mutual

/-- Each value is read back from its wire form, whatever the order of the members of its maps. -/
theorem decode_restores : ∀ v : AttributeValue, v.Ordered → decode.Restores v.toDocument v
  | list items, h => by
    rw [toDocument_eq_tagged]
    refine tagged_restores ?_
    rw [tag, funext fun depth => funext fun d => decodePayload_list depth d]
    exact (Decoder.list_restores toDocument (decodeItems_restores items h)).map list
  | map entries, h => by
    rw [toDocument_eq_tagged]
    refine tagged_restores ?_
    rw [tag, funext fun depth => funext fun d => decodePayload_map depth d]
    exact (Decoder.bindings_restores toDocument (m := ⟨entries, h.1⟩)
      (decodeEntries_restores entries h.2)).map ofBindings
  | text _, _ | number _, _ | binary _, _ | textSet _, _ | numberSet _, _ | binarySet _, _
  | boolean _, _ | null _, _ => plain_restores ValueTag.noConfusion ValueTag.noConfusion

theorem decodeItems_restores : ∀ items : List AttributeValue, OrderedItems items →
    ∀ v ∈ items, decode.Restores v.toDocument v
  | [], _ => List.forall_mem_nil _
  | v :: vs, h => List.forall_mem_cons.2 ⟨decode_restores v h.1, decodeItems_restores vs h.2⟩

theorem decodeEntries_restores :
    ∀ entries : List (String × AttributeValue), OrderedEntries entries →
    ∀ e ∈ entries, decode.Restores e.2.toDocument e.2
  | [], _ => List.forall_mem_nil _
  | (_, v) :: es, h => List.forall_mem_cons.2 ⟨decode_restores v h.1, decodeEntries_restores es h.2⟩

end

end ItemTable.AttributeValue
