import ItemTable.Proofs.Json.SameValue
import ItemTable.Service.Items

/-!
# What the service is sent

A request is written in two ways: by `toDocument`, member by member, and by the client of the
service, from what has been set on it. Both leave out the same members and write values alike, so
the body that the service is sent is the wire form of the request: `sends_wire_form`. About the
client it is assumed that it writes the members that are set and no others, `Client.WritesMembers`;
in which order is left to it.
-/
namespace ItemTable.Service

open ItemTable.Json

/-! ## Values and items -/

namespace Value

mutual

/-- A value that is handed to the client is written as it is written here. -/
theorem toDocument_ofAttribute : ∀ v : AttributeValue, (ofAttribute v).toDocument = v.toDocument
  | .list items => by
    rw [ofAttribute, toDocument, AttributeValue.toDocument, itemDocuments_ofItems items]
  | .map entries => by
    rw [ofAttribute, toDocument, AttributeValue.toDocument, fieldDocuments_ofEntries entries]
  | .text _ | .number _ | .binary _ | .textSet _ | .numberSet _ | .binarySet _ | .boolean _
  | .null _ => by
    rw [ofAttribute, toDocument, AttributeValue.toDocument]

theorem itemDocuments_ofItems : ∀ items : List AttributeValue,
    itemDocuments (ofItems items) = AttributeValue.itemDocuments items
  | [] => rfl
  | v :: vs => by
    rw [ofItems, itemDocuments, AttributeValue.itemDocuments, toDocument_ofAttribute v,
      itemDocuments_ofItems vs]

theorem fieldDocuments_ofEntries : ∀ entries : List (String × AttributeValue),
    fieldDocuments (ofEntries entries) = AttributeValue.entryDocuments entries
  | [] => rfl
  | (name, v) :: es => by
    rw [ofEntries, fieldDocuments, AttributeValue.entryDocuments, toDocument_ofAttribute v,
      fieldDocuments_ofEntries es]

end

end Value

theorem Fields.toDocument_ofItem (item : Item) : (ofItem item).toDocument = item.toDocument := by
  rw [toDocument, ofItem, Value.fieldDocuments_ofEntries, Item.toDocument]

/-- An empty item is not set, and it is left out. -/
theorem Member.fields_ofItem? (name : String) (item : Item) :
    Member.fields name (Fields.ofItem? item) = itemMember name item := by
  unfold Member.fields Fields.ofItem? itemMember
  split
  · rfl
  · rw [Option.map_some, Fields.toDocument_ofItem, Json.Member.optional, Option.map_some]

theorem Member.names_namesOf? (names : Bindings String) :
    Member.names (namesOf? names) = namesMember names := by
  unfold Member.names namesOf? namesMember
  split <;> rfl

/-! ## Requests -/

theorem standard_queryBody (q : QueryRequest) :
    Client.standard.queryBody (.ofRequest q) = q.toDocument := by
  simp only [Client.standard, QueryArguments.ofRequest, Member.names_namesOf?,
    Member.fields_ofItem?]
  rfl

theorem standard_scanBody (s : ScanRequest) :
    Client.standard.scanBody (.ofRequest s) = s.toDocument := by
  simp only [Client.standard, ScanArguments.ofRequest, Member.names_namesOf?, Member.fields_ofItem?]
  rfl

theorem standard_updateBody (u : UpdateRequest) :
    Client.standard.updateBody (.ofRequest u) = u.toDocument := by
  have hkey :
      Member.fields "Key" (some (Fields.ofItem u.key)) = .always "Key" u.key.toDocument := by
    rw [Member.fields, Option.map_some, Fields.toDocument_ofItem, Json.Member.optional,
      Option.map_some, Json.Member.always]
  simp only [Client.standard, UpdateArguments.ofRequest, Member.names_namesOf?,
    Member.fields_ofItem?, hkey]
  rfl

/-- The client writes each member that is set under its name, no other members, and values in their
tagged form. -/
structure Client.WritesMembers (c : Client) : Prop where
  query : ∀ a, (c.queryBody a).Same (standard.queryBody a)
  scan : ∀ a, (c.scanBody a).Same (standard.scanBody a)
  update : ∀ a, (c.updateBody a).Same (standard.updateBody a)

theorem Client.standard_writesMembers : standard.WritesMembers :=
  ⟨fun _ => Document.same_refl _, fun _ => Document.same_refl _, fun _ => Document.same_refl _⟩

variable {α : Type}

theorem Exchange.sent_call (request : Sent) (read? : Document → Option α) (x : Exchange) :
    (x.call request read?).2.sent = x.sent ++ [request] := by
  unfold Exchange.call
  split <;> rfl

/-- An operation sends one request, unless its table has no name. -/
theorem sent_onTable (table : String) (request : Sent) (read? : Document → Option α)
    (x : Exchange) :
    (onTable table request read? x).2.sent =
      x.sent ++ if Text.allBlank table then [] else [request] := by
  unfold onTable
  split
  · rw [List.append_nil]
  · exact x.sent_call request read?

/-- What is sent for a request is its wire form. -/
theorem sends_wire_form {c : Client} (h : c.WritesMembers) (x : Exchange) :
    (∀ q : QueryRequest, ∃ body, body.Same q.toDocument ∧
      (queryWith c q x).2.sent =
        x.sent ++ if Text.allBlank q.table then [] else [⟨itemTarget "Query", body⟩]) ∧
      (∀ s : ScanRequest, ∃ body, body.Same s.toDocument ∧
        (scanWith c s x).2.sent =
          x.sent ++ if Text.allBlank s.table then [] else [⟨itemTarget "Scan", body⟩]) ∧
      ∀ u : UpdateRequest, ∃ body, body.Same u.toDocument ∧
        (updateWith c u x).2.sent =
          x.sent ++ if Text.allBlank u.table then [] else [⟨itemTarget "UpdateItem", body⟩] := by
  refine ⟨fun q => ⟨c.queryBody (.ofRequest q), ?_, sent_onTable _ _ _ x⟩,
    fun s => ⟨c.scanBody (.ofRequest s), ?_, sent_onTable _ _ _ x⟩,
    fun u => ⟨c.updateBody (.ofRequest u), ?_, sent_onTable _ _ _ x⟩⟩
  · rw [← standard_queryBody]
    exact h.query _
  · rw [← standard_scanBody]
    exact h.scan _
  · rw [← standard_updateBody]
    exact h.update _

/-- An update of an item with an empty key, which is sent all the same. -/
theorem standard_client_sends_update :
    let u : UpdateRequest :=
      { table := "t", key := .empty, update := "SET #n0 = :v0", condition := none
        names := Bindings.empty.insert "#n0" "a"
        values := Bindings.empty.insert ":v0" (.list [.null true])
        returnValues := some .allNew }
    Client.standard.WritesMembers ∧ ∃ body, body.Same u.toDocument ∧
      (updateWith .standard u { replies := [] }).2.sent =
          [⟨"DynamoDB_20120810.UpdateItem", body⟩] := by
  intro u
  have hnamed : Text.allBlank u.table = false := by
    show Text.allBlank "t" = false
    decide
  obtain ⟨body, hsame, hsent⟩ :=
    (sends_wire_form Client.standard_writesMembers { replies := [] }).2.2 u
  rw [hnamed] at hsent
  exact ⟨Client.standard_writesMembers, body, hsame, hsent⟩

end ItemTable.Service
