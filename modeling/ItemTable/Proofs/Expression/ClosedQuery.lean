import ItemTable.Proofs.Expression.Account
import ItemTable.Proofs.Expression.Merge
import ItemTable.Proofs.Expression.QueryCalls

/-!
# Requests of queries are closed

A request binds exactly the placeholders that its texts refer to: `Query.request_closed`. The key
condition, the filter and the projection are compiled one after another with one resolver, so that a
name placeholder means the same in all of them; the value placeholders of the key condition have no
numbers, so that they are none of the filter's. Merging the three therefore never fails.
-/
namespace ItemTable.Expression

/-- The value placeholders that a key condition may have. -/
def keyValueNames : List String := [":keyValue", ":start", ":end"]

theorem mem_keyValueNames {test : Test} {key : String} (h : key ∈ keyPlaceholders test) :
    key ∈ keyValueNames := by
  unfold keyPlaceholders at h
  unfold keyValueNames
  split at h
  · exact List.mem_cons_of_mem _ h
  · rw [List.mem_singleton.1 h]
    exact List.mem_cons_self

/-- No placeholder of a filter is one of a key condition: those have no numbers. -/
theorem numbered_not_mem_keyValueNames (stem : String) (number : Nat) :
    stem ++ toString number ∉ keyValueNames := by
  intro hmem
  have hnone : ∀ key ∈ keyValueNames, Binder.EndsStem key := by decide
  obtain ⟨digit, hdigit⟩ :=
    List.exists_mem_of_ne_nil _ (Nat.toDigits_ne_nil (b := 10) (n := number))
  have hnot := hnone _ hmem digit (by
    rw [Binder.toList_numbered]
    exact List.mem_append_right _ hdigit)
  rw [Nat.isDigit_of_mem_toDigits (by decide) (by decide) hdigit] at hnot
  cases hnot

theorem length_keyPlaceholders {test : Test} (h : test.operator.isKeyOperator = true) :
    (keyPlaceholders test).length = (Condition.operands test).length := by
  cases test with
  | equals | greaterThan | lessThan | beginsWith | between => rfl
  | notEquals | contains | oneOf => cases h

/-- The values of a key condition. -/
def keyBinder (test : Test) : Binder :=
  { filterBinder with bound := (keyPlaceholders test).zip (Condition.operands test) }

theorem keyPlaceholders_accounts {test : Test} (h : test.operator.isKeyOperator = true)
    (r : Resolver) : Accounts r filterBinder (keyPlaceholders test) r (keyBinder test) := by
  cases test with
  | equals v | greaterThan v | lessThan v | beginsWith v =>
    exact filterBinder.bindAs_accounts r (by decide) v
  | between low high =>
    have hstart : IsValueRef ":start" := by decide
    have hlow := filterBinder.bindAs_accounts r hstart low
    exact hlow.append (Binder.bindAs_accounts r _ (by decide) high)
  | notEquals | contains | oneOf => cases h

/-- A text makes a closed expression with the values that it accounts for. -/
theorem Accounts.closed {r r' : Resolver} {b : Binder} {text : String}
    (h : Accounts r filterBinder [text] r' b) : (Compiled.ofResolver text r' b.values).Closed := by
  have hnone (key : String) : key ∉ filterBinder.values.keys := List.not_mem_nil
  refine Compiled.closed_ofResolver (fun key hkey => ?_) fun key => ?_
  · exact (h.names key).2 (.inr ⟨text, List.mem_singleton.2 rfl, hkey⟩)
  · rw [h.values, or_iff_right (hnone key)]
    simp only [List.mem_singleton, exists_eq_left]

theorem compileKey_eq {c : Condition} (h : c.test.operator.isKeyOperator = true) (r : Resolver) :
    compileKey c r = .ok
      (.ofResolver (Condition.fragment c.test (r.path c.field).1 (keyPlaceholders c.test))
        (r.path c.field).2 (.ofList ((keyPlaceholders c.test).zip (Condition.operands c.test))),
      (r.path c.field).2) := by
  unfold compileKey
  rw [if_pos h]

theorem isKeyOperator_of_compileKey {c : Condition} {r : Resolver} {compiled : Compiled × Resolver}
    (h : compileKey c r = .ok compiled) : c.test.operator.isKeyOperator = true := by
  unfold compileKey at h
  split at h
  · assumption
  · cases h

/-- A compiled key condition is closed, and its names mean what the resolver says. -/
theorem compileKey_ok {c : Condition} {r r' : Resolver} {compiled : Compiled}
    (hfield : HasNoSign c.field.toList) (h : compileKey c r = .ok (compiled, r')) :
    compiled.Closed ∧ Means compiled.names r'.names.get? ∧
      ∀ key ∈ compiled.values.keys, key ∈ keyValueNames := by
  have hkey := isKeyOperator_of_compileKey h
  have hlength := length_keyPlaceholders hkey
  have hname := r.path_accounts filterBinder hfield
  have hvalues := keyPlaceholders_accounts hkey (r.path c.field).2
  have hfragment := (hname.append hvalues).join fun _ hsign => refs_fragment hsign c.test _ hlength
  rw [compileKey_eq hkey] at h
  cases h
  refine ⟨hfragment.closed, Compiled.means_ofResolver _ _ _, fun key hmem => ?_⟩
  rw [Compiled.ofResolver, Bindings.mem_keys_ofList,
    List.map_fst_zip (Nat.le_of_eq hlength)] at hmem
  exact mem_keyValueNames hmem

/-- A compiled filter is closed, its names mean what the resolver says, and its values have
placeholders of their own. -/
theorem compileFilter_ok {cs : List Condition} (r : Resolver)
    (hfields : ∀ c ∈ cs, HasNoSign c.field.toList) :
    r.Extends (compileFilter cs r).2 ∧ ∀ filter, (compileFilter cs r).1 = some filter →
      filter.Closed ∧ Means filter.names (compileFilter cs r).2.names.get? ∧
        ∀ key ∈ filter.values.keys, key ∉ keyValueNames := by
  unfold compileFilter
  split
  · exact ⟨.refl r, fun filter h => by cases h⟩
  · have hall := Condition.renderAll_accounts r (b := filterBinder) (by decide) cs hfields
    have hnumbered := Condition.renderAll_numbered r (.start ":value" 0) (by decide) cs
    have hseparator : IsSeparator " AND " := by decide
    have hjoined := hall.join fun _ hsign => refs_joinWith hsign hseparator _
    refine ⟨hall.grows, fun filter h => ?_⟩
    cases h
    refine ⟨hjoined.closed, Compiled.means_ofResolver _ _ _, fun key hkey => ?_⟩
    obtain ⟨stem, number, -, -, rfl⟩ := hnumbered.below key ((Binder.mem_keys_values _ _).1 hkey)
    exact numbered_not_mem_keyValueNames stem number

theorem compileProjection_ok (r : Resolver) {fields : List String}
    (hfields : ∀ path ∈ fields, HasNoSign path.toList) :
    r.Extends (r.projection fields).2 ∧
      (Compiled.ofResolver (r.projection fields).1 (r.projection fields).2 .empty).Closed := by
  have haccounts := r.projection_accounts filterBinder hfields
  exact ⟨haccounts.grows, haccounts.closed⟩

/-- What a query compiles to, part by part. -/
theorem Query.plan_eq {q : Query} {plan : QueryPlan} (h : q.plan = .ok plan) :
    ∃ key rest keyCondition r, q.conditions = key :: rest ∧
      compileKey key { passthrough := q.passthrough } = .ok (keyCondition, r) ∧
      plan.keyCondition = keyCondition ∧ plan.filter = (compileFilter rest r).1 ∧
      plan.projection = q.read.fields.map fun fields =>
        .ofResolver ((compileFilter rest r).2.projection fields).1
          ((compileFilter rest r).2.projection fields).2 .empty := by
  unfold Query.plan at h
  split at h
  · cases h
  · next key rest hconditions =>
    obtain ⟨⟨keyCondition, r⟩, hkey, h⟩ := bind_eq_ok.1 h
    cases h
    exact ⟨key, rest, keyCondition, r, hconditions, hkey, rfl, rfl, rfl⟩

/-- What the values of a key condition and those of a filter stand for together. -/
def valueMeaning (keyCondition : Compiled) (filter : Option Compiled) (key : String) :
    Option AttributeValue :=
  (keyCondition.values.get? key).or (filter.bind fun f => f.values.get? key)

theorem means_keyValues (keyCondition : Compiled) (filter : Option Compiled) :
    Means keyCondition.values (valueMeaning keyCondition filter) := by
  intro key v hget
  rw [valueMeaning, hget]
  rfl

/-- The values of a filter are not hidden by those of a key condition. -/
theorem means_filterValues {keyCondition filter : Compiled}
    (hkey : ∀ key ∈ keyCondition.values.keys, key ∈ keyValueNames)
    (hfilter : ∀ key ∈ filter.values.keys, key ∉ keyValueNames) :
    Means filter.values (valueMeaning keyCondition (some filter)) := by
  intro key v hget
  have hapart : key ∉ keyCondition.values.keys := fun hmem =>
    hfilter key ((Bindings.mem_keys_iff _ _).2 ⟨v, hget⟩) (hkey key hmem)
  have hnone : keyCondition.values.get? key = none := by
    rw [Option.eq_none_iff_forall_ne_some]
    intro v' hget'
    exact hapart ((Bindings.mem_keys_iff _ _).2 ⟨v', hget'⟩)
  rw [valueMeaning, hnone]
  exact hget

/-- The parts of a plan are closed, and their placeholders have one meaning. -/
theorem Query.plan_parts {q : Query} {plan : QueryPlan} (hq : q.IsChecked) (h : q.plan = .ok plan) :
    ∃ meaning, ∀ c ∈ plan.parts, c.Closed ∧ c.Fits meaning := by
  obtain ⟨key, rest, keyCondition, r, hconditions, hkey, hplanKey, hplanFilter, hplanProjection⟩ :=
    plan_eq h
  have hfield (c : Condition) (hc : c ∈ key :: rest) : HasNoSign c.field.toList :=
    hasNoSign_of_checkFieldName (hq.fields c (hconditions ▸ hc))
  obtain ⟨hkeyClosed, hkeyNames, hkeyValues⟩ := compileKey_ok (hfield key List.mem_cons_self) hkey
  obtain ⟨hgrows, hfilter⟩ := compileFilter_ok r fun c hc => hfield c (List.mem_cons_of_mem _ hc)
  -- the resolver behind the last part knows the names of all of them
  have hlast : ∃ last, (compileFilter rest r).2.Extends last ∧
      ∀ projection, plan.projection = some projection →
        projection.Closed ∧ Means projection.names last.names.get? ∧
        projection.values = .empty := by
    rw [hplanProjection]
    cases hfields : q.read.fields with
    | none => exact ⟨_, .refl _, fun projection hnone => by cases hnone⟩
    | some fields =>
      obtain ⟨hext, hclosed⟩ := compileProjection_ok (compileFilter rest r).2 fun path hpath =>
        hasNoSign_of_checkPath (hq.paths fields hfields path hpath)
      refine ⟨_, hext, fun projection hsome => ?_⟩
      cases hsome
      exact ⟨hclosed, Compiled.means_ofResolver _ _ _, rfl⟩
  obtain ⟨last, hext, hprojection⟩ := hlast
  refine ⟨⟨last.names.get?, valueMeaning keyCondition plan.filter⟩, fun c hc => ?_⟩
  rcases List.mem_cons.1 hc with rfl | hc
  · rw [hplanKey]
    exact ⟨hkeyClosed, (hgrows.trans hext).means hkeyNames, means_keyValues _ _⟩
  · rcases List.mem_append.1 hc with hc | hc
    · have hsome : plan.filter = some c := Option.mem_toList.1 hc
      obtain ⟨hclosed, hnames, hvalues⟩ := hfilter c (hplanFilter ▸ hsome)
      rw [hsome]
      exact ⟨hclosed, hext.means hnames, means_filterValues hkeyValues hvalues⟩
    · obtain ⟨hclosed, hnames, hvalues⟩ := hprojection c (Option.mem_toList.1 hc)
      refine ⟨hclosed, hnames, ?_⟩
      rw [hvalues]
      exact .empty _

end ItemTable.Expression

namespace ItemTable

open Expression

namespace QueryRequest

/-- The expression texts of a request. -/
def texts (q : QueryRequest) : List String :=
  q.keyCondition :: (q.filter.toList ++ q.projection.toList)

/-- A request binds what its texts refer to, and nothing else. -/
structure Closed (q : QueryRequest) : Prop where
  names : ∀ key, key ∈ q.names.keys ↔ ∃ text ∈ q.texts, key ∈ nameRefs text
  values : ∀ key, key ∈ q.values.keys ↔ ∃ text ∈ q.texts, key ∈ valueRefs text

end QueryRequest

/-- A plan whose parts can be merged makes a request of their texts and all their bindings. -/
theorem Expression.QueryPlan.request_of_merge {plan : QueryPlan} {scope : Scope}
    (h : plan.parts.foldlM (fun scope part => part.mergeInto scope) {} = .ok scope)
    (table : String) :
    ∃ request, plan.request table = .ok request ∧
      request.texts = plan.parts.map Compiled.text ∧
      request.names = scope.names ∧ request.values = scope.values := by
  rw [QueryPlan.request, h]
  refine ⟨_, rfl, ?_, rfl, rfl⟩
  simp [QueryRequest.texts, QueryPlan.parts, Option.toList_map]

/-- **Every query that compiles makes a request**, whatever calls have put it together, and the
request binds exactly what its texts refer to. -/
theorem Expression.Query.request_closed {calls : List QueryCall} {q : Query} {plan : QueryPlan}
    (hcalls : Query.built calls = .ok q) (hplan : q.plan = .ok plan) (table : String) :
    ∃ request, plan.request table = .ok request ∧ request.texts = plan.parts.map Compiled.text ∧
      request.Closed := by
  obtain ⟨meaning, hparts⟩ := Query.plan_parts (Query.built_isChecked hcalls) hplan
  have hempty : Scope.Fits {} meaning := ⟨.empty _, .empty _⟩
  obtain ⟨scope, hmerge, hnames, hvalues⟩ := Compiled.mergeAll_ok (fun c hc => (hparts c hc).1)
    (fun c hc => (hparts c hc).2) hempty
  obtain ⟨request, hrequest, htexts, hnames', hvalues'⟩ := QueryPlan.request_of_merge hmerge table
  refine ⟨request, hrequest, htexts, ?_⟩
  constructor
  · intro key
    rw [hnames', hnames, Bindings.keys_empty, htexts]
    simp
  · intro key
    rw [hvalues', hvalues, Bindings.keys_empty, htexts]
    simp

/-- Calls that need placeholders of names in all three expressions, some of them in two. -/
def crowdedCalls : List QueryCall :=
  [.condition "name" .between (.range (.number "1") (.number "2.5")),
    .condition "status" .oneOf (.list [.text "a", .text "b"]),
    .leaveAlone ["value"],
    .condition "name" .contains (.single (.text "x")),
    .selectFields ["status[0].my-part", "value", "name"]]

def crowdedQuery : Query where
  conditions :=
    [⟨"name", .between (.number "1") (.number "2.5")⟩, ⟨"status", .oneOf [.text "a", .text "b"]⟩,
      ⟨"name", .contains (.text "x")⟩]
  read := { fields := some ["status[0].my-part", "value", "name"] }
  passthrough := ["value"]

theorem crowdedCalls_request_closed :
    Query.built crowdedCalls = .ok crowdedQuery ∧
    (crowdedQuery.plan.toOption.map fun plan => plan.parts.map Compiled.text) = some
      ["#n0 BETWEEN :start AND :end", "#n1 IN (:value0, :value1) AND contains(#n0, :value2)",
        "#n1[0].#n2, value, #n0"] ∧
    ∃ plan request, crowdedQuery.plan = .ok plan ∧ plan.request "orders" = .ok request ∧
      request.texts = plan.parts.map Compiled.text ∧ request.Closed := by
  have hcalls : Query.built crowdedCalls = .ok crowdedQuery := rfl
  obtain ⟨plan, hplan⟩ : ∃ plan, crowdedQuery.plan = .ok plan := ⟨_, rfl⟩
  refine ⟨hcalls, by decide +kernel, plan, ?_⟩
  obtain ⟨request, hrequest, hclosed⟩ := Query.request_closed hcalls hplan "orders"
  exact ⟨request, hplan, hrequest, hclosed⟩

end ItemTable
