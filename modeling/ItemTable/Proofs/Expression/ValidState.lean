import ItemTable.Proofs.Expression.CheckedValues
import ItemTable.Proofs.Expression.ScanConditions

/-!
# Builders hold valid state only

Every accepted call keeps what a builder holds valid: the counts, the fields, the operands and the
actions (`Query.IsValid`, `Scan.IsValid`, `Update.IsValid`). What a plan or a request binds comes
from there, so that all of it can be bound. A scan records no more conditions than it has fragments,
so that the room for a fragment is room for its condition.
-/
namespace ItemTable.Expression

/-- Everything that is bound can be bound in an expression. -/
def BindsStorable (m : Bindings AttributeValue) : Prop :=
  ∀ key v, m.get? key = some v → IsStorable v

theorem bindsStorable_ofList {entries : List (String × AttributeValue)}
    (h : ∀ e ∈ entries, IsStorable e.2) : BindsStorable (.ofList entries) :=
  fun _ _ hget => h _ (Bindings.mem_of_get?_ofList hget)

theorem Compiled.mergeInto_keeps {P : String → AttributeValue → Prop} {c : Compiled} {s s' : Scope}
    (hs : ∀ key v, s.values.get? key = some v → P key v)
    (hc : ∀ key v, c.values.get? key = some v → P key v) (h : c.mergeInto s = .ok s') :
    ∀ key v, s'.values.get? key = some v → P key v :=
  (mergeInto_eq_ok_iff.1 h).2.keeps hs hc

theorem bindsStorable_bindAll {vs : List AttributeValue} (h : ∀ v ∈ vs, IsStorable v) :
    BindsStorable (filterBinder.bindAll vs).2.values := by
  intro key v hget
  obtain ⟨number, -, hplace⟩ := (get?_values_bindAll vs key v).1 hget
  exact h v (List.mem_of_getElem? hplace)

/-- A query that holds few enough conditions, each of them valid. -/
structure Query.HoldsValid (q : Query) : Prop where
  count : q.conditions.length ≤ 100
  conditions : ∀ c ∈ q.conditions, c.IsValid

/-- A query that holds valid conditions, and whose plans and requests bind values that can be
bound. -/
structure Query.IsValid (q : Query) : Prop extends q.HoldsValid where
  plan : ∀ plan, q.plan = .ok plan → ∀ part ∈ plan.parts, BindsStorable part.values
  request : ∀ plan table request, q.plan = .ok plan → plan.request table = .ok request →
    BindsStorable request.values

section Query

theorem Query.HoldsValid.apply {q q' : Query} (h : q.HoldsValid) {call : QueryCall}
    (hcall : call.apply q = .ok q') : q'.HoldsValid := by
  cases call with
  | condition field operator operand =>
    obtain ⟨hroom, c, hc, rfl⟩ := Query.add_eq_ok.1 hcall
    refine ⟨?_, List.forall_mem_append.2
      ⟨h.conditions, List.forall_mem_singleton.2 (Condition.isValid_of hc)⟩⟩
    rw [List.length_append, List.length_singleton]
    exact hroom
  | limitTo limit =>
    obtain ⟨read, -, rfl⟩ := map_eq_ok.1 hcall
    exact ⟨h.count, h.conditions⟩
  | selectFields paths =>
    obtain ⟨read, -, rfl⟩ := map_eq_ok.1 hcall
    exact ⟨h.count, h.conditions⟩
  | useIndex name | readForward forward | readConsistently consistent | startAfter key
  | leaveAlone names =>
    cases hcall
    exact ⟨h.count, h.conditions⟩

theorem Query.HoldsValid.parts {q : Query} (h : q.HoldsValid) {plan : QueryPlan}
    (hplan : q.plan = .ok plan) : ∀ part ∈ plan.parts, BindsStorable part.values := by
  obtain ⟨key, rest, keyCondition, r, hconditions, hkey, hplanKey, hplanFilter, hplanProjection⟩ :=
    plan_eq hplan
  obtain ⟨hfirst, hrest⟩ := List.forall_mem_cons.1 (hconditions ▸ h.conditions)
  intro part hpart
  rcases List.mem_cons.1 hpart with rfl | hpart
  · rw [compileKey_eq (isKeyOperator_of_compileKey hkey)] at hkey
    obtain ⟨rfl, rfl⟩ := Prod.mk.inj (Except.ok.inj hkey)
    rw [hplanKey]
    exact bindsStorable_ofList fun e he => hfirst.storable _ (List.of_mem_zip he).2
  · rcases List.mem_append.1 hpart with hpart | hpart
    · have hsome : plan.filter = some part := Option.mem_toList.1 hpart
      by_cases hnone : rest = []
      · rw [hplanFilter, hnone] at hsome
        cases hsome
      · rw [hplanFilter, compileFilter_of_ne_nil hnone] at hsome
        cases hsome
        show BindsStorable (Condition.renderAll r filterBinder rest).2.2.values
        rw [Condition.renderAll_binder]
        refine bindsStorable_bindAll fun v hv => ?_
        obtain ⟨c, hc, hv⟩ := List.mem_flatMap.1 hv
        exact (hrest c hc).storable v hv
    · have hsome : plan.projection = some part := Option.mem_toList.1 hpart
      rw [hplanProjection, Option.map_eq_some_iff] at hsome
      obtain ⟨fields, -, rfl⟩ := hsome
      intro key v hget
      cases hget

theorem QueryPlan.bindsStorable_request {plan : QueryPlan}
    (h : ∀ part ∈ plan.parts, BindsStorable part.values) {table : String} {request : QueryRequest}
    (hrequest : plan.request table = .ok request) : BindsStorable request.values := by
  obtain ⟨scope, hscope, hrequest⟩ := bind_eq_ok.1 hrequest
  cases hrequest
  refine foldlM_keeps (P := fun scope : Scope => BindsStorable scope.values) ?_ ?_ hscope
  · intro part hpart scope scope' hscope hmerge
    exact Compiled.mergeInto_keeps hscope (h part hpart) hmerge
  · intro key v hget
    cases hget

theorem Query.HoldsValid.isValid {q : Query} (h : q.HoldsValid) : q.IsValid where
  toHoldsValid := h
  plan := fun _ => h.parts
  request := fun _ _ _ hplan => QueryPlan.bindsStorable_request (h.parts hplan)

theorem Query.holdsValid_built {calls : List QueryCall} {q : Query} (h : built calls = .ok q) :
    q.HoldsValid :=
  foldlM_keeps (P := HoldsValid) (fun _ _ _ _ hq hcall => hq.apply hcall)
    ⟨Nat.zero_le _, fun _ hc => absurd hc List.not_mem_nil⟩ h

end Query

/-- Puts a condition behind others, as long as there is room for it. -/
def recordCondition (cs : List Condition) (c : Condition) : Except Error (List Condition) :=
  if maxConditions ≤ cs.length then .error (.tooManyConditions maxConditions) else .ok (cs ++ [c])

/-- Adds a condition and asks for room among the conditions as well, when the fragment is
written. -/
def Scan.addRecording (s : Scan) (field : String) (operator : Operator) (operand : Operand) :
    Except Error Scan := do
  s.checkRoom
  let c ← Condition.of field operator operand
  let (fragment, resolver, binder) := c.render s.resolver s.binder
  let conditions ← recordCondition s.conditions c
  return { s with conditions, fragments := s.fragments ++ [fragment], resolver, binder }

/-- A scan that holds few enough fragments and no more conditions than these, each of them valid. -/
structure Scan.HoldsValid (s : Scan) : Prop where
  count : s.fragments.length ≤ 100
  recorded : s.conditions.length ≤ s.fragments.length
  conditions : ∀ c ∈ s.conditions, c.IsValid

/-- A scan that holds valid conditions under valid names, never lacks room to record a condition
whose fragment it has written, and whose plan and requests bind values that can be bound. -/
structure Scan.IsValid (calls : List ScanCall) (s : Scan) : Prop extends s.HoldsValid where
  recording : ∀ field operator operand,
    s.addRecording field operator operand = s.add field operator operand
  fields : ∀ call ∈ calls, ∀ field ∈ call.field?, IsFieldName field
  plan : BindsStorable s.plan.values
  request : ∀ table, BindsStorable (s.plan.request table).values

section Scan

variable {s s' : Scan}

theorem Scan.HoldsValid.apply (h : s.HoldsValid) {call : ScanCall} (hcall : call.apply s = .ok s') :
    s'.HoldsValid := by
  have hrecorded := h.recorded
  have hfragment {text : String} (hroom : s.checkRoom = .ok ()) :
      (s.fragments ++ [text]).length ≤ 100 := by
    have hlt : s.fragments.length < 100 := Scan.checkRoom_eq_ok.1 hroom
    rw [List.length_append, List.length_singleton]
    exact hlt
  by_cases hbrings : call.bringsFragment = true
  · cases call with
    | condition field operator operand =>
      obtain ⟨hroom, c, hc, rfl⟩ := Scan.add_eq_ok.1 hcall
      refine ⟨hfragment hroom, ?_, List.forall_mem_append.2
        ⟨h.conditions, List.forall_mem_singleton.2 (Condition.isValid_of hc)⟩⟩
      simp only [List.length_append, List.length_singleton]
      omega
    | presence test field =>
      obtain ⟨hroom, -, rfl⟩ := Scan.addPresence_eq_ok.1 hcall
      refine ⟨hfragment hroom, ?_, h.conditions⟩
      simp only [List.length_append, List.length_singleton]
      omega
    | filter expression names values =>
      obtain ⟨hroom, text, r, b, -, rfl⟩ := Scan.addFilter_eq_ok.1 hcall
      refine ⟨hfragment hroom, ?_, h.conditions⟩
      simp only [List.length_append, List.length_singleton]
      omega
    | useIndex | limitTo | selectFields | readConsistently | startAfter | inParallel =>
      cases hbrings
  · obtain ⟨hconditions, hfragments, -, -⟩ :=
      ScanCall.onlyReads (Bool.eq_false_iff.2 hbrings) hcall
    refine ⟨?_, ?_, ?_⟩
    · rw [hfragments]
      exact h.count
    · rw [hconditions, hfragments]
      exact hrecorded
    · rw [hconditions]
      exact h.conditions

theorem Scan.holdsValid_built {passthrough : List String} {calls : List ScanCall}
    (h : built passthrough calls = .ok s) : s.HoldsValid :=
  foldlM_keeps (P := HoldsValid) (fun _ _ _ _ hs hcall => hs.apply hcall)
    ⟨Nat.zero_le _, Nat.le_refl _, fun _ hc => absurd hc List.not_mem_nil⟩ h

/-- Where there is room for a fragment, there is room for its condition. -/
theorem Scan.HoldsValid.recording (h : s.HoldsValid) (field : String) (operator : Operator)
    (operand : Operand) : s.addRecording field operator operand = s.add field operator operand := by
  unfold addRecording add
  cases hroom : s.checkRoom with
  | error e => rfl
  | ok _ =>
    have hlt : s.fragments.length < maxConditions := Scan.checkRoom_eq_ok.1 hroom
    have hrecorded := h.recorded
    have hrecord (c : Condition) : recordCondition s.conditions c = .ok (s.conditions ++ [c]) := by
      rw [recordCondition, if_neg (by omega)]
    simp only [hrecord]
    rfl

theorem ScanCall.storable_of_apply {call : ScanCall} (hcall : call.apply s = .ok s') :
    ∀ v ∈ call.operands, IsStorable v := by
  cases call with
  | condition field operator operand =>
    obtain ⟨-, c, hc, -⟩ := Scan.add_eq_ok.1 hcall
    obtain ⟨-, test, htest, -⟩ := Condition.of_eq_ok.1 hc
    exact (Test.fits_of_check htest).2
  | filter expression names values =>
    obtain ⟨-, text, r, b, hadopt, -⟩ := Scan.addFilter_eq_ok.1 hcall
    obtain ⟨-, _, _, _, _, -, hvalues, -⟩ := adoptFilter_eq_ok.1 hadopt
    intro v hv
    obtain ⟨key, -, hget⟩ := List.mem_filterMap.1 hv
    obtain ⟨e, he, heq⟩ := List.mem_map.1 (Bindings.mem_of_get?_ofList hget)
    cases heq
    exact checkValue_eq_ok_iff.1 ((suppliedValues_eq_ok.1 hvalues).1 e he)
  | presence | useIndex | limitTo | selectFields | readConsistently | startAfter | inParallel =>
    exact fun v hv => absurd hv List.not_mem_nil

theorem Scan.isValid_built {passthrough : List String} {calls : List ScanCall}
    (h : built passthrough calls = .ok s) : s.IsValid calls := by
  have hplan : BindsStorable s.plan.values := by
    rw [plan_values, (built_follows h).binder]
    refine bindsStorable_bindAll fun v hv => ?_
    obtain ⟨call, hcall, hv⟩ := List.mem_flatMap.1 hv
    obtain ⟨s₁, s₂, happly⟩ := accepted_of_built h hcall
    exact ScanCall.storable_of_apply happly v hv
  refine ⟨holdsValid_built h, (holdsValid_built h).recording, fun call hcall field hfield => ?_,
    hplan, fun _ => hplan⟩
  obtain ⟨s₁, s₂, happly⟩ := accepted_of_built h hcall
  exact isFieldName_of_checkFieldName (ScanCall.checked_of_apply happly hfield)

end Scan

/-- An update that holds few enough updates of single fields, each of them valid. -/
structure Update.HoldsValid (u : Update) : Prop where
  count : u.updates.length ≤ 100
  updates : ∀ recorded ∈ u.updates, recorded.IsValid

/-- An update that holds valid updates, and whose plans and requests bind values that can be bound.
Under a condition it also binds what the condition has bound. -/
structure Update.IsValid (u : Update) : Prop extends u.HoldsValid where
  plan : ∀ plan, u.plan = .ok plan → BindsStorable plan.scope.values ∧
    ∀ table key returnValues, BindsStorable (plan.request table key returnValues).values
  guarded : ∀ condition plan, u.planWithCondition condition = .ok plan → ∀ key v,
    plan.scope.values.get? key = some v → IsStorable v ∨ condition.values.get? key = some v

section Update

variable {u u' : Update}

theorem Update.HoldsValid.apply (h : u.HoldsValid) {call : UpdateCall}
    (hcall : call.apply u = .ok u') :
    u'.HoldsValid := by
  obtain ⟨hupdates, -⟩ := UpdateCall.updates_apply hcall
  refine ⟨?_, ?_⟩
  · rcases UpdateCall.push_of_apply hcall with ⟨recorded, -, hpush⟩ | ⟨-, hsame⟩
    · obtain ⟨-, hroom, rfl⟩ := Update.push_eq_ok.1 hpush
      rw [List.length_append, List.length_singleton]
      exact hroom
    · rw [hsame]
      exact h.count
  · rw [hupdates, List.forall_mem_append]
    refine ⟨h.updates, fun recorded hmem => ?_⟩
    exact UpdateCall.isValid_of_apply hcall recorded (Option.mem_toList.1 hmem)

theorem Update.holdsValid_built {calls : List UpdateCall} (h : built calls = .ok u) :
    u.HoldsValid :=
  foldlM_keeps (P := HoldsValid) (fun _ _ _ _ hu hcall => hu.apply hcall)
    ⟨Nat.zero_le _, fun _ hmem => absurd hmem List.not_mem_nil⟩ h

/-- An action binds its operands behind what is bound already. -/
theorem Action.bound_render (action : Action) (name : String) (b : Binder) :
    ∀ e ∈ (action.render name b).2.bound, e ∈ b.bound ∨ e.2 ∈ action.operands := by
  cases action with
  | remove => exact fun e he => .inl he
  | set v | add v | delete v =>
    intro e he
    rcases List.mem_append.1 he with hold | hnew
    · exact .inl hold
    · rw [List.mem_singleton.1 hnew]
      exact .inr (List.mem_singleton.2 rfl)
  | append items | prepend items =>
    intro e he
    rcases List.mem_append.1 he with he | hitems
    · rcases List.mem_append.1 he with hold | hempty
      · exact .inl hold
      · rw [List.mem_singleton.1 hempty]
        exact .inr List.mem_cons_self
    · rw [List.mem_singleton.1 hitems]
      exact .inr (List.mem_cons_of_mem _ (List.mem_singleton.2 rfl))

theorem storable_renderUpdates (r : Resolver) {b : Binder} {us : List FieldUpdate}
    (hb : ∀ e ∈ b.bound, IsStorable e.2) (hus : ∀ u ∈ us, u.IsValid) :
    ∀ e ∈ (renderUpdates r b us).2.2.bound, IsStorable e.2 := by
  induction us generalizing r b with
  | nil => exact hb
  | cons u rest ih =>
    obtain ⟨hfirst, hrest⟩ := List.forall_mem_cons.1 hus
    refine ih (r.path u.field).2 (fun e he => ?_) hrest
    rcases u.action.bound_render _ b e he with hold | hnew
    · exact hb e hold
    · exact hfirst.action.storable _ hnew

theorem storable_renderClauses {updates : List FieldUpdate} (r : Resolver) {b : Binder}
    (clauses : List Clause) (hb : ∀ e ∈ b.bound, IsStorable e.2)
    (hupdates : ∀ u ∈ updates, u.IsValid) :
    ∀ e ∈ (renderClauses updates r b clauses).2.2.bound, IsStorable e.2 := by
  induction clauses generalizing r b with
  | nil => exact hb
  | cons clause rest ih =>
    rw [renderClauses_cons]
    refine ih _ (storable_renderUpdates r hb fun u hu => ?_)
    exact hupdates u (List.mem_of_mem_filter hu)

theorem Update.HoldsValid.bindsStorable_plan (h : u.HoldsValid) {plan : UpdatePlan}
    (hplan : u.plan = .ok plan) : BindsStorable plan.scope.values := by
  unfold Update.plan at hplan
  split at hplan
  · cases hplan
  · split at hplan
    · cases hplan
    · cases hplan
      refine bindsStorable_ofList (storable_renderClauses _ Clause.all ?_ h.updates)
      exact fun e he => absurd he List.not_mem_nil

theorem Update.isValid_built {calls : List UpdateCall} (h : built calls = .ok u) : u.IsValid := by
  have hholds := holdsValid_built h
  refine ⟨hholds, fun plan hplan => ?_, fun condition plan hplan => ?_⟩
  · exact ⟨hholds.bindsStorable_plan hplan, fun _ _ _ => hholds.bindsStorable_plan hplan⟩
  · obtain ⟨bare, hbare, hplan⟩ := bind_eq_ok.1 hplan
    obtain ⟨scope, hmerge, hplan⟩ := bind_eq_ok.1 hplan
    cases hplan
    exact Compiled.mergeInto_keeps
      (fun key v hget => .inl (hholds.bindsStorable_plan hbare key v hget))
      (fun _ _ hget => .inr hget) hmerge

end Update

/-- **Builders only ever hold valid state**, whatever calls they have accepted. -/
theorem built_isValid :
    (∀ calls q, Query.built calls = .ok q → q.IsValid) ∧
    (∀ passthrough calls s, Scan.built passthrough calls = .ok s → s.IsValid calls) ∧
    ∀ calls u, Update.built calls = .ok u → u.IsValid :=
  ⟨fun _ _ h => (Query.holdsValid_built h).isValid, fun _ _ _ => Scan.isValid_built,
    fun _ _ => Update.isValid_built⟩

end ItemTable.Expression

namespace ItemTable

open Expression

/-- A number that is taken off, a list of a value with texts further inside, a set and a bare
field. -/
def crowdedUpdateCalls : List UpdateCall :=
  [.decrement "stock" (.number "+2.50"),
    .append "log" (.list [.map [("note", .list [.textSet ["a", "b"], .text "c"])], .number "1"]),
    .leaveAlone ["tags"],
    .delete "tags" (.textSet ["x"]),
    .remove "status"]

theorem crowdedCalls_isValid :
    (Query.built crowdedCalls = .ok crowdedQuery ∧ crowdedQuery.IsValid) ∧
    (∃ s, Scan.built ["status"] crowdedScanCalls = .ok s ∧
      s.fragments.length = 4 ∧ s.conditions.length = 1 ∧ s.IsValid crowdedScanCalls) ∧
    ∃ u, Update.built crowdedUpdateCalls = .ok u ∧
      u.updates.head? = some ⟨"stock", .add (.number "-2.50")⟩ ∧
      (∃ plan, u.plan = .ok plan ∧ plan.scope.values.keys =
        [":empty1", ":items1", ":val2", ":val3"]) ∧
      u.IsValid := by
  obtain ⟨hquery, hscan, hupdate⟩ := built_isValid
  have hcalls : Query.built crowdedCalls = .ok crowdedQuery := rfl
  have hcounts : ((Scan.built ["status"] crowdedScanCalls).toOption.map fun s =>
      (s.fragments.length, s.conditions.length)) = some (4, 1) := by decide +kernel
  have hrecorded : ((Update.built crowdedUpdateCalls).toOption.map fun u =>
      (u.updates.head?, u.plan.toOption.map fun plan => plan.scope.values.keys)) =
      some (some ⟨"stock", .add (.number "-2.50")⟩,
        some [":empty1", ":items1", ":val2", ":val3"]) := by decide +kernel
  obtain ⟨s, hs, hcounts⟩ := toOption_map_eq_some.1 hcounts
  obtain ⟨hfragments, hconditions⟩ := Prod.mk.inj hcounts
  obtain ⟨u, hu, hrecorded⟩ := toOption_map_eq_some.1 hrecorded
  obtain ⟨hhead, hplan⟩ := Prod.mk.inj hrecorded
  obtain ⟨plan, hplan, hkeys⟩ := toOption_map_eq_some.1 hplan
  exact ⟨⟨hcalls, hquery _ _ hcalls⟩, ⟨s, hs, hfragments, hconditions, hscan _ _ _ hs⟩,
    u, hu, hhead, ⟨plan, hplan, hkeys⟩, hupdate _ _ hu⟩

end ItemTable
