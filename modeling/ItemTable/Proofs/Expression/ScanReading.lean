import ItemTable.Proofs.Expression.FragmentReader
import ItemTable.Proofs.Expression.GrammaticalReferences

/-!
# The calls of a scan can be read back

The parts of a fragment are references, and the bindings of the plan say to what: a name that is not
bound stands for itself, since what is bound has a sign in front. So each fragment gives its call
again (`Reading.call?`), the text of the filter gives one call after another (`Reads`), and scans
with the same plan have been put together by the same calls: `Scan.calls_of_plan`.
-/
namespace ItemTable.Expression

/-- Values in the shape that an operator takes. -/
def Operand.ofValues? : Operator → List AttributeValue → Option Operand
  | .between, [low, high] => some (.range low high)
  | .between, _ => none
  | .oneOf, vs => some (.list vs)
  | _, [v] => some (.single v)
  | _, _ => none

/-- The call that a fragment comes from, with what its references are bound to. -/
def Reading.call? (names : Bindings String) (values : Bindings AttributeValue) (reading : Reading) :
    Option ScanCall :=
  let field := (names.get? reading.name).getD reading.name
  match reading.head with
  | .presence presence => some (.presence presence field)
  | .test operator =>
    (Operand.ofValues? operator (reading.operands.filterMap values.get?)).map
      (ScanCall.condition field operator)

/-- A text that is read fragment by fragment, as the calls that its fragments come from. -/
inductive Reads (names : Bindings String) (values : Bindings AttributeValue) :
    List Char → List ScanCall → Prop
  | last {cs : List Char} {reading : Reading} {call : ScanCall}
      (hread : readFragment cs = some (reading, []))
      (hcall : reading.call? names values = some call) :
      Reads names values cs [call]
  | more {cs rest : List Char} {reading : Reading} {call : ScanCall} {calls : List ScanCall}
      (hread : readFragment cs = some (reading, " AND ".toList ++ rest))
      (hcall : reading.call? names values = some call) (hrest : Reads names values rest calls) :
      Reads names values cs (call :: calls)

/-- A text is read in one way only. -/
theorem Reads.unique {names : Bindings String} {values : Bindings AttributeValue} {cs : List Char}
    {calls calls' : List ScanCall} (h : Reads names values cs calls)
    (h' : Reads names values cs calls') : calls = calls' := by
  induction h generalizing calls' with
  | last hread hcall =>
    cases h' with
    | last hread' hcall' =>
      rw [hread] at hread'
      cases hread'
      rw [hcall] at hcall'
      cases hcall'
      rfl
    | more hread' hcall' hrest' =>
      rw [hread] at hread'
      cases hread'
  | more hread hcall hrest ih =>
    cases h' with
    | last hread' hcall' =>
      rw [hread] at hread'
      cases hread'
    | more hread' hcall' hrest' =>
      rw [hread] at hread'
      obtain ⟨rfl, hsame⟩ := Prod.mk.inj (Option.some.inj hread')
      rw [hcall] at hcall'
      cases hcall'
      rw [ih (List.append_cancel_left hsame ▸ hrest')]

/-- The values of a test have the shape that its operator takes. -/
theorem Test.ofValues?_operands (test : Test) :
    Operand.ofValues? test.operator (Condition.operands test) = some test.operand := by
  cases test <;> rfl

theorem Reads.ne_nil {names : Bindings String} {values : Bindings AttributeValue} {cs : List Char}
    {calls : List ScanCall} (h : Reads names values cs calls) : cs ≠ [] := by
  rintro rfl
  cases h with
  | last hread | more hread => cases hread

/-- A reference that is bound to a field, or that is the field. -/
structure RefersTo (names : Bindings String) (reference field : String) : Prop where
  isRefText : IsRefText reference
  bound : (names.get? reference).getD reference = field

theorem filterMap_of_map_eq {α β : Type} {f : α → Option β} {as : List α} {bs : List β}
    (h : as.map f = bs.map some) : as.filterMap f = bs := by
  have hid : as.filterMap f = (as.map f).filterMap id := by rw [List.filterMap_map]; rfl
  rw [hid, h, List.filterMap_map]
  exact List.filterMap_some

/-- A call on a field, with an operand or for its presence. -/
abbrev ScanCall.IsStructured (call : ScanCall) : Prop := call.field?.isSome = true

theorem ScanCall.bringsFragment_of_isStructured {call : ScanCall} (h : call.IsStructured) :
    call.bringsFragment = true := by
  cases call with
  | condition | presence => rfl
  | filter | useIndex | limitTo | selectFields | readConsistently | startAfter
  | inParallel => cases h

section Fragment

variable {names : Bindings String} {values : Bindings AttributeValue} {r : Resolver} {first : Nat}

/-- The one fragment of a structured call is read back as the call, whatever follows it. -/
theorem ScanCall.fragments_read {call : ScanCall} {s s' : Scan} (happly : call.apply s = .ok s')
    {field : String} (hfield : call.field? = some field)
    (hname : RefersTo names (r.path field).1 field)
    (hvalues : (valuePlaceholders first call.operands.length).map values.get? =
      call.operands.map some) :
    ∃ text reading, call.fragments r first = [text] ∧ reading.call? names values = some call ∧
      ∀ rest, EndsRef rest → readFragment (text.toList ++ rest) = some (reading, rest) := by
  cases call with
  | condition field' operator operand =>
    cases hfield
    obtain ⟨-, c, hc, -⟩ := Scan.add_eq_ok.1 happly
    obtain ⟨-, test, htest, -⟩ := Condition.of_eq_ok.1 hc
    obtain ⟨rfl, rfl⟩ := Test.of_check htest
    rw [operands, ← Condition.operands_eq] at hvalues
    refine ⟨Condition.fragment test (r.path field).1
        (valuePlaceholders first (Condition.operands test).length),
      ⟨.test test.operator, (r.path field).1,
        valuePlaceholders first (Condition.operands test).length⟩, ?_, ?_, fun rest hrest => ?_⟩
    · rw [fragments, htest, ← Condition.operands_eq]
      rfl
    · simp only [Reading.call?, hname.bound, filterMap_of_map_eq hvalues, Test.ofValues?_operands,
        Option.map_some]
    · refine readFragment_fragment test hname.isRefText (length_valuePlaceholders _ _) ?_ hrest
      intro operand hmem
      obtain ⟨number, -, rfl⟩ := List.mem_map.1 hmem
      exact Binder.isValueRef_numbered (by decide) number
  | presence presence field' =>
    cases hfield
    refine ⟨_, ⟨.presence presence, (r.path field).1, []⟩, rfl, ?_, fun rest _ => ?_⟩
    · simp only [Reading.call?, hname.bound]
    · exact readFragment_presence presence hname.isRefText rest
  | filter | useIndex | limitTo | selectFields | readConsistently | startAfter | inParallel =>
    cases hfield

/-- The fragments of structured calls, joined, are read back as the calls. -/
theorem reads_fragmentsFrom {calls : List ScanCall} (hne : calls ≠ [])
    (hcalls : ∀ call ∈ calls, ∃ field s s', call.field? = some field ∧ call.apply s = .ok s' ∧
      RefersTo names (r.path field).1 field)
    (hvalues : (valuePlaceholders first (calls.flatMap ScanCall.operands).length).map values.get? =
      (calls.flatMap ScanCall.operands).map some) :
    Reads names values (joinFragments (fragmentsFrom r first calls)).toList calls := by
  induction calls generalizing first with
  | nil => exact absurd rfl hne
  | cons call rest ih =>
    obtain ⟨⟨field, s, s', hfield, happly, hname⟩, hrest⟩ := List.forall_mem_cons.1 hcalls
    rw [List.flatMap_cons, List.length_append, valuePlaceholders_add, List.map_append,
      List.map_append] at hvalues
    obtain ⟨hown, hlater⟩ := List.append_inj hvalues (by simp [length_valuePlaceholders])
    obtain ⟨text, reading, htext, hcall, hread⟩ := call.fragments_read happly hfield hname hown
    rw [fragmentsFrom, htext, List.singleton_append]
    cases rest with
    | nil =>
      have hend := hread [] fun _ h => by cases h
      rw [List.append_nil] at hend
      exact .last hend hcall
    | cons next later =>
      have hmore := ih (List.cons_ne_nil next later) hrest hlater
      generalize fragmentsFrom r (first + call.operands.length) (next :: later) = texts at hmore ⊢
      cases texts with
      | nil => exact absurd rfl hmore.ne_nil
      | cons other texts =>
        have hjoined : (joinFragments (text :: other :: texts)).toList =
            text.toList ++ (" AND ".toList ++ (joinFragments (other :: texts)).toList) := by
          rw [joinFragments, Text.joinWith, String.toList_append, String.toList_append,
            List.append_assoc]
          rfl
        rw [hjoined]
        exact .more (hread _ (endsRef_cons (c := ' ') (by decide) _)) hcall hmore

end Fragment

/-- The names of a plan are those of a resolver. -/
theorem Scan.exists_plan_names (s : Scan) : ∃ r : Resolver, s.plan.names = r.names := by
  unfold plan
  cases s.read.fields <;> exact ⟨_, rfl⟩

theorem isRefText_of_isWord {field : String} (h : ∀ c ∈ field.toList, isWordChar c = true) :
    IsRefText field := fun c hc => by simp [isRefChar, h c hc]

theorem isRefText_namePlaceholder (number : Nat) : IsRefText (namePlaceholder number) := by
  intro c hc
  rw [toList_namePlaceholder] at hc
  rcases List.mem_cons.1 hc with rfl | hc
  · decide
  · rcases List.mem_cons.1 hc with rfl | hc
    · decide
    · simp [isRefChar, isWordChar_of_mem_toDigits hc]

namespace Scan

variable {passthrough passthrough' : List String} {calls calls' : List ScanCall} {s s' : Scan}

/-- The reference to a field of a scan can be read back with the names of the plan. -/
theorem refersTo_reference (h : built passthrough calls = .ok s) {call : ScanCall}
    (hcall : call ∈ calls) {field : String} (hfield : call.field? = some field) :
    RefersTo s.plan.names
      ((Resolver.after passthrough (calls.flatMap ScanCall.references)).path field).1 field := by
  obtain ⟨s₁, s₂, happly⟩ := accepted_of_built h hcall
  obtain ⟨hne, hword⟩ := isWord_of_checkFieldName (ScanCall.checked_of_apply happly hfield)
  have hresolver := (built_follows h).resolver
  have hmem : ResolverCall.path field ∈ calls.flatMap ScanCall.references :=
    List.mem_flatMap.2 ⟨call, hcall, ScanCall.mem_references hfield⟩
  have hagain : ((Resolver.after passthrough (calls.flatMap ScanCall.references)).path field).2 =
      .after passthrough (calls.flatMap ScanCall.references) := Resolver.write_after hmem
  rw [← hresolver] at hagain ⊢
  have hpath := s.resolver.path_of_isWord hne hword
  by_cases hleft : isLeft s.resolver.passthrough field = true
  · rw [if_pos hleft] at hpath
    rw [hpath]
    refine ⟨isRefText_of_isWord hword, ?_⟩
    -- a word has no sign, so that it is none of the bound placeholders
    have hnone : s.plan.names.get? field = none := by
      obtain ⟨r, hnames⟩ := s.exists_plan_names
      rw [hnames, Option.eq_none_iff_forall_ne_some]
      intro name hget
      obtain ⟨number, rfl, -⟩ := (Resolver.get?_names_eq_some_iff _ _ _).1 hget
      have hsign : isWordChar '#' = true := hword '#' (by
        rw [toList_namePlaceholder]
        exact List.mem_cons_self)
      cases hsign
    rw [hnone]
    rfl
  · rw [if_neg hleft] at hpath
    obtain ⟨-, number, htext, hnumber⟩ := s.resolver.placeholder_eq field
    rw [hpath] at hagain ⊢
    rw [hagain] at hnumber
    rw [htext]
    have hbound : s.resolver.names.get? (namePlaceholder number) = some field :=
      (Resolver.get?_names_eq_some_iff _ _ _).2 ⟨number, rfl, hnumber⟩
    refine ⟨isRefText_namePlaceholder number, ?_⟩
    rw [get?_plan_names hbound]
    rfl

/-- The placeholders of values are bound to the operands of the calls, in their order. -/
theorem map_get?_plan_values (h : built passthrough calls = .ok s) :
    (valuePlaceholders 0 (calls.flatMap ScanCall.operands).length).map s.plan.values.get? =
      (calls.flatMap ScanCall.operands).map some := by
  refine List.ext_getElem (by simp [length_valuePlaceholders]) fun number _ hlt => ?_
  rw [List.length_map] at hlt
  have hget : s.plan.values.get? (valuePlaceholder number) =
      some (calls.flatMap ScanCall.operands)[number] := by
    rw [plan_values, (built_follows h).get?_values]
    exact ⟨number, rfl, List.getElem?_eq_getElem hlt⟩
  simpa [valuePlaceholders] using hget

/-- The filter of a scan is read as the calls that have put the scan together. -/
theorem reads_plan (hne : calls ≠ []) (hcalls : ∀ call ∈ calls, call.IsStructured)
    (h : built passthrough calls = .ok s) :
    ∃ text, s.plan.filter = some text ∧ Reads s.plan.names s.plan.values text.toList calls := by
  have hbrings : calls.any ScanCall.bringsFragment = true := by
    obtain ⟨call, rest, rfl⟩ := List.exists_cons_of_ne_nil hne
    rw [List.any_cons, ScanCall.bringsFragment_of_isStructured (hcalls call List.mem_cons_self)]
    rfl
  have hfilter := built_filter h
  rw [if_pos hbrings] at hfilter
  refine ⟨_, hfilter, reads_fragmentsFrom hne (fun call hcall => ?_) (map_get?_plan_values h)⟩
  obtain ⟨field, hfield⟩ := Option.isSome_iff_exists.1 (hcalls call hcall)
  obtain ⟨s₁, s₂, happly⟩ := accepted_of_built h hcall
  exact ⟨field, s₁, s₂, hfield, happly, refersTo_reference h hcall hfield⟩

theorem plan_filter_eq_none_iff (hcalls : ∀ call ∈ calls, call.IsStructured)
    (h : built passthrough calls = .ok s) : s.plan.filter = none ↔ calls = [] := by
  constructor
  · intro hnone
    by_contra hne
    obtain ⟨text, hsome, -⟩ := reads_plan hne hcalls h
    rw [hnone] at hsome
    cases hsome
  · rintro rfl
    cases h
    rfl

/-- **Compiling a scan loses nothing.** Scans of structured calls with the same filter, names and
values have been put together by the same calls, even with different names that are never
replaced. -/
theorem calls_of_plan (hcalls : ∀ call ∈ calls, call.IsStructured)
    (hcalls' : ∀ call ∈ calls', call.IsStructured) (h : built passthrough calls = .ok s)
    (h' : built passthrough' calls' = .ok s') (hfilter : s.plan.filter = s'.plan.filter)
    (hnames : s.plan.names = s'.plan.names) (hvalues : s.plan.values = s'.plan.values) :
    calls = calls' := by
  by_cases hne : calls = []
  · have hnone := (plan_filter_eq_none_iff hcalls h).2 hne
    rw [hne, (plan_filter_eq_none_iff hcalls' h').1 (hfilter ▸ hnone)]
  · have hne' : calls' ≠ [] := fun hnil =>
      hne ((plan_filter_eq_none_iff hcalls h).1
        (hfilter ▸ (plan_filter_eq_none_iff hcalls' h').2 hnil))
    obtain ⟨text, htext, hreads⟩ := reads_plan hne hcalls h
    obtain ⟨text', htext', hreads'⟩ := reads_plan hne' hcalls' h'
    rw [htext, htext', Option.some.injEq] at hfilter
    rw [hfilter, hnames, hvalues] at hreads
    exact hreads.unique hreads'

end Scan

end ItemTable.Expression

namespace ItemTable

open Expression

/-- Fields that are spelled like words of the grammar, a range, and values with more than one
digit. -/
def unusualCalls : List ScanCall :=
  [.condition "AND" .between (.range (.number "1") (.number "2")),
    .presence .present "contains",
    .condition "contains" .contains (.single (.text "x")),
    .condition "status" .oneOf (.list (List.replicate 8 (.text "a"))),
    .condition "AND" .equals (.single (.text "IN"))]

/-- Two scans, the second put together in two rounds and with one more name that is never
replaced. -/
theorem unusualCalls_of_plan :
    ∃ s s', Scan.built ["AND"] unusualCalls = .ok s ∧
      Scan.built ["AND", "BETWEEN"] (unusualCalls.take 2 ++ unusualCalls.drop 2) = .ok s' ∧
      s.plan.filter = some ("AND BETWEEN :value0 AND :value1 AND attribute_exists(contains)" ++
        " AND contains(contains, :value2) AND #n0 IN (:value3, :value4, :value5, :value6," ++
        " :value7, :value8, :value9, :value10) AND AND = :value11") ∧
      (s.plan.filter = s'.plan.filter ∧ s.plan.names = s'.plan.names ∧
        s.plan.values = s'.plan.values) ∧
      unusualCalls = unusualCalls.take 2 ++ unusualCalls.drop 2 := by
  have hfilter : ((Scan.built ["AND"] unusualCalls).toOption.map fun s => s.plan.filter) =
      some (some ("AND BETWEEN :value0 AND :value1 AND attribute_exists(contains)" ++
        " AND contains(contains, :value2) AND #n0 IN (:value3, :value4, :value5, :value6," ++
        " :value7, :value8, :value9, :value10) AND AND = :value11")) := by decide +kernel
  have hplans : ((Scan.built ["AND"] unusualCalls).toOption.map fun s =>
        (s.plan.filter, s.plan.names, s.plan.values)) =
      (Scan.built ["AND", "BETWEEN"] (unusualCalls.take 2 ++ unusualCalls.drop 2)).toOption.map
        fun s => (s.plan.filter, s.plan.names, s.plan.values) := by decide +kernel
  obtain ⟨s, hs, hfilter⟩ := toOption_map_eq_some.1 hfilter
  rw [hs] at hplans
  obtain ⟨s', hs', hsame⟩ := toOption_map_eq_some.1 hplans.symm
  obtain ⟨hsameFilter, hsame⟩ := Prod.mk.inj hsame
  obtain ⟨hsameNames, hsameValues⟩ := Prod.mk.inj hsame
  refine ⟨s, s', hs, hs', hfilter, ⟨hsameFilter.symm, hsameNames.symm, hsameValues.symm⟩, ?_⟩
  exact Scan.calls_of_plan (by decide) (by decide) hs hs' hsameFilter.symm hsameNames.symm
    hsameValues.symm

end ItemTable
