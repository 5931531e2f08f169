import ItemTable.Proofs.Expression.GrammaticalReferences
import ItemTable.Proofs.Expression.ScanConditions

/-!
# One filter, compiled early or late

A query keeps its conditions and renders them all when it is planned, with the resolver of its key
condition; a scan renders each condition when it is added. What a scan holds is what rendering all
its conditions at once would make (`Scan.rendered_built`), and whatever a resolver has assigned
before, the same text is written as soon as the names are put in for their placeholders
(`compileFilter_named`). So the filters of the two agree: `filters_agree`.
-/
namespace ItemTable.Expression

/-- The characters of a token, with its name if it is a placeholder of one. -/
def Token.named (names : Bindings String) (t : Token) : List Char :=
  if t.kind = .nameRef then ((names.get? (String.ofList t.text)).map String.toList).getD t.text
  else t.text

/-- A text with its names in place of their placeholders. -/
def named (names : Bindings String) (text : String) : String :=
  String.ofList ((tokensOf text).flatMap (Token.named names))

theorem plain_inj {a b : String} : plain a = plain b ↔ a = b := by
  constructor
  · intro h
    have hchars := List.map_injective_iff.2 (fun c d (hcd : Piece.char c = .char d) => by
      cases hcd; rfl) h
    exact String.toList_inj.1 hchars
  · exact congrArg plain

/-- Putting names in is expansion that leaves the values alone. -/
theorem plain_named (names : Bindings String) (text : String) :
    plain (named names text) = expand ⟨names.get?, fun _ => none⟩ text := by
  rw [plain, named, String.toList_ofList, List.map_flatMap, expand]
  refine List.flatMap_congr fun t _ => ?_
  cases hkind : t.kind with
  | nameRef =>
    simp only [Token.named, Token.meant, hkind, if_true]
    cases names.get? (String.ofList t.text) with
    | none => simp [plain]
    | some name => rfl
  | valueRef | identifier | keyword | other => simp [Token.named, Token.meant, hkind, plain]

/-- A text stands for itself where nothing is bound. -/
theorem expand_unbound (text : String) :
    expand ⟨fun _ => none, fun _ => none⟩ text = plain text := by
  have hself (t : Token) : t.meant ⟨fun _ => none, fun _ => none⟩ = t.text.map .char := by
    cases hkind : t.kind <;> simp [Token.meant, hkind, plain]
  rw [expand, plain, ← flatten_tokens text.toList, List.map_flatten, List.flatMap_def, List.map_map]
  exact congrArg List.flatten (List.map_congr_left fun t _ => hself t)

/-- The placeholder of a value stays where no value is bound. -/
theorem expand_valuePlaceholder {m : Meaning} (hvalues : ∀ key, m.values key = none)
    (number : Nat) :
    expand m (valuePlaceholder number) = plain (valuePlaceholder number) := by
  have hstem : Binder.IsStem ":value" := by decide
  obtain ⟨-, hnone⟩ := refs_valueRef (Binder.isValueRef_numbered hstem number)
  rw [← expand_unbound]
  refine expand_congr (fun key hkey => ?_) fun key _ => hvalues key
  rw [nameRefs_eq, valuePlaceholder, hnone] at hkey
  cases hkey

namespace Condition

/-- With its names put in, a condition is written the same whatever the resolver has assigned
before. -/
theorem expand_fragment_kept {m : Meaning} (hvalues : ∀ key, m.values key = none) (test : Test)
    {field name : String} (hname : expand m name = plain field) (first count : Nat) :
    expand m (fragment test name (valuePlaceholders first count)) =
      plain (fragment test field (valuePlaceholders first count)) := by
  have hoperands : (valuePlaceholders first count).map (expand m) =
      (valuePlaceholders first count).map (expand ⟨fun _ => none, fun _ => none⟩) := by
    refine List.map_congr_left fun text htext => ?_
    obtain ⟨number, -, rfl⟩ := List.mem_map.1 htext
    rw [expand_unbound, expand_valuePlaceholder hvalues]
  rw [expand_fragment_eq_spelled, hname, hoperands, ← expand_unbound field,
    ← expand_fragment_eq_spelled, expand_unbound]

theorem expand_renderAll {m : Meaning} (hvalues : ∀ key, m.values key = none) (r : Resolver)
    {b : Binder} (hstem : b.stem = ":value") (cs : List Condition)
    (hfields : ∀ c ∈ cs, HasNoSign c.field.toList)
    (hnames : Means (renderAll r b cs).2.1.names m.names) :
    (renderAll r b cs).1.map (expand m) = (written id b.next cs).map plain := by
  induction cs generalizing r b with
  | nil => rfl
  | cons c rest ih =>
    rw [List.forall_mem_cons] at hfields
    have hsame : (c.render r b).2.2.stem = ":value" := by
      rw [← hstem]
      exact b.bindAll_stem (operands c.test)
    have hgrows := (renderAll_accounts (c.render r b).2.1 (b := (c.render r b).2.2)
      (hsame ▸ by decide) rest hfields.2).grows
    have hname : expand m (r.path c.field).1 = plain c.field := by
      refine (List.cons.inj ((r.path_standsFor filterBinder hfields.1).meant m ⟨?_, ?_⟩)).1
      · exact fun key name hget => hnames key name (hgrows.get?_names hget)
      · exact fun e he => absurd he List.not_mem_nil
    have hfirst : expand m (c.render r b).1 =
        plain (fragment c.test c.field (valuePlaceholders b.next (operands c.test).length)) := by
      rw [← expand_fragment_kept hvalues c.test hname,
        ← b.bindAll_placeholders hstem (operands c.test)]
      rfl
    have hrest := ih (c.render r b).2.1 (b := (c.render r b).2.2) hsame hfields.2 hnames
    have hnext : (c.render r b).2.2.next = b.next + (operands c.test).length :=
      b.bindAll_next (operands c.test)
    rw [hnext] at hrest
    exact congrArg₂ List.cons hfirst hrest

/-- The filter of conditions reads the same with its names put in, whatever the resolver has
assigned. -/
theorem named_joinFragments {names : Bindings String} (r : Resolver) (cs : List Condition)
    (hfields : ∀ c ∈ cs, HasNoSign c.field.toList)
    (hnames : Means (renderAll r filterBinder cs).2.1.names names.get?) :
    named names (joinFragments (renderAll r filterBinder cs).1) =
      joinFragments (written id 0 cs) := by
  have htexts : (renderAll r filterBinder cs).1.map (expand ⟨names.get?, fun _ => none⟩) =
      (written id 0 cs).map plain :=
    expand_renderAll (fun _ => rfl) r (b := filterBinder) rfl cs hfields hnames
  have hunbound : (written id 0 cs).map plain =
      (written id 0 cs).map (expand ⟨fun _ => none, fun _ => none⟩) :=
    List.map_congr_left fun text _ => (expand_unbound text).symm
  rw [← plain_inj, plain_named, joinFragments, expand_joinWith (by decide), htexts, hunbound,
    ← expand_joinWith (by decide), expand_unbound, joinFragments]

end Condition

/-- An expression keeps all names of a resolver if it refers to all of them. -/
theorem Compiled.names_ofResolver {text : String} {r : Resolver} (values : Bindings AttributeValue)
    (h : ∀ key ∈ r.names.keys, key ∈ nameRefs text) :
    (ofResolver text r values).names = r.names := by
  refine Bindings.ext_get? fun key => Option.ext fun name => ?_
  rw [get?_ofResolver_iff]
  refine and_iff_left_of_imp fun hget => h key ?_
  exact (Bindings.mem_keys_iff _ _).2 ⟨name, hget⟩

/-- A compiled filter reads the same with its names put in, and binds the same values, whatever the
resolver has assigned. -/
theorem compileFilter_named {cs : List Condition} (hne : cs ≠ [])
    (hfields : ∀ c ∈ cs, HasNoSign c.field.toList) (r : Resolver) :
    ∃ filter, (compileFilter cs r).1 = some filter ∧
      named filter.names filter.text = joinFragments (Condition.written id 0 cs) ∧
      filter.values =
        (filterBinder.bindAll (cs.flatMap fun c => Condition.operands c.test)).2.values := by
  refine ⟨_, compileFilter_of_ne_nil hne r, ?_, ?_⟩
  · -- the names that are left out are none of the text's
    have hkept :=
      Compiled.meant_ofResolver (joinFragments (Condition.renderAll r filterBinder cs).1)
      (Condition.renderAll r filterBinder cs).2.1 .empty
    rw [← Condition.named_joinFragments r cs hfields fun _ _ h => h, ← plain_inj, plain_named,
      plain_named]
    exact hkept
  · exact congrArg Binder.values (Condition.renderAll_binder r filterBinder cs)

/-- A resolver that has assigned nothing before has assigned the names of the filter. -/
theorem names_compileFilter {cs : List Condition} (hne : cs ≠ [])
    (hfields : ∀ c ∈ cs, HasNoSign c.field.toList) {passthrough : List String} {filter : Compiled}
    (h : (compileFilter cs { passthrough }).1 = some filter) :
    filter.text = joinFragments (Condition.renderAll { passthrough } filterBinder cs).1 ∧
      filter.names = (Condition.renderAll { passthrough } filterBinder cs).2.1.names := by
  rw [compileFilter_of_ne_nil hne] at h
  cases h
  have hseparator : IsSeparator " AND " := by decide
  have hall :=
    Condition.renderAll_accounts { passthrough } (b := filterBinder) (by decide) cs hfields
  have haccounts := hall.join fun _ hsign => refs_joinWith hsign hseparator _
  refine ⟨rfl, Compiled.names_ofResolver _ fun key hkey => ?_⟩
  rcases (haccounts.names key).1 hkey with hnone | ⟨text, htext, href⟩
  · exact absurd hnone List.not_mem_nil
  · rw [List.mem_singleton.1 htext, ← nameRefs_eq] at href
    exact href

/-- The filter of a query and that of a scan, the query with a key condition on the given field. -/
structure FiltersAgree (passthrough : List String) (keyField : String) (filter : Compiled)
    (plan : ScanPlan) : Prop where
  values : filter.values = plan.values
  /-- Name placeholders apart, the two read the same. -/
  text : ∃ text, plan.filter = some text ∧ named filter.names filter.text = named plan.names text
  /-- If the key condition has used no placeholder, the two are the same; a projection of the scan
  may have added names of its own. -/
  same : isLeft passthrough keyField = true → plan.filter = some filter.text ∧
    (∀ key ∈ nameRefs filter.text, plan.names.get? key = filter.names.get? key) ∧
    (plan.read.fields = none → plan.names = filter.names)

section Agreement

variable {passthrough : List String} {key : Condition} {rest : List Condition} {s : Scan}

/-- A scan that holds rendered conditions agrees with the filter that a query compiles from them. -/
theorem filtersAgree_of_rendered (hkey : checkFieldName key.field = .ok ()) (hne : rest ≠ [])
    (hfields : ∀ c ∈ rest, checkFieldName c.field = .ok ())
    (hrendered : Condition.renderAll { passthrough } filterBinder rest =
      (s.fragments, s.resolver, s.binder)) :
    ∃ filter, (compileFilter rest (Resolver.path { passthrough } key.field).2).1 = some filter ∧
      FiltersAgree passthrough key.field filter s.plan := by
  have hsigns (c : Condition) (hc : c ∈ rest) : HasNoSign c.field.toList :=
    hasNoSign_of_checkFieldName (hfields c hc)
  obtain ⟨hfragments, hstate⟩ := Prod.mk.inj hrendered
  obtain ⟨hresolver, hbinder⟩ := Prod.mk.inj hstate
  have hplan : s.plan.filter = some (joinFragments s.fragments) := by
    obtain ⟨c, later, rfl⟩ := List.exists_cons_of_ne_nil hne
    rw [Scan.plan_filter, ← hfragments]
    rfl
  have hscanNames : Means s.resolver.names s.plan.names.get? :=
    fun _ _ hget => Scan.get?_plan_names hget
  obtain ⟨filter, hfilter, hnamed, hvalues⟩ :=
    compileFilter_named hne hsigns (Resolver.path { passthrough } key.field).2
  refine ⟨filter, hfilter, ?_⟩
  constructor
  case values => rw [hvalues, Scan.plan_values, ← hbinder, Condition.renderAll_binder]
  case text =>
    refine ⟨_, hplan, ?_⟩
    rw [hnamed, ← hfragments, Condition.named_joinFragments _ rest hsigns]
    rwa [hresolver]
  case same =>
    intro hleft
    obtain ⟨hword, hchars⟩ := isWord_of_checkFieldName hkey
    rw [Resolver.path_of_isWord _ hword hchars, if_pos hleft] at hfilter
    obtain ⟨htext, hnames⟩ := names_compileFilter hne hsigns hfilter
    rw [hfragments] at htext
    rw [hresolver] at hnames
    refine ⟨by rw [hplan, htext], fun key href => ?_, fun hread => ?_⟩
    · obtain ⟨-, hcompiled⟩ := compileFilter_ok { passthrough } hsigns
      obtain ⟨hclosed, -, -⟩ := hcompiled filter hfilter
      obtain ⟨name, hname⟩ := (Bindings.mem_keys_iff _ _).1 ((hclosed.names key).2 href)
      rw [hname]
      exact hscanNames key name (hnames ▸ hname)
    · rw [hnames, Scan.plan_names_of_fields_eq_none hread]

end Agreement

/-- **A query and a scan compile the same filter from the same conditions**, whatever else is asked
of them. Conditions of which each is accepted, and which a query has room for beside its key, always
make both; the filters then differ at most in the numbers that the key condition has taken. -/
theorem filters_agree {passthrough : List String} {key : String × Operator × Operand}
    {rest : List (String × Operator × Operand)} (hkey : key.2.1.isKeyOperator = true)
    (haccepted : ∀ asked ∈ key :: rest, Accepted asked) (hne : 1 ≤ rest.length)
    (hroom : rest.length ≤ 99) :
    (∃ q, Query.built (.leaveAlone passthrough ::
      (key :: rest).map fun asked => .condition asked.1 asked.2.1 asked.2.2) = .ok q) ∧
    (∃ s, Scan.built passthrough
      (rest.map fun asked => .condition asked.1 asked.2.1 asked.2.2) = .ok s) ∧
    ∀ queryCalls q scanCalls s,
      Query.built queryCalls = .ok q → q.passthrough = passthrough →
      queryCalls.filterMap QueryCall.asked? = key :: rest →
      Scan.built passthrough scanCalls = .ok s →
      (∀ call ∈ scanCalls, call.bringsFragment = true → call.asked?.isSome = true) →
      scanCalls.filterMap ScanCall.asked? = rest →
      ∃ plan filter, q.plan = .ok plan ∧ plan.filter = some filter ∧
        FiltersAgree passthrough key.1 filter s.plan := by
  refine ⟨?_, ?_, ?_⟩
  · have hall :
        ({ passthrough } : Query).conditions.length + (key :: rest).length ≤ maxConditions := by
      show 0 + (rest.length + 1) ≤ 100
      omega
    exact Query.foldlM_of_accepted hall haccepted
  · have hfew : rest.length ≤ maxConditions := Nat.le_trans hroom (by decide)
    obtain ⟨s, hs, -⟩ := Scan.built_of_accepted passthrough hfew fun asked hmem =>
      haccepted asked (List.mem_cons_of_mem _ hmem)
    exact ⟨s, hs⟩
  · rintro queryCalls q scanCalls s hquery rfl hqueryAsked hscan hconditions hscanAsked
    have hchecked := Query.built_isChecked hquery
    have hasked := Query.asked_built hquery
    rw [hqueryAsked, ← hscanAsked, ← Scan.asked_built hscan] at hasked
    obtain ⟨first, later, hsplit, rfl, hlater⟩ := List.map_eq_cons_iff.1 hasked
    rw [Condition.map_asked_inj] at hlater
    subst hlater
    have hfields (c : Condition) (hc : c ∈ first :: s.conditions) :
        checkFieldName c.field = .ok () :=
      hchecked.fields c (hsplit ▸ hc)
    have hsome : s.conditions ≠ [] := by
      intro hnil
      rw [← hscanAsked, ← Scan.asked_built hscan, hnil] at hne
      cases hne
    obtain ⟨filter, hfilter, hagree⟩ :=
      filtersAgree_of_rendered (hfields first List.mem_cons_self) hsome
      (fun c hc => hfields c (List.mem_cons_of_mem _ hc)) (Scan.rendered_built hscan hconditions)
    rw [Query.plan_of_cons hsplit, compileKey_eq hkey]
    exact ⟨_, filter, rfl, hfilter, hagree⟩

end ItemTable.Expression

namespace ItemTable

open Expression

/-- The key condition and the filter share a reserved name, which the query has numbered first. -/
theorem crowdedQuery_filters_agree :
    Query.built crowdedCalls = .ok crowdedQuery ∧
    ∃ s, Scan.built ["value"]
        [.condition "status" .oneOf (.list [.text "a", .text "b"]),
          .condition "name" .contains (.single (.text "x"))] = .ok s ∧
      s.plan.filter = some "#n0 IN (:value0, :value1) AND contains(#n1, :value2)" ∧
      ∃ plan filter, crowdedQuery.plan = .ok plan ∧ plan.filter = some filter ∧
        filter.text = "#n1 IN (:value0, :value1) AND contains(#n0, :value2)" ∧
        FiltersAgree ["value"] "name" filter s.plan := by
  have hquery : Query.built crowdedCalls = .ok crowdedQuery := rfl
  have haccepted :
      ∀ asked ∈ [("name", Operator.between, Operand.range (.number "1") (.number "2.5")),
      ("status", .oneOf, .list [.text "a", .text "b"]), ("name", .contains, .single (.text "x"))],
      Accepted asked := by
    intro asked hmem
    simp only [List.mem_cons, List.not_mem_nil, or_false] at hmem
    rcases hmem with rfl | rfl | rfl <;> exact ⟨_, rfl⟩
  obtain ⟨-, ⟨s, hs⟩, hall⟩ := @filters_agree ["value"] _ _ rfl haccepted (by decide) (by decide)
  have hscanText : ((Scan.built ["value"]
      [.condition "status" .oneOf (.list [.text "a", .text "b"]),
        .condition "name" .contains (.single (.text "x"))]).toOption.map fun s => s.plan.filter) =
      some (some "#n0 IN (:value0, :value1) AND contains(#n1, :value2)") := by decide +kernel
  have hqueryText : (crowdedQuery.plan.toOption.map fun plan => plan.filter.map Compiled.text) =
      some (some "#n1 IN (:value0, :value1) AND contains(#n0, :value2)") := by decide +kernel
  have hscan : Scan.built ["value"]
      [.condition "status" .oneOf (.list [.text "a", .text "b"]),
        .condition "name" .contains (.single (.text "x"))] = .ok s := hs
  obtain ⟨plan, filter, hplan, hfilter, hagree⟩ :=
    hall crowdedCalls crowdedQuery _ s hquery rfl rfl hscan
    (by decide) rfl
  rw [hscan] at hscanText
  rw [hplan] at hqueryText
  have htext : plan.filter.map Compiled.text = _ := Option.some.inj hqueryText
  rw [hfilter] at htext
  exact ⟨hquery, s, hscan, Option.some.inj hscanText, plan, filter, hplan, hfilter,
    Option.some.inj htext, hagree⟩

end ItemTable
