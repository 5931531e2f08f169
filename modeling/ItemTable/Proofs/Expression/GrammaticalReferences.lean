import ItemTable.Proofs.Expression.Lexing
import ItemTable.Proofs.Expression.SettledReferences

/-!
# References that the grammar takes

A reference is grammatical if it is one token: a bare name that is not reserved and spells the
attribute, or a placeholder that is bound to it (`IsReference`). Placeholders always are. A name
that is written bare is grammatical unless it starts with a digit or is a word of the grammar
(`isExpressible`), and a field may be both, so that a builder does not always write what the grammar
takes: `references_grammatical`, `bareDigit_not_grammatical`.
-/
namespace ItemTable.Expression

/-- A text that the grammar takes as a reference to an attribute. -/
def IsReference (names : Bindings String) (name text : String) : Prop :=
  (tokensOf text = [⟨.identifier, text.toList⟩] ∧ isReserved text = false ∧ text = name) ∨
    (tokensOf text = [⟨.nameRef, text.toList⟩] ∧ names.get? text = some name)

/-- A field that is replaced, or that the grammar takes as it stands. -/
def isExpressible (field : String) : Bool :=
  isReserved field || (isPlainName field && !isGrammarWord field.toList)

theorem isReference_namePlaceholder {names : Bindings String} {number : Nat} {name : String}
    (h : names.get? (namePlaceholder number) = some name) :
    IsReference names name (namePlaceholder number) :=
  .inr ⟨tokensOf_namePlaceholder number, h⟩

/-- A text is one bare name just if it is a plain name and no word of the grammar. -/
theorem tokensOf_eq_identifier_iff (text : String) : tokensOf text = [⟨.identifier, text.toList⟩] ↔
    isPlainName text = true ∧ isGrammarWord text.toList = false := by
  have hsame (hne : text.toList ≠ []) (hword : ∀ c ∈ text.toList, isWordChar c = true) :
      tokensOf text = [⟨.identifier, text.toList⟩] ↔
        isPlainName text = true ∧ isGrammarWord text.toList = false := by
    obtain ⟨c, rest, htext⟩ := List.exists_cons_of_ne_nil hne
    rw [htext] at hword
    have hplain : isPlainName text = isWordStart c := by
      rw [isPlainName, htext]
      simp only [List.all_eq_true.2 hword, Bool.and_true]
    rw [tokensOf, htext, tokens_word hword, hplain]
    cases hstart : isWordStart c with
    | false => simp
    | true => cases hgrammar : isGrammarWord (c :: rest) <;> simp
  constructor
  · intro h
    obtain ⟨hne, hword⟩ := Token.IsWhole.isWord (t := ⟨.identifier, text.toList⟩) h rfl
    exact (hsame hne hword).1 h
  · intro h
    obtain ⟨hne, hword⟩ := Resolver.isWord_of_isPlainName h.1
    exact (hsame hne hword).2 h

/-- A word that is written bare is a reference if it is a plain name, not reserved and no word of
the grammar. -/
theorem isReference_bare_iff (names : Bindings String) {text : String} (hne : text.toList ≠ [])
    (hword : ∀ c ∈ text.toList, isWordChar c = true) :
    IsReference names text text ↔
      isReserved text = false ∧ isPlainName text = true ∧ isGrammarWord text.toList = false := by
  have hname : tokensOf text ≠ [⟨.nameRef, text.toList⟩] := by
    obtain ⟨c, rest, htext⟩ := List.exists_cons_of_ne_nil hne
    rw [htext] at hword
    rw [tokensOf, htext, tokens_word hword]
    split
    · split <;> simp
    · simp
  rw [IsReference, tokensOf_eq_identifier_iff]
  simp [hname, and_comm]

theorem isWordStart_of_toLower {c : Char} (h : isWordStart c.toLower = true) :
    isWordStart c = true := by
  unfold Char.toLower at h
  split at h
  · next hupper =>
    have hletter : c.isUpper = true := decide_eq_true hupper
    have halpha : c.isAlpha = true := Bool.or_eq_true_iff.2 (.inl hletter)
    rw [isWordStart, halpha, Bool.true_or]
  · exact h

theorem isWordChar_of_isWordStart {c : Char} (h : isWordStart c = true) : isWordChar c = true := by
  simp only [isWordStart, isWordChar, Char.isAlphanum, Bool.or_eq_true] at h ⊢
  exact h.imp_left .inl

/-- The words of the grammar are plain names. -/
theorem isPlainName_of_isGrammarWord {name : String} (h : isGrammarWord name.toList = true) :
    isPlainName name = true := by
  obtain ⟨w, hw, heq⟩ := List.any_eq_true.1 h
  rw [decide_eq_true_eq] at heq
  have hletters :
      (grammarWords.all fun w => !w.toList.isEmpty && w.toList.all isWordStart) = true := by
    decide +kernel
  have hword := List.all_eq_true.1 hletters w hw
  rw [heq, Bool.and_eq_true, Bool.not_eq_true', List.isEmpty_eq_false_iff,
    List.all_eq_true] at hword
  obtain ⟨hne, hall⟩ := hword
  have hstart (c : Char) (hc : c ∈ name.toList) : isWordStart c = true :=
    isWordStart_of_toLower (hall _ (List.mem_map_of_mem hc))
  obtain ⟨c, rest, htext⟩ := List.exists_cons_of_ne_nil (mt (congrArg (List.map Char.toLower)) hne)
  rw [htext] at hstart
  rw [isPlainName, htext]
  simp only [hstart c List.mem_cons_self, Bool.true_and, List.all_eq_true]
  exact fun d hd => isWordChar_of_isWordStart (hstart d hd)

theorem isWord_of_checkFieldName {field : String} (h : checkFieldName field = .ok ()) :
    field.toList ≠ [] ∧ ∀ c ∈ field.toList, isWordChar c = true := by
  unfold checkFieldName at h
  split at h
  · next hok =>
    rw [Bool.and_eq_true, List.all_eq_true, Bool.not_eq_true', String.isEmpty_eq_false_iff] at hok
    exact ⟨fun hnil => hok.1 (String.toList_eq_nil_iff.1 hnil), hok.2⟩
  · cases h

/-- Of words, just the reserved ones are replaced. -/
theorem isLeft_of_isWord {name : String} (hword : ∀ c ∈ name.toList, isWordChar c = true) :
    isLeft [] name = !isReserved name := by
  simp [isLeft, needsPlaceholder_of_isWord hword]

namespace Resolver

/-- A field is one segment. -/
theorem path_of_isWord (r : Resolver) {field : String} (hne : field.toList ≠ [])
    (hword : ∀ c ∈ field.toList, isWordChar c = true) :
    r.path field =
      if isLeft r.passthrough field = true then (field, r) else r.placeholder field := by
  have hpoint : '.' ∉ field.toList := fun hmem => absurd (hword _ hmem) (by decide)
  simp only [path, Text.splitAt_of_not_mem hpoint, segments, Text.joinWith,
    r.segment_of_isWord hne hword, String.ofList_toList]
  split
  · simp
  · simp

variable {r : Resolver} {names : Bindings String}

/-- A placeholder that is known to a resolver is bound to its name. -/
theorem isReference_placeholder {name : String} (hsettled : (r.placeholder name).2 = r)
    (hnames : r.names.get? (r.placeholder name).1 = some name →
      names.get? (r.placeholder name).1 = some name) :
    IsReference names name (r.placeholder name).1 := by
  obtain ⟨-, number, htext, hnumber⟩ := r.placeholder_eq name
  rw [hsettled] at hnumber
  have hbound := hnames ((get?_names_eq_some_iff _ _ _).2 ⟨number, htext, hnumber⟩)
  rw [htext] at hbound ⊢
  exact isReference_namePlaceholder hbound

/-- The reference to a field is grammatical just if the field is expressible. -/
theorem isReference_reference_iff {field : String} (hfield : checkFieldName field = .ok ())
    (hpass : r.passthrough = []) (hsettled : (r.path field).2 = r)
    (hnames : r.names.get? (r.reference field) = some field →
      names.get? (r.reference field) = some field) :
    IsReference names field (r.reference field) ↔ isExpressible field = true := by
  obtain ⟨hne, hword⟩ := isWord_of_checkFieldName hfield
  have hpath := r.path_of_isWord hne hword
  rw [hpass, isLeft_of_isWord hword] at hpath
  unfold reference at hnames ⊢
  unfold isExpressible
  cases hreserved : isReserved field with
  | true =>
    rw [hreserved, if_neg (by simp)] at hpath
    rw [hpath] at hsettled hnames ⊢
    exact iff_of_true (isReference_placeholder hsettled hnames) rfl
  | false =>
    rw [hreserved, if_pos (by rfl)] at hpath
    rw [hpath, isReference_bare_iff names hne hword, hreserved]
    simp

/-- The reference to a literal name is grammatical unless the name is a word of the grammar that is
not reserved. -/
theorem isReference_literal_iff {name : String} (hpass : r.passthrough = [])
    (hsettled : (r.literal name).2 = r)
    (hnames : r.names.get? (String.ofList (r.literal name).1) = some name →
      names.get? (String.ofList (r.literal name).1) = some name) :
    IsReference names name (String.ofList (r.literal name).1) ↔
      (isReserved name || !isGrammarWord name.toList) = true := by
  have hliteral := r.literal_eq name
  rw [hpass] at hliteral
  by_cases hbare : (isPlainName name && isLeft [] name) = true
  · rw [if_pos hbare] at hliteral
    obtain ⟨hplain, hleft⟩ := Bool.and_eq_true_iff.1 hbare
    obtain ⟨hne, hword⟩ := isWord_of_isPlainName hplain
    rw [isLeft_of_isWord hword, Bool.not_eq_true'] at hleft
    rw [hliteral, String.ofList_toList, isReference_bare_iff names hne hword, hleft, hplain]
    simp
  · rw [if_neg hbare] at hliteral
    rw [hliteral, String.ofList_toList] at hnames ⊢
    rw [hliteral] at hsettled
    refine iff_of_true (isReference_placeholder hsettled hnames) ?_
    rw [Bool.or_eq_true, Bool.not_eq_true', or_iff_not_imp_right, Bool.not_eq_false]
    intro hgrammar
    have hplain := isPlainName_of_isGrammarWord hgrammar
    rw [hplain, Bool.true_and, isLeft_of_isWord (isWord_of_isPlainName hplain).2] at hbare
    simpa using hbare

end Resolver

/-- The first and the later texts of a query refer to its fields, each by a grammatical reference
just if the field is expressible. -/
structure Query.Refers (q : Query) (plan : QueryPlan) (key : Condition) (rest : List Condition)
    (reference : String → String) : Prop where
  conditions : q.conditions = key :: rest
  keyText : plan.keyCondition.text =
    Condition.fragment key.test (reference key.field) (keyPlaceholders key.test)
  filterText : plan.filter.map Compiled.text =
    if rest.isEmpty then none else some (joinFragments (Condition.written reference 0 rest))
  keyField : IsReference plan.keyCondition.names key.field (reference key.field) ↔
    isExpressible key.field = true
  filterFields : ∀ filter ∈ plan.filter, ∀ c ∈ rest,
    IsReference filter.names c.field (reference c.field) ↔ isExpressible c.field = true

/-- The field of a call that brings a fragment of its own. -/
def ScanCall.field? : ScanCall → Option String
  | condition field _ _ | presence _ field => some field
  | filter .. | useIndex _ | limitTo _ | selectFields _ | readConsistently _ | startAfter _
  | inParallel .. => none

/-- The filter of a scan refers to fields and to the names of placeholders, each by a grammatical
reference just if the name is expressible in its place. -/
structure Scan.Refers (calls : List ScanCall) (s : Scan) (r : Resolver) : Prop where
  text : s.plan.filter = if calls.any ScanCall.bringsFragment then
    some (joinFragments (fragmentsFrom r 0 calls)) else none
  fields : ∀ call ∈ calls, ∀ field ∈ call.field?,
    (IsReference s.plan.names field (r.reference field) ↔ isExpressible field = true)
  names : ∀ expression names values, .filter expression names values ∈ calls →
    ∀ t ∈ tokensOf expression, t.kind = .nameRef →
      ∃ name, (supplied '#' names).get? (String.ofList t.text) = some name ∧
        (∀ first values, t.renamed r (supplied '#' names) first values = (r.literal name).1) ∧
        (IsReference s.plan.names name (String.ofList (r.literal name).1) ↔
          (isReserved name || !isGrammarWord name.toList) = true)

/-- An update refers to its fields, each by a grammatical reference just if the field is
expressible. -/
structure Update.Refers (u : Update) (plan : UpdatePlan) (reference : String → String) : Prop where
  text : plan.update =
    Text.joinWith " " (Clause.written reference u.updates updateBinder Clause.all).1
  fields : ∀ recorded ∈ u.updates,
    (IsReference plan.scope.names recorded.field (reference recorded.field) ↔
      isExpressible recorded.field = true)

theorem namePlaceholder_mem_nameRefs_fragment (test : Test) (number : Nat) {operands : List String}
    (h : operands.length = (Condition.operands test).length) :
    namePlaceholder number ∈
      nameRefs (Condition.fragment test (namePlaceholder number) operands) := by
  rw [nameRefs_eq, refs_fragment (.inl rfl) test _ h, refs_namePlaceholder]
  exact List.mem_cons_self

theorem mem_written (reference : String → String) (first : Nat) {cs : List Condition}
    {c : Condition} (h : c ∈ cs) : ∃ number, Condition.fragment c.test (reference c.field)
      (valuePlaceholders number (Condition.operands c.test).length) ∈
        Condition.written reference first cs := by
  induction cs generalizing first with
  | nil => cases h
  | cons head rest ih =>
    rw [Condition.written]
    rcases List.mem_cons.1 h with rfl | h
    · exact ⟨first, List.mem_cons_self⟩
    · obtain ⟨number, hmem⟩ := ih (first + (Condition.operands head.test).length) h
      exact ⟨number, List.mem_cons_of_mem _ hmem⟩

/-- A name that a text refers to is bound in the text's own names. -/
theorem get?_ofResolver_of_refers {text reference name : String} {r : Resolver}
    {values : Bindings AttributeValue}
    (hrefers : ∀ number, reference = namePlaceholder number → reference ∈ nameRefs text)
    (h : r.names.get? reference = some name) :
    (Compiled.ofResolver text r values).names.get? reference = some name := by
  obtain ⟨number, hkey, -⟩ := (Resolver.get?_names_eq_some_iff _ _ _).1 h
  exact (Compiled.get?_ofResolver_iff _ _ _ _ _).2 ⟨h, hrefers number hkey⟩

theorem Query.refers {calls : List QueryCall} {q : Query} {plan : QueryPlan}
    (hcalls : Query.built calls = .ok q) (hpass : q.passthrough = []) (hplan : q.plan = .ok plan) :
    ∃ key rest, q.Refers plan key rest (Resolver.ofFields [] q.fields).reference := by
  obtain ⟨key, rest, keyValues, filterValues, hconditions, hoperator, hkey, hfilter⟩ :=
    plan_settled hplan
  have hchecked := (built_isChecked hcalls).fields
  have hfields : q.fields = [key.field] ++ rest.map Condition.field := by
    rw [fields, hconditions]
    rfl
  rw [hpass] at hkey hfilter
  rw [hconditions] at hchecked
  refine ⟨key, rest, hconditions, by rw [hkey]; rfl, ?_, ?_, ?_⟩
  · rw [hfilter]
    split <;> rfl
  · have hone : (Resolver.ofFields [] q.fields).reference key.field =
        (Resolver.ofFields [] [key.field]).reference key.field := by
      rw [hfields, Resolver.reference_ofFields_append List.mem_cons_self]
    rw [hkey, hone]
    refine Resolver.isReference_reference_iff (hchecked key List.mem_cons_self)
      (Resolver.passthrough_ofFields _ _) (Resolver.path_ofFields List.mem_cons_self)
      (get?_ofResolver_of_refers fun number hplaceholder => ?_)
    rw [hplaceholder]
    exact namePlaceholder_mem_nameRefs_fragment key.test number (length_keyPlaceholders hoperator)
  · intro filter hsome c hc
    have hmem : c.field ∈ q.fields := by
      rw [hfields]
      exact List.mem_append_right _ (List.mem_map_of_mem hc)
    have hplan : filter = .ofResolver (joinFragments
        (Condition.written (Resolver.ofFields [] q.fields).reference 0 rest))
          (.ofFields [] q.fields) filterValues := by
      rw [hfilter] at hsome
      split at hsome
      · cases hsome
      · exact (Option.some.inj hsome).symm
    rw [hplan]
    refine Resolver.isReference_reference_iff (hchecked c (List.mem_cons_of_mem _ hc))
      (Resolver.passthrough_ofFields _ _) (Resolver.path_ofFields hmem)
      (get?_ofResolver_of_refers fun number hplaceholder => ?_)
    -- a filter refers to what its fragments refer to
    obtain ⟨first, hwritten⟩ := mem_written (Resolver.ofFields [] q.fields).reference 0 hc
    rw [nameRefs_eq, joinFragments, refs_joinWith (.inl rfl) (by decide)]
    refine List.mem_flatMap.2 ⟨_, hwritten, ?_⟩
    rw [← nameRefs_eq, hplaceholder]
    exact namePlaceholder_mem_nameRefs_fragment c.test number (length_valuePlaceholders first _)

theorem ScanCall.checked_of_apply {s s' : Scan} {call : ScanCall} (h : call.apply s = .ok s')
    {field : String} (hfield : field ∈ call.field?) : checkFieldName field = .ok () := by
  cases call with
  | condition field operator operand =>
    cases hfield
    obtain ⟨-, c, hc, -⟩ := Scan.add_eq_ok.1 h
    exact (Condition.of_eq_ok.1 hc).1
  | presence test field =>
    cases hfield
    obtain ⟨-, hfield, -⟩ := Scan.addPresence_eq_ok.1 h
    exact hfield
  | filter | useIndex | limitTo | selectFields | readConsistently | startAfter | inParallel =>
    cases hfield

theorem ScanCall.mem_references {call : ScanCall} {field : String} (h : field ∈ call.field?) :
    .path field ∈ call.references := by
  cases call with
  | condition field operator operand | presence test field =>
    cases h
    exact List.mem_cons_self
  | filter | useIndex | limitTo | selectFields | readConsistently | startAfter
  | inParallel => cases h

theorem Scan.refers {calls : List ScanCall} {s : Scan} (hcalls : Scan.built [] calls = .ok s) :
    s.Refers calls (.after [] (calls.flatMap ScanCall.references)) := by
  have hresolver := (built_follows hcalls).resolver
  have hpass : (Resolver.after [] (calls.flatMap ScanCall.references)).passthrough = [] := by
    rw [Resolver.after_eq]
  have hnames {key name : String}
      (h : (Resolver.after [] (calls.flatMap ScanCall.references)).names.get? key = some name) :
      s.plan.names.get? key = some name := get?_plan_names (hresolver ▸ h)
  constructor
  case text => exact built_filter hcalls
  case fields =>
    intro call hcall field hfield
    obtain ⟨s₁, s₂, happly⟩ := accepted_of_built hcalls hcall
    have hmem : ResolverCall.path field ∈ calls.flatMap ScanCall.references :=
      List.mem_flatMap.2 ⟨call, hcall, ScanCall.mem_references hfield⟩
    exact Resolver.isReference_reference_iff (ScanCall.checked_of_apply happly hfield) hpass
      (Resolver.write_after hmem) hnames
  case names =>
    intro expression names values hcall t ht hkind
    obtain ⟨s₁, s₂, happly⟩ := accepted_of_built hcalls hcall
    obtain ⟨-, text, r, b, hadopt, -⟩ := Scan.addFilter_eq_ok.1 happly
    obtain ⟨name, hname⟩ := exists_name_of_adoptFilter hadopt ht hkind
    have hreference : t.reference? (supplied '#' names) = some (.literal name) := by
      simp only [Token.reference?, hkind, hname, Option.map_some]
    have hmem : ResolverCall.literal name ∈ calls.flatMap ScanCall.references :=
      List.mem_flatMap.2 ⟨_, hcall, List.mem_filterMap.2 ⟨t, ht, hreference⟩⟩
    refine ⟨name, hname, fun first values => ?_, ?_⟩
    · simp only [Token.renamed, hreference, ResolverCall.write, String.toList_ofList]
    · exact Resolver.isReference_literal_iff hpass (Resolver.write_after hmem) hnames

theorem Update.refers {calls : List UpdateCall} {u : Update} {plan : UpdatePlan}
    (hcalls : Update.built calls = .ok u) (hpass : u.passthrough = []) (hplan : u.plan = .ok plan) :
    u.Refers plan (Resolver.ofFields [] (clauseFields u.updates Clause.all)).reference := by
  obtain ⟨htext, hnames⟩ := plan_settled hplan
  rw [hpass] at htext hnames
  refine ⟨htext, fun recorded hrecorded => ?_⟩
  have hmem : recorded.field ∈ clauseFields u.updates Clause.all := by
    refine List.mem_flatMap.2 ⟨recorded.action.clause, ?_, ?_⟩
    · cases recorded.action.clause <;> decide
    · exact List.mem_map_of_mem (List.mem_filter.2 ⟨hrecorded, by simp⟩)
  rw [hnames]
  exact Resolver.isReference_reference_iff (fields_built hcalls recorded hrecorded)
    (Resolver.passthrough_ofFields _ _) (Resolver.path_ofFields hmem) id

/-- **A builder writes a grammatical reference just if the name is expressible in its place.** In
queries, scans and updates that replace all reserved names, this holds of every field, and in
filters written by hand of every name that is given for a placeholder. -/
theorem references_grammatical (queryCalls : List QueryCall) (scanCalls : List ScanCall)
    (updateCalls : List UpdateCall) :
    (∀ (q : Query) (plan : QueryPlan), Query.built queryCalls = .ok q →
      q.passthrough = [] → q.plan = .ok plan →
        ∃ key rest, q.Refers plan key rest (Resolver.ofFields [] q.fields).reference) ∧
    (∀ s : Scan, Scan.built [] scanCalls = .ok s →
      s.Refers scanCalls (.after [] (scanCalls.flatMap ScanCall.references))) ∧
    (∀ (u : Update) (plan : UpdatePlan), Update.built updateCalls = .ok u →
      u.passthrough = [] → u.plan = .ok plan →
        u.Refers plan (Resolver.ofFields [] (clauseFields u.updates Clause.all)).reference) :=
  ⟨fun _ _ => Query.refers, fun _ => Scan.refers, fun _ _ => Update.refers⟩

/-- Calls with names that are reserved, names that start with a digit and words of the grammar. -/
def awkwardScanCalls : List ScanCall :=
  [.condition "2fa" .equals (.single (.text "x")), .presence .present "name",
    .filter "#a = #b" [("#a", "2fa"), ("#b", "contains")] []]

def awkwardQueryCalls : List QueryCall :=
  [.condition "name" .equals (.single (.text "x")), .condition "2fa" .equals (.single (.text "y"))]

def awkwardUpdateCalls : List UpdateCall :=
  [.set "contains" (.text "x"), .remove "name", .add "total" (.number "1")]

theorem awkwardCalls_refer :
    (∃ q plan key rest, Query.built awkwardQueryCalls = .ok q ∧ q.plan = .ok plan ∧
      plan.keyCondition.text = "#n0 = :keyValue" ∧
      q.Refers plan key rest (Resolver.ofFields [] q.fields).reference) ∧
    (∃ s, Scan.built [] awkwardScanCalls = .ok s ∧
      s.plan.filter = some "2fa = :value0 AND attribute_exists(#n0) AND (#n1 = contains)" ∧
      s.Refers awkwardScanCalls (.after [] (awkwardScanCalls.flatMap ScanCall.references))) ∧
    ∃ u plan, Update.built awkwardUpdateCalls = .ok u ∧ u.plan = .ok plan ∧
      plan.update = "SET contains = :val1 REMOVE #n0 ADD #n1 :val2" ∧
      u.Refers plan (Resolver.ofFields [] (clauseFields u.updates Clause.all)).reference := by
  obtain ⟨hquery, hscan, hupdate⟩ :=
    references_grammatical awkwardQueryCalls awkwardScanCalls awkwardUpdateCalls
  refine ⟨?_, ?_, ?_⟩
  · obtain ⟨q, hbuilt, hpass, htext⟩ : ∃ q, Query.built awkwardQueryCalls = .ok q ∧
        q.passthrough = [] ∧
        (q.plan.toOption.map fun plan => plan.keyCondition.text) = some "#n0 = :keyValue" :=
      ⟨_, rfl, rfl, by decide +kernel⟩
    obtain ⟨plan, hplan, htext⟩ := toOption_map_eq_some.1 htext
    obtain ⟨key, rest, hrefers⟩ := hquery q plan hbuilt hpass hplan
    exact ⟨q, plan, key, rest, hbuilt, hplan, htext, hrefers⟩
  · have htext : ((Scan.built [] awkwardScanCalls).toOption.map fun s => s.plan.filter) =
        some (some "2fa = :value0 AND attribute_exists(#n0) AND (#n1 = contains)") := by
      decide +kernel
    obtain ⟨s, hbuilt, htext⟩ := toOption_map_eq_some.1 htext
    exact ⟨s, hbuilt, htext, hscan s hbuilt⟩
  · obtain ⟨u, hbuilt, hpass, htext⟩ : ∃ u, Update.built awkwardUpdateCalls = .ok u ∧
        u.passthrough = [] ∧
        (u.plan.toOption.map UpdatePlan.update) =
          some "SET contains = :val1 REMOVE #n0 ADD #n1 :val2" :=
      ⟨_, rfl, rfl, by decide +kernel⟩
    obtain ⟨plan, hplan, htext⟩ := toOption_map_eq_some.1 htext
    exact ⟨u, plan, hbuilt, hplan, htext, hupdate u plan hbuilt hpass hplan⟩

/-- A field that starts with a digit is written bare, and so is a word of the grammar that is given
for a placeholder. The grammar takes neither for a name. -/
theorem bareDigit_not_grammatical :
    ∃ s, Scan.built [] [.condition "2fa" .equals (.single (.text "x")),
        .filter "#a = #b" [("#a", "2fa"), ("#b", "contains")] []] = .ok s ∧
      s.plan.filter = some "2fa = :value0 AND (#n0 = contains)" ∧
      s.plan.names.entries = [("#n0", "2fa")] ∧
      tokensOf "2fa" = [⟨.other, "2fa".toList⟩] ∧
      tokensOf "contains" = [⟨.keyword, "contains".toList⟩] ∧
      ¬IsReference s.plan.names "2fa" "2fa" ∧ ¬IsReference s.plan.names "contains" "contains" := by
  have hplan : ((Scan.built [] [.condition "2fa" .equals (.single (.text "x")),
      .filter "#a = #b" [("#a", "2fa"), ("#b", "contains")] []]).toOption.map
        fun s => (s.plan.filter, s.plan.names.entries)) =
          some (some "2fa = :value0 AND (#n0 = contains)", [("#n0", "2fa")]) := by
    decide +kernel
  have hdigit : tokensOf "2fa" = [⟨.other, "2fa".toList⟩] := by decide +kernel
  have hword : tokensOf "contains" = [⟨.keyword, "contains".toList⟩] := by decide +kernel
  have hnone (names : Bindings String) {text : String} {kind : TokenKind}
      (htext : tokensOf text = [⟨kind, text.toList⟩]) (hname : kind ≠ .identifier)
      (hkey : kind ≠ .nameRef) : ¬IsReference names text text := by
    rintro (⟨htokens, -⟩ | ⟨htokens, -⟩)
    · rw [htext] at htokens
      exact hname (congrArg Token.kind (List.cons.inj htokens).1)
    · rw [htext] at htokens
      exact hkey (congrArg Token.kind (List.cons.inj htokens).1)
  obtain ⟨s, hbuilt, hplan⟩ := toOption_map_eq_some.1 hplan
  obtain ⟨hfilter, hnames⟩ := Prod.mk.inj hplan
  exact ⟨s, hbuilt, hfilter, hnames, hdigit, hword, hnone _ hdigit (by decide) (by decide),
    hnone _ hword (by decide) (by decide)⟩

end ItemTable.Expression
