import ItemTable.Proofs.Expression.ScanNumbering

/-!
# When a scan takes over a filter

A filter written by hand is taken over just if its bindings fit it (`IsAdoptable`): none of them is
refused for what it binds, and their placeholders are the references of the filter, no more and no
fewer. Then the scan has one fragment more, in which the values have the next numbers, whatever
placeholders the caller has given them: `Scan.addFilter_adopts`.
-/
namespace ItemTable.Expression

/-- A filter whose bindings are accepted, and whose references are those that are bound. -/
structure IsAdoptable (expression : String) (names : List (String × String))
    (values : List (String × AttributeValue)) : Prop where
  notBlank : Text.allBlank expression = false
  named : ∀ binding ∈ names, binding.2 ≠ ""
  checked : ∀ binding ∈ values, checkValue (withSign ':' binding.1) binding.2 = .ok ()
  nameRefs : ∀ key, key ∈ nameRefs expression ↔
    key ∈ names.map fun binding => withSign '#' binding.1
  valueRefs : ∀ key, key ∈ valueRefs expression ↔
    key ∈ values.map fun binding => withSign ':' binding.1

theorem mem_keys_supplied {α : Type} {sign : Char} {bindings : List (String × α)} {key : String} :
    key ∈ (supplied sign bindings).keys ↔
      key ∈ bindings.map fun binding => withSign sign binding.1 := by
  rw [supplied, Bindings.mem_keys_ofList, List.map_map]
  rfl

/-- Nothing is left over just if every placeholder that is supplied is referred to. -/
theorem unreferenced?_eq_none {expression : String} {names : Bindings String}
    {values : Bindings AttributeValue} :
    unreferenced? expression names values = none ↔
      (∀ key ∈ names.keys, key ∈ nameRefs expression) ∧
        ∀ key ∈ values.keys, key ∈ valueRefs expression := by
  simp [unreferenced?, Option.or_eq_none_iff, List.find?_eq_none, and_comm]

/-- A token that is no reference, or that is supplied. -/
structure Token.IsSupplied (names : Bindings String) (values : Bindings AttributeValue)
    (t : Token) : Prop where
  name : t.kind = .nameRef → String.ofList t.text ∈ names.keys
  value : t.kind = .valueRef → String.ofList t.text ∈ values.keys

theorem isSupplied_of_refs {expression : String} {names : Bindings String}
    {values : Bindings AttributeValue} (hnames : ∀ key ∈ nameRefs expression, key ∈ names.keys)
    (hvalues : ∀ key ∈ valueRefs expression, key ∈ values.keys) {t : Token}
    (ht : t ∈ tokensOf expression) : t.IsSupplied names values where
  name := fun hkind => hnames _ (List.mem_map_of_mem (List.mem_filter.2 ⟨ht, decide_eq_true hkind⟩))
  value :=
    fun hkind => hvalues _ (List.mem_map_of_mem (List.mem_filter.2 ⟨ht, decide_eq_true hkind⟩))

namespace Renaming

variable {names : Bindings String} {values : Bindings AttributeValue}

/-- A token that is supplied is renamed, whatever has come up before. -/
theorem exists_token (s : Renaming) {t : Token} (h : t.IsSupplied names values) :
    ∃ written, s.token names values t = .ok written := by
  unfold token
  cases hkind : t.kind with
  | valueRef =>
    obtain ⟨v, hv⟩ := (Bindings.mem_keys_iff _ _).1 (h.value hkind)
    cases hknown : s.renamed.get? (String.ofList t.text) with
    | some placeholder =>
      simp only [hknown]
      exact ⟨_, rfl⟩
    | none =>
      simp only [hknown, hv]
      exact ⟨_, rfl⟩
  | nameRef =>
    obtain ⟨name, hname⟩ := (Bindings.mem_keys_iff _ _).1 (h.name hkind)
    simp only [hname]
    exact ⟨_, rfl⟩
  | identifier | keyword | other => exact ⟨_, rfl⟩

theorem exists_tokens (s : Renaming) {ts : List Token} (h : ∀ t ∈ ts, t.IsSupplied names values) :
    ∃ written, Renaming.tokens names values s ts = .ok written := by
  induction ts generalizing s with
  | nil => exact ⟨_, rfl⟩
  | cons t rest ih =>
    obtain ⟨hfirst, hrest⟩ := List.forall_mem_cons.1 h
    obtain ⟨⟨text, next⟩, htoken⟩ := s.exists_token hfirst
    obtain ⟨⟨texts, last⟩, htokens⟩ := ih next hrest
    exact ⟨_, bind_eq_ok.2 ⟨_, htoken, bind_eq_ok.2 ⟨_, htokens, rfl⟩⟩⟩

end Renaming

/-- A filter whose bindings fit it is taken over by every resolver and every binder. -/
theorem IsAdoptable.exists_adopted {expression : String} {names : List (String × String)}
    {values : List (String × AttributeValue)} (h : IsAdoptable expression names values)
    (r : Resolver) (b : Binder) :
    ∃ adopted, adoptFilter r b expression names values = .ok adopted := by
  have hnames : suppliedNames .empty names = .ok (supplied '#' names) :=
    suppliedNames_eq_ok.2 ⟨h.named, (foldl_insert_eq_supplied _ _).symm⟩
  have hvalues : suppliedValues .empty values = .ok (supplied ':' values) :=
    suppliedValues_eq_ok.2 ⟨h.checked, (foldl_insert_eq_supplied _ _).symm⟩
  have hreferenced : unreferenced? expression (supplied '#' names) (supplied ':' values) = none :=
    unreferenced?_eq_none.2 ⟨fun key hkey => (h.nameRefs key).2 (mem_keys_supplied.1 hkey),
      fun key hkey => (h.valueRefs key).2 (mem_keys_supplied.1 hkey)⟩
  obtain ⟨⟨texts, s⟩, htokens⟩ := Renaming.exists_tokens { resolver := r, binder := b }
    fun t ht => isSupplied_of_refs (t := t)
      (fun key hkey => mem_keys_supplied.2 ((h.nameRefs key).1 hkey))
      (fun key hkey => mem_keys_supplied.2 ((h.valueRefs key).1 hkey)) ht
  exact ⟨_, adoptFilter_eq_ok.2 ⟨h.notBlank, _, _, texts, s, hnames, hvalues, htokens, hreferenced,
    rfl, rfl, rfl⟩⟩

/-- Only a filter whose bindings fit it is taken over. -/
theorem isAdoptable_of_adoptFilter {r r' : Resolver} {b b' : Binder} {expression text : String}
    {names : List (String × String)} {values : List (String × AttributeValue)}
    (hstem : b.stem = ":value")
    (h : adoptFilter r b expression names values = .ok (text, r', b')) :
    IsAdoptable expression names values := by
  obtain ⟨hblank, boundNames, boundValues, texts, s, hnames, hvalues, -, hreferenced, -⟩ :=
    adoptFilter_eq_ok.1 h
  obtain ⟨hnamed, rfl⟩ := suppliedNames_eq_ok.1 hnames
  obtain ⟨hchecked, rfl⟩ := suppliedValues_eq_ok.1 hvalues
  rw [foldl_insert_eq_supplied, foldl_insert_eq_supplied, unreferenced?_eq_none] at hreferenced
  obtain ⟨-, -, hbound, -⟩ := adoptFilter_renames hstem h
  constructor
  case notBlank => exact hblank
  case named => exact hnamed
  case checked => exact hchecked
  case nameRefs =>
    intro key
    rw [← mem_keys_supplied]
    refine ⟨fun hkey => ?_, hreferenced.1 key⟩
    obtain ⟨t, ht, rfl⟩ := List.mem_map.1 hkey
    obtain ⟨ht, hkind⟩ := List.mem_filter.1 ht
    exact (Bindings.mem_keys_iff _ _).2 (exists_name_of_adoptFilter h ht (of_decide_eq_true hkind))
  case valueRefs =>
    intro key
    rw [← mem_keys_supplied]
    refine ⟨fun hkey => ?_, hreferenced.2 key⟩
    exact (Bindings.mem_keys_iff _ _).2 (Option.isSome_iff_exists.1 (hbound key hkey))

/-- What a scan has after it has taken over a filter: one fragment more, with the references of the
resolver, and a value under each of the next numbers, in the order of their first occurrence. -/
structure Scan.Adopts (s : Scan) (expression : String) (names : List (String × String))
    (values : List (String × AttributeValue)) (s' : Scan) : Prop where
  same : s' = { s with
    fragments := s.fragments ++ [renamedFilter s'.resolver s.binder.next expression names]
    resolver := s'.resolver
    binder := s'.binder }
  resolver : s'.resolver =
    (filterReferences expression names).foldl (fun r call => (call.write r).2) s.resolver
  settled : ∀ call ∈ filterReferences expression names, (call.write s'.resolver).2 = s'.resolver
  next : s'.binder.next = s.binder.next + (valueRefs expression).eraseDups.length
  fresh : ∀ place, valuePlaceholder (s.binder.next + place) ∉ s.binder.values.keys
  bound : ∀ place text, (valueRefs expression).eraseDups[place]? = some text →
    ∃ v, (supplied ':' values).get? text = some v ∧
      s'.binder.values.get? (valuePlaceholder (s.binder.next + place)) = some v
  others : ∀ key, (∀ place < (valueRefs expression).eraseDups.length,
      key ≠ valuePlaceholder (s.binder.next + place)) →
    s'.binder.values.get? key = s.binder.values.get? key

/-- The operands of a filter are the values of its references if all of these are supplied. -/
theorem map_filterOperands {expression : String} {values : List (String × AttributeValue)}
    (h : ∀ key ∈ valueRefs expression, ((supplied ':' values).get? key).isSome = true) :
    (filterOperands expression values).map some =
      (valueRefs expression).eraseDups.map (supplied ':' values).get? := by
  rw [filterOperands, List.map_filterMap_some_eq_filter_map_isSome, List.filter_eq_self]
  intro v hv
  obtain ⟨key, hkey, rfl⟩ := List.mem_map.1 hv
  exact h key (List.mem_eraseDups.1 hkey)

namespace Scan

variable {passthrough : List String} {calls : List ScanCall} {s s' : Scan}

theorem adopts_of_addFilter (h : built passthrough calls = .ok s) {expression : String}
    {names : List (String × String)} {values : List (String × AttributeValue)}
    (hadd : s.addFilter expression names values = .ok s') :
    s.Adopts expression names values s' := by
  have hfollows := built_follows h
  have hcall : (ScanCall.filter expression names values).apply s = .ok s' := hadd
  have hfollows' := hfollows.snoc hcall
  have hoperands : (calls ++ [ScanCall.filter expression names values]).flatMap ScanCall.operands =
      calls.flatMap ScanCall.operands ++ filterOperands expression values := by
    rw [List.flatMap_append, List.flatMap_singleton]
    rfl
  obtain ⟨-, text, r, b, hadopt, rfl⟩ := addFilter_eq_ok.1 hadd
  obtain ⟨hr, -, hsupplied, htext⟩ := adoptFilter_renames hfollows.stem hadopt
  have hvalues := map_filterOperands hsupplied
  have hlength : (filterOperands expression values).length =
      (valueRefs expression).eraseDups.length := by
    simpa using congrArg List.length hvalues
  have hbound := hfollows.get?_values
  have hbound' := hfollows'.get?_values
  rw [hoperands] at hbound'
  constructor
  case same =>
    have hlast : text = renamedFilter r s.binder.next expression names := by
      rw [htext r.assigned List.prefix_rfl, hr]
    rw [hlast]
  case resolver => rw [← Resolver.foldl_write] at hr; exact hr
  case settled =>
    intro call hmem
    have hreference : call ∈ (calls ++ [ScanCall.filter expression names values]).flatMap
        ScanCall.references := by
      rw [List.flatMap_append, List.flatMap_singleton]
      exact List.mem_append_right _ hmem
    rw [hfollows'.resolver]
    exact Resolver.write_after hreference
  case next => rw [hfollows'.next, hoperands, List.length_append, ← hfollows.next, hlength]
  case fresh =>
    intro place hkey
    obtain ⟨v, hv⟩ := (Bindings.mem_keys_iff _ _).1 hkey
    obtain ⟨number, heq, hplace⟩ := (hbound _ v).1 hv
    obtain ⟨hlt, -⟩ := List.getElem?_eq_some_iff.1 hplace
    have hnext := hfollows.next
    have hnumber := valuePlaceholder_inj heq
    omega
  case bound =>
    intro place key hplace
    have hget := congrArg (fun found : List (Option AttributeValue) => found[place]?) hvalues
    simp only [List.getElem?_map, hplace, Option.map_some] at hget
    obtain ⟨v, hv, hsome⟩ := Option.map_eq_some_iff.1 hget
    refine ⟨v, hsome.symm, (hbound' _ v).2 ⟨_, rfl, ?_⟩⟩
    rw [hfollows.next, List.getElem?_append_right (Nat.le_add_right _ _),
      Nat.add_sub_cancel_left, hv]
  case others =>
    intro key hother
    ext v
    rw [hbound', hbound]
    refine exists_congr fun number => and_congr_right fun hkey => ?_
    have hnext := hfollows.next
    by_cases hold : number < (calls.flatMap ScanCall.operands).length
    · rw [List.getElem?_append_left hold]
    · -- a number of the filter itself is excluded
      have hlast : (filterOperands expression values).length ≤
          number - (calls.flatMap ScanCall.operands).length := by
        by_contra hlt
        refine hother (number - s.binder.next) (by omega) ?_
        rw [hkey, Nat.add_sub_cancel' (by omega)]
      rw [List.getElem?_append_right (Nat.le_of_not_lt hold), List.getElem?_eq_none hlast,
        List.getElem?_eq_none (Nat.le_of_not_lt hold)]

/-- **A scan takes over a filter just if its bindings fit it**, and then it adds the filter and
nothing else. -/
theorem addFilter_adopts (h : built passthrough calls = .ok s)
    (hroom : s.fragments.length < maxConditions) (expression : String)
    (names : List (String × String)) (values : List (String × AttributeValue)) :
    ((∃ s', s.addFilter expression names values = .ok s') ↔ IsAdoptable expression names values) ∧
      ∀ s', s.addFilter expression names values = .ok s' → s.Adopts expression names values s' := by
  refine ⟨⟨?_, fun hadoptable => ?_⟩, fun s' hadd => adopts_of_addFilter h hadd⟩
  · rintro ⟨s', hadd⟩
    obtain ⟨-, text, r, b, hadopt, -⟩ := Scan.addFilter_eq_ok.1 hadd
    exact isAdoptable_of_adoptFilter (built_follows h).stem hadopt
  · obtain ⟨⟨text, r, b⟩, hadopt⟩ := hadoptable.exists_adopted s.resolver s.binder
    exact ⟨_, addFilter_eq_ok.2 ⟨checkRoom_eq_ok.2 hroom, text, r, b, hadopt, rfl⟩⟩

end Scan

end ItemTable.Expression

namespace ItemTable

open Expression

/-- A filter whose placeholders are those of the scan, or begin like one another. -/
def borrowedFilter : String :=
  "(#n0 = :value0 OR size(name) < :v) AND :v1 > :value0 AND #n0b = :v"

/-- The second binding of a placeholder replaces the first one. -/
def borrowedNames : List (String × String) :=
  [("#n0", "age"), ("#n0b", "a.b"), ("n0", "first-name")]

def borrowedValues : List (String × AttributeValue) :=
  [("v", .text "old"), ("value0", .number "1"), (":v1", .number "2"), (":v", .text "new")]

theorem borrowedFilter_adopts :
    ∃ s s', Scan.built [] [.condition "name" .equals (.single (.text "x"))] = .ok s ∧
      s.fragments.length < maxConditions ∧
      s.addFilter borrowedFilter borrowedNames borrowedValues = .ok s' ∧
      s'.fragments = ["#n0 = :value0",
        "((#n1 = :value1 OR size(#n0) < :value2) AND :value3 > :value1 AND #n2 = :value2)"] ∧
      IsAdoptable borrowedFilter borrowedNames borrowedValues ∧
      s.Adopts borrowedFilter borrowedNames borrowedValues s' := by
  have hview :
      ((Scan.built [] [.condition "name" .equals (.single (.text "x"))]).toOption.map fun s =>
      (s.fragments.length, (s.addFilter borrowedFilter borrowedNames borrowedValues).toOption.map
        fun s' => s'.fragments)) = some (1, some ["#n0 = :value0",
          "((#n1 = :value1 OR size(#n0) < :value2) AND :value3 > :value1 AND #n2 = :value2)"]) := by
    decide +kernel
  obtain ⟨s, hbuilt, hview⟩ := toOption_map_eq_some.1 hview
  obtain ⟨hlength, hview⟩ := Prod.mk.inj hview
  obtain ⟨s', hadd, hfragments⟩ := toOption_map_eq_some.1 hview
  have hroom : s.fragments.length < maxConditions := by rw [hlength]; decide
  obtain ⟨haccepted, hadopts⟩ :=
    Scan.addFilter_adopts hbuilt hroom borrowedFilter borrowedNames borrowedValues
  exact ⟨s, s', hbuilt, hroom, hadd, hfragments, haccepted.1 ⟨s', hadd⟩, hadopts s' hadd⟩

end ItemTable
