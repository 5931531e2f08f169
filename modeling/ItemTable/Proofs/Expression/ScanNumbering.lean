import ItemTable.Proofs.Expression.ClosedScan
import ItemTable.Proofs.Expression.QueryMeaning
import ItemTable.Proofs.Expression.RenamedFilter

/-!
# How a scan numbers its operands

Every call of a scan asks the resolver for names (`ScanCall.references`), binds operands
(`ScanCall.operands`) and brings at most one fragment (`ScanCall.fragments`). One counter runs
through all calls, so that the filter is the fragments in the order of the calls, each with the
numbers behind those of the calls before it, and the operand of a number is never replaced:
`Scan.built_numbers`.
-/
namespace ItemTable.Expression

/-- The values of an operand in the order in which they are written. -/
def Operand.values : Operand → List AttributeValue
  | single v => [v]
  | range low high => [low, high]
  | list vs => vs

theorem Condition.operands_eq (test : Test) : operands test = test.operand.values := by
  cases test <;> rfl

/-- The placeholders of values with numbers one after another. -/
def valuePlaceholders (first count : Nat) : List String :=
  (List.range' first count).map valuePlaceholder

theorem length_valuePlaceholders (first count : Nat) :
    (valuePlaceholders first count).length = count := by
  simp [valuePlaceholders]

theorem valuePlaceholders_add (first count more : Nat) :
    valuePlaceholders first (count + more) =
      valuePlaceholders first count ++ valuePlaceholders (first + count) more := by
  rw [valuePlaceholders, ← List.range'_append_1, List.map_append]
  rfl

namespace ScanCall

/-- A call that brings a fragment. -/
def bringsFragment : ScanCall → Bool
  | condition .. | presence .. | filter .. => true
  | useIndex _ | limitTo _ | selectFields _ | readConsistently _ | startAfter _
  | inParallel .. => false

/-- What a call asks of the resolver. -/
def references : ScanCall → List ResolverCall
  | condition field _ _ | presence _ field => [.path field]
  | filter expression names _ => filterReferences expression names
  | useIndex _ | limitTo _ | selectFields _ | readConsistently _ | startAfter _
  | inParallel .. => []

/-- The values that a call binds, in the order in which they are written. -/
def operands : ScanCall → List AttributeValue
  | condition _ _ operand => operand.values
  | filter expression _ values => filterOperands expression values
  | presence .. | useIndex _ | limitTo _ | selectFields _ | readConsistently _ | startAfter _
  | inParallel .. => []

/-- The fragment of a call, if it brings one, with the references of a resolver and with numbers
from the given one on. -/
def fragments (r : Resolver) (first : Nat) : ScanCall → List String
  | condition field operator operand =>
    (Test.check field operator operand).toOption.toList.map fun test =>
      Condition.fragment test (r.path field).1 (valuePlaceholders first operand.values.length)
  | presence test field => [test.name ++ "(" ++ (r.path field).1 ++ ")"]
  | filter expression names _ => [renamedFilter r first expression names]
  | useIndex _ | limitTo _ | selectFields _ | readConsistently _ | startAfter _
  | inParallel .. => []

end ScanCall

/-- The fragments of calls, the numbers of each call behind those of the calls before it. -/
def fragmentsFrom (r : Resolver) (first : Nat) : List ScanCall → List String
  | [] => []
  | call :: rest => call.fragments r first ++ fragmentsFrom r (first + call.operands.length) rest

theorem fragmentsFrom_append (r : Resolver) (first : Nat) (calls later : List ScanCall) :
    fragmentsFrom r first (calls ++ later) =
      fragmentsFrom r first calls ++
        fragmentsFrom r (first + (calls.flatMap ScanCall.operands).length) later := by
  induction calls generalizing first with
  | nil => rfl
  | cons call rest ih =>
    rw [List.cons_append, fragmentsFrom, fragmentsFrom, ih, List.flatMap_cons, List.length_append,
      Nat.add_assoc, List.append_assoc]

namespace Binder

theorem bindAll_placeholders (b : Binder) (hstem : b.stem = ":value") (vs : List AttributeValue) :
    (b.bindAll vs).1 = valuePlaceholders b.next vs.length := by
  induction vs generalizing b with
  | nil => rfl
  | cons v rest ih =>
    have hrest := ih (b.bind v).2 hstem
    have hfirst : (b.bind v).1 = valuePlaceholder b.next := congrArg (· ++ toString b.next) hstem
    show (b.bind v).1 :: ((b.bind v).2.bindAll rest).1 = _
    rw [hrest, hfirst]
    rfl

/-- The values of a binder have the numbers of their places. -/
theorem bound_bindAll (b : Binder) (hstem : b.stem = ":value") (vs : List AttributeValue) :
    (b.bindAll vs).2.bound =
      b.bound ++ (vs.zipIdx b.next).map fun (v, number) => (valuePlaceholder number, v) := by
  induction vs generalizing b with
  | nil => exact (List.append_nil _).symm
  | cons v rest ih =>
    have hrest := ih (b.bind v).2 hstem
    have hfirst : (b.bind v).2.bound = b.bound ++ [(valuePlaceholder b.next, v)] :=
      congrArg (fun stem => b.bound ++ [(stem ++ toString b.next, v)]) hstem
    rw [bindAll, hrest, hfirst, List.zipIdx_cons, List.map_cons, List.append_assoc]
    rfl

end Binder

theorem valuePlaceholder_inj {m n : Nat} (h : valuePlaceholder m = valuePlaceholder n) : m = n :=
  toString_inj.1 ((String.append_right_inj ":value").1 h)

theorem get?_values_bindAll (vs : List AttributeValue) (key : String) (v : AttributeValue) :
    (filterBinder.bindAll vs).2.values.get? key = some v ↔
      ∃ number, key = valuePlaceholder number ∧ vs[number]? = some v := by
  rw [Binder.values, Binder.bound_bindAll filterBinder rfl vs]
  exact Bindings.get?_ofList_zipIdx (fun _ _ => valuePlaceholder_inj) vs key v

namespace ScanCall

variable {passthrough known : List String} {s s' : Scan} {call : ScanCall}

/-- A call that only changes what is read. -/
structure OnlyReads (s s' : Scan) : Prop where
  conditions : s'.conditions = s.conditions
  fragments : s'.fragments = s.fragments
  resolver : s'.resolver = s.resolver
  binder : s'.binder = s.binder

theorem onlyReads (hbrings : call.bringsFragment = false)
    (h : call.apply s = .ok s') : OnlyReads s s' := by
  cases call with
  | condition field operator operand => cases hbrings
  | presence test field => cases hbrings
  | filter expression names values => cases hbrings
  | limitTo limit =>
    obtain ⟨read, -, rfl⟩ := map_eq_ok.1 h
    exact ⟨rfl, rfl, rfl, rfl⟩
  | selectFields paths =>
    obtain ⟨read, -, rfl⟩ := map_eq_ok.1 h
    exact ⟨rfl, rfl, rfl, rfl⟩
  | inParallel total number =>
    obtain ⟨-, rfl⟩ := Scan.inParallel_eq_ok.1 h
    exact ⟨rfl, rfl, rfl, rfl⟩
  | useIndex name | readConsistently consistent | startAfter key =>
    cases h
    exact ⟨rfl, rfl, rfl, rfl⟩

/-- What a call adds to a scan. -/
structure Adds (passthrough known : List String) (s : Scan) (call : ScanCall)
    (s' : Scan) : Prop where
  resolver : s'.resolver =
    { passthrough
      assigned :=
        (call.references.flatMap (ResolverCall.replaced passthrough)).foldl addName known }
  binder : s'.binder = (s.binder.bindAll call.operands).2
  fragments : ∀ later, s'.resolver.assigned <+: later →
    s'.fragments = s.fragments ++ call.fragments { passthrough, assigned := later } s.binder.next
  count : ∀ r first, (call.fragments r first).length = if call.bringsFragment then 1 else 0

/-- A call that only changes what is read adds nothing. -/
theorem Adds.of_read (hresolver : s.resolver = { passthrough, assigned := known })
    (hreferences : call.references = []) (hoperands : call.operands = [])
    (hfragments : ∀ r first, call.fragments r first = []) (hbrings : call.bringsFragment = false)
    (hcall : call.apply s = .ok s') :
    Adds passthrough known s call s' where
  resolver := by rw [hreferences, (onlyReads hbrings hcall).resolver, hresolver]; rfl
  binder := by rw [hoperands, (onlyReads hbrings hcall).binder]; rfl
  fragments := fun _ _ => by
    rw [hfragments, (onlyReads hbrings hcall).fragments, List.append_nil]
  count := fun _ _ => by rw [hfragments, hbrings]; rfl

theorem adds (hresolver : s.resolver = { passthrough, assigned := known })
    (hstem : s.binder.stem = ":value") (hcall : call.apply s = .ok s') :
    Adds passthrough known s call s' := by
  have hpath (field : String) : (s.resolver.path field).2 =
      { passthrough, assigned := (pathNames passthrough field).foldl addName known } := by
    rw [hresolver, (Resolver.path_asks passthrough field).adds]
  have hnames (field : String) :
      [ResolverCall.path field].flatMap (ResolverCall.replaced passthrough) =
      pathNames passthrough field := List.flatMap_singleton _ _
  cases call with
  | condition field operator operand =>
    obtain ⟨-, c, hc, rfl⟩ := Scan.add_eq_ok.1 hcall
    obtain ⟨-, test, htest, rfl⟩ := Condition.of_eq_ok.1 hc
    have hoperands : Condition.operands test = operand.values := by
      rw [Condition.operands_eq, (Test.of_check htest).2]
    refine ⟨?_, ?_, fun later hlater => ?_, fun r first => ?_⟩
    · rw [references, hnames]
      exact hpath field
    · exact congrArg (fun vs => (s.binder.bindAll vs).2) hoperands
    · have hplaceholders := s.binder.bindAll_placeholders hstem (Condition.operands test)
      rw [fragments, htest, (Resolver.path_asks passthrough field).settled hresolver hlater,
        ← hoperands, ← hplaceholders]
      rfl
    · rw [fragments, htest]
      rfl
  | presence test field =>
    obtain ⟨-, -, rfl⟩ := Scan.addPresence_eq_ok.1 hcall
    refine ⟨?_, rfl, fun later hlater => ?_, fun _ _ => rfl⟩
    · rw [references, hnames]
      exact hpath field
    · rw [fragments, (Resolver.path_asks passthrough field).settled hresolver hlater]
  | filter expression names values =>
    obtain ⟨-, text, r, b, hadopt, rfl⟩ := Scan.addFilter_eq_ok.1 hcall
    rw [hresolver] at hadopt
    obtain ⟨hr, hb, -, htext⟩ := adoptFilter_renames hstem hadopt
    refine ⟨hr, hb, fun later hlater => ?_, fun _ _ => rfl⟩
    exact congrArg (fun text => s.fragments ++ [text]) (htext later hlater)
  | useIndex | limitTo | selectFields | readConsistently | startAfter | inParallel =>
    exact .of_read hresolver rfl rfl (fun _ _ => rfl) rfl hcall

end ScanCall

namespace Scan

variable {passthrough : List String} {calls : List ScanCall} {s s' : Scan}

/-- The names, the values and the fragments of a scan are those of its calls. -/
structure Follows (passthrough : List String) (calls : List ScanCall) (s : Scan) : Prop where
  resolver : s.resolver = .after passthrough (calls.flatMap ScanCall.references)
  binder : s.binder = (filterBinder.bindAll (calls.flatMap ScanCall.operands)).2
  fragments : ∀ later, s.resolver.assigned <+: later →
    s.fragments = fragmentsFrom { passthrough, assigned := later } 0 calls
  count : ∀ r, (fragmentsFrom r 0 calls).length = calls.countP ScanCall.bringsFragment

theorem Follows.stem (h : Follows passthrough calls s) : s.binder.stem = ":value" := by
  rw [h.binder, Binder.bindAll_stem]
  rfl

theorem Follows.next (h : Follows passthrough calls s) :
    s.binder.next = (calls.flatMap ScanCall.operands).length := by
  rw [h.binder, Binder.bindAll_next]
  exact Nat.zero_add _

/-- A scan binds each operand of its calls under the number of its place. -/
theorem Follows.get?_values (h : Follows passthrough calls s) (key : String) (v : AttributeValue) :
    s.binder.values.get? key = some v ↔
      ∃ number, key = valuePlaceholder number ∧
        (calls.flatMap ScanCall.operands)[number]? = some v := by
  rw [h.binder]
  exact get?_values_bindAll _ key v

theorem Follows.snoc (h : Follows passthrough calls s) {call : ScanCall}
    (hcall : call.apply s = .ok s') : Follows passthrough (calls ++ [call]) s' := by
  have hresolver := h.resolver
  rw [Resolver.after_eq] at hresolver
  have hadds := ScanCall.adds hresolver h.stem hcall
  have hreferences : (calls ++ [call]).flatMap ScanCall.references =
      calls.flatMap ScanCall.references ++ call.references := by
    rw [List.flatMap_append, List.flatMap_singleton]
  have hsnoc (r : Resolver) : fragmentsFrom r 0 (calls ++ [call]) =
      fragmentsFrom r 0 calls ++ call.fragments r s.binder.next := by
    rw [fragmentsFrom_append, Nat.zero_add, ← h.next]
    exact congrArg _ (List.append_nil _)
  constructor
  case resolver =>
    rw [hadds.resolver, hreferences, Resolver.after_eq, firstUses, firstUses, ← foldl_addName,
      ← foldl_addName, ← List.foldl_append, ← List.flatMap_append]
  case binder =>
    rw [hadds.binder, h.binder, List.flatMap_append, List.flatMap_singleton, Binder.bindAll_append]
  case fragments =>
    intro later hlater
    have hearlier : s.resolver.assigned <+: later := by
      refine List.IsPrefix.trans ?_ hlater
      rw [hadds.resolver, hresolver]
      exact prefix_foldl_addName _ _
    rw [hadds.fragments later hlater, h.fragments later hearlier, hsnoc]
  case count =>
    intro r
    rw [hsnoc, List.length_append, h.count, hadds.count, List.countP_append, List.countP_singleton]

/-- A scan is built call by call. -/
theorem built_append {later : List ScanCall} :
    built passthrough (calls ++ later) = .ok s ↔
      ∃ s₀, built passthrough calls = .ok s₀ ∧ later.foldlM ScanCall.apply s₀ = .ok s := by
  rw [built, List.foldlM_append, bind_eq_ok]
  rfl

/-- Every call of a scan has been accepted. -/
theorem accepted_of_built (h : built passthrough calls = .ok s) {call : ScanCall}
    (hcall : call ∈ calls) : ∃ s₁ s₂, call.apply s₁ = .ok s₂ := by
  obtain ⟨earlier, later, rfl⟩ := List.append_of_mem hcall
  obtain ⟨s₁, -, hlater⟩ := built_append.1 h
  rw [List.foldlM_cons, bind_eq_ok] at hlater
  obtain ⟨s₂, happly, -⟩ := hlater
  exact ⟨s₁, s₂, happly⟩

theorem built_follows (h : built passthrough calls = .ok s) : Follows passthrough calls s := by
  induction calls using List.reverseRecOn generalizing s with
  | nil =>
    cases h
    exact ⟨rfl, rfl, fun _ _ => rfl, fun _ => rfl⟩
  | append_singleton calls call ih =>
    obtain ⟨s₀, hbuilt, hcall⟩ := built_append.1 h
    rw [List.foldlM_cons, bind_eq_ok] at hcall
    obtain ⟨last, hcall, hlast⟩ := hcall
    cases hlast
    exact (ih hbuilt).snoc hcall

theorem plan_filter (s : Scan) :
    s.plan.filter = if s.fragments.isEmpty then none else some (joinFragments s.fragments) := by
  unfold plan
  cases s.read.fields <;> rfl

theorem plan_values (s : Scan) : s.plan.values = s.binder.values := by
  unfold plan
  cases s.read.fields <;> rfl

theorem plan_read (s : Scan) : s.plan.read = s.read := by
  unfold plan
  cases s.read.fields <;> rfl

theorem plan_names_of_fields_eq_none (h : s.plan.read.fields = none) :
    s.plan.names = s.resolver.names := by
  rw [plan_read] at h
  unfold plan
  rw [h]

/-- A projection may add names to those of the fragments. -/
theorem get?_plan_names {key name : String} (h : s.resolver.names.get? key = some name) :
    s.plan.names.get? key = some name := by
  unfold plan
  cases s.read.fields with
  | none => exact h
  | some fields =>
    have hadds := (Resolver.projection_asks s.resolver.passthrough fields).adds s.resolver.assigned
    have hextends : s.resolver.Extends (s.resolver.projection fields).2 := by
      rw [Resolver.Extends, hadds]
      exact prefix_foldl_addName _ _
    exact hextends.get?_names h

theorem built_fragments (h : built passthrough calls = .ok s) : s.fragments =
    fragmentsFrom (.after passthrough (calls.flatMap ScanCall.references)) 0 calls := by
  have hfollows := built_follows h
  rw [hfollows.fragments _ List.prefix_rfl, hfollows.resolver, Resolver.after_eq]

/-- The filter is the fragments of the calls, in their order. -/
theorem built_filter (h : built passthrough calls = .ok s) :
    s.plan.filter =
      if calls.any ScanCall.bringsFragment then
        some (joinFragments
          (fragmentsFrom (.after passthrough (calls.flatMap ScanCall.references)) 0 calls))
      else none := by
  have hempty : s.fragments.isEmpty = !calls.any ScanCall.bringsFragment := by
    rw [Bool.eq_iff_iff, List.isEmpty_iff, ← List.length_eq_zero_iff, built_fragments h,
      (built_follows h).count, List.countP_eq_zero]
    simp
  rw [plan_filter, hempty, built_fragments h]
  cases calls.any ScanCall.bringsFragment <;> rfl

/-- How a scan has numbered the operands of its calls. The filter is the fragments in the order of
the calls with `AND` between them, the keys of the values are the numbers of the operands, every
operand has the number of its place, and what is bound after some of the calls stays bound after all
of them. There is no filter if no call has brought a fragment. -/
structure Numbers (passthrough : List String) (calls : List ScanCall) (s : Scan) : Prop where
  filter : s.plan.filter = if calls.any ScanCall.bringsFragment then
    some (" AND ".intercalate
      (fragmentsFrom (.after passthrough (calls.flatMap ScanCall.references)) 0 calls)) else none
  count : (fragmentsFrom (.after passthrough (calls.flatMap ScanCall.references)) 0 calls).length =
    calls.countP ScanCall.bringsFragment
  keys : ∀ key, key ∈ s.plan.values.keys ↔
    ∃ number < (calls.flatMap ScanCall.operands).length, key = valuePlaceholder number
  values : ∀ number,
    s.plan.values.get? (valuePlaceholder number) = (calls.flatMap ScanCall.operands)[number]?
  stays : ∀ earlier later, calls = earlier ++ later →
    ∃ s₀, built passthrough earlier = .ok s₀ ∧ s₀.fragments <+: s.fragments ∧
      (∀ key v, s₀.plan.values.get? key = some v → s.plan.values.get? key = some v) ∧
      ∀ key name, s₀.resolver.names.get? key = some name → s.plan.names.get? key = some name

/-- **A scan numbers its operands in the order of its calls**, whatever calls have put it
together. -/
theorem built_numbers (h : built passthrough calls = .ok s) : Numbers passthrough calls s := by
  have hfollows := built_follows h
  have hvalues (key : String) (v : AttributeValue) : s.plan.values.get? key = some v ↔
      ∃ number, key = valuePlaceholder number ∧
        (calls.flatMap ScanCall.operands)[number]? = some v := by
    rw [plan_values, hfollows.binder]
    exact get?_values_bindAll _ key v
  constructor
  case filter => rw [built_filter h, joinFragments, Text.joinWith_eq_intercalate]
  case count => exact hfollows.count _
  case keys =>
    intro key
    rw [Bindings.mem_keys_iff]
    constructor
    · rintro ⟨v, hget⟩
      obtain ⟨number, hkey, hplace⟩ := (hvalues key v).1 hget
      obtain ⟨hlt, -⟩ := List.getElem?_eq_some_iff.1 hplace
      exact ⟨number, hlt, hkey⟩
    · rintro ⟨number, hlt, hkey⟩
      exact ⟨_, (hvalues key _).2 ⟨number, hkey, List.getElem?_eq_getElem hlt⟩⟩
  case values =>
    intro number
    ext v
    rw [hvalues]
    constructor
    · rintro ⟨place, hkey, hget⟩
      rwa [valuePlaceholder_inj hkey]
    · intro hget
      exact ⟨number, rfl, hget⟩
  case stays =>
    rintro earlier later rfl
    obtain ⟨s₀, hearlier, -⟩ := built_append.1 h
    have hfollows₀ := built_follows hearlier
    have hextends : s₀.resolver.Extends s.resolver := by
      rw [hfollows₀.resolver, hfollows.resolver, List.flatMap_append]
      exact Resolver.after_extends _ _ _
    refine ⟨s₀, hearlier, ?_, fun key v hget => ?_, fun key name hname => ?_⟩
    · rw [hfollows₀.fragments _ hextends, hfollows.fragments _ List.prefix_rfl,
        fragmentsFrom_append]
      exact List.prefix_append _ _
    · rw [plan_values, hfollows₀.binder, get?_values_bindAll] at hget
      obtain ⟨number, hkey, hplace⟩ := hget
      obtain ⟨hlt, -⟩ := List.getElem?_eq_some_iff.1 hplace
      refine (hvalues key v).2 ⟨number, hkey, ?_⟩
      rw [List.flatMap_append, List.getElem?_append_left hlt, hplace]
    · exact get?_plan_names (hextends.get?_names hname)

end Scan

end ItemTable.Expression

namespace ItemTable

open Expression

theorem crowdedScanCalls_numbers :
    ∃ s, Scan.built ["status"] crowdedScanCalls = .ok s ∧
      crowdedScanCalls.flatMap ScanCall.operands =
        [.number "1", .number "2.5", .text "a", .number "3", .text "b"] ∧
      s.plan.filter = some
        ("#n0 BETWEEN :value0 AND :value1 AND " ++
          "(NOT#n1=:value2 OR(status<:value3 AND:value2<>#n0)) AND " ++
          "attribute_not_exists(#n2) AND (age#n0 :value4)") ∧
      s.plan.values.keys = [":value0", ":value1", ":value2", ":value3", ":value4"] ∧
      Scan.Numbers ["status"] crowdedScanCalls s := by
  have hoperands : crowdedScanCalls.flatMap ScanCall.operands =
      [.number "1", .number "2.5", .text "a", .number "3", .text "b"] := by decide +kernel
  have hplan : ((Scan.built ["status"] crowdedScanCalls).toOption.map fun s =>
      (s.plan.filter, s.plan.values.keys)) =
      some (some ("#n0 BETWEEN :value0 AND :value1 AND " ++
          "(NOT#n1=:value2 OR(status<:value3 AND:value2<>#n0)) AND " ++
          "attribute_not_exists(#n2) AND (age#n0 :value4)"),
        [":value0", ":value1", ":value2", ":value3", ":value4"]) := by decide +kernel
  obtain ⟨s, hcalls, hplan⟩ := toOption_map_eq_some.1 hplan
  obtain ⟨hfilter, hkeys⟩ := Prod.mk.inj hplan
  exact ⟨s, hcalls, hoperands, hfilter, hkeys, Scan.built_numbers hcalls⟩

end ItemTable
