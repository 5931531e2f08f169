import ItemTable.Proofs.Expression.AdoptedFilter
import ItemTable.Proofs.Expression.QueryCalls

/-!
# Requests of scans are closed

A scan compiles each fragment when it is added, and its bindings are those of all fragments together
(`Scan.IsBalanced`). Every call keeps that balance, except that a filter written by hand has to keep
its names apart. Then the request binds exactly what its filter and its projection refer to:
`Scan.closed_of_keepsApart`. Without it a reference gets lost: `fusedFilter_not_closed`.
-/
namespace ItemTable.Expression

/-- What may be asked of a scan under construction. -/
inductive ScanCall where
  | condition (field : String) (operator : Operator) (operand : Operand)
  | presence (test : Presence) (field : String)
  | filter (expression : String) (names : List (String × String))
    (values : List (String × AttributeValue))
  | useIndex (name : String)
  | limitTo (limit : Nat)
  | selectFields (paths : List String)
  | readConsistently (consistent : Bool)
  | startAfter (key : Item)
  | inParallel (total number : Nat)

/-- The scan after a call, if the call is accepted. -/
def ScanCall.apply (s : Scan) : ScanCall → Except Error Scan
  | condition field operator operand => s.add field operator operand
  | presence test field => s.addPresence test field
  | filter expression names values => s.addFilter expression names values
  | useIndex name => .ok { s with read := { s.read with index := some name } }
  | limitTo limit => (fun read => { s with read }) <$> s.read.withLimit limit
  | selectFields paths => (fun read => { s with read }) <$> s.read.selectFields paths
  | readConsistently consistent =>
    .ok { s with read := { s.read with consistent := some consistent } }
  | startAfter key => .ok { s with read := { s.read with startKey := some key } }
  | inParallel total number => s.inParallel total number

/-- The scan that calls make, if all of them are accepted, with names that are never replaced. -/
def Scan.built (passthrough : List String) (calls : List ScanCall) : Except Error Scan :=
  calls.foldlM ScanCall.apply { resolver := { passthrough } }

/-- Every accepted call keeps the paths to return checked. -/
theorem ScanCall.isChecked_of_apply {s s' : Scan} {call : ScanCall} (h : s.read.IsChecked)
    (hcall : call.apply s = .ok s') : s'.read.IsChecked := by
  cases call with
  | condition field operator operand =>
    obtain ⟨-, c, -, rfl⟩ := Scan.add_eq_ok.1 hcall
    exact h
  | presence test field =>
    obtain ⟨-, -, rfl⟩ := Scan.addPresence_eq_ok.1 hcall
    exact h
  | filter expression names values =>
    obtain ⟨-, text, r, b, -, rfl⟩ := Scan.addFilter_eq_ok.1 hcall
    exact h
  | limitTo limit =>
    obtain ⟨read, hread, rfl⟩ := map_eq_ok.1 hcall
    exact h.withLimit hread
  | selectFields paths =>
    obtain ⟨read, hread, rfl⟩ := map_eq_ok.1 hcall
    exact ReadOptions.isChecked_of_selectFields hread
  | inParallel total number =>
    obtain ⟨-, rfl⟩ := Scan.inParallel_eq_ok.1 hcall
    exact h
  | useIndex name | readConsistently consistent | startAfter key =>
    cases hcall
    exact h

theorem Scan.built_isChecked {passthrough : List String} {calls : List ScanCall} {s : Scan}
    (h : built passthrough calls = .ok s) : s.read.IsChecked :=
  foldlM_keeps (P := fun s => s.read.IsChecked)
    (fun _ _ _ _ hs hcall => ScanCall.isChecked_of_apply hs hcall)
    (fun fields hfields => by cases hfields) h

/-- The filter that a call brings, if it brings one, keeps its names apart. -/
def ScanCall.KeepsApart (passthrough : List String) : ScanCall → Prop
  | filter expression names _ => ∀ supplied, suppliedNames .empty names = .ok supplied →
    Expression.KeepsApart passthrough supplied (tokensOf expression)
  | _ => True

instance (passthrough : List String) (call : ScanCall) : Decidable (call.KeepsApart passthrough) :=
  match call with
  | .filter _ names _ =>
    match h : suppliedNames .empty names with
    | .ok supplied =>
      decidable_of_iff (Expression.KeepsApart passthrough supplied _)
        ⟨fun hapart _ hother => by cases h.symm.trans hother; exact hapart,
          fun hall => hall supplied h⟩
    | .error _ => isTrue fun _ hother => by cases h.symm.trans hother
  | .condition .. | .presence .. | .useIndex _ | .limitTo _ | .selectFields _ | .readConsistently _
  | .startAfter _ | .inParallel .. => isTrue trivial

/-- The names and the values of a scan are those that its fragments refer to, and its paths have
passed their checks. -/
structure Scan.IsBalanced (passthrough : List String) (s : Scan) : Prop where
  fragments : Accounts { passthrough } filterBinder s.fragments s.resolver s.binder
  paths : s.read.IsChecked

namespace Scan.IsBalanced

variable {passthrough : List String} {s s' : Scan}

theorem stem (h : s.IsBalanced passthrough) : Binder.IsStem s.binder.stem := by
  rw [h.fragments.stem]
  decide

/-- A fragment that accounts for what it adds keeps the balance. -/
theorem addFragment (h : s.IsBalanced passthrough) {text : String}
    (hnew : Accounts s.resolver s.binder [text] s'.resolver s'.binder)
    (hfragments : s'.fragments = s.fragments ++ [text]) (hread : s'.read = s.read) :
    s'.IsBalanced passthrough where
  fragments := hfragments ▸ h.fragments.append hnew
  paths := hread ▸ h.paths

/-- Other paths keep the balance if they have passed their checks. -/
theorem withRead (h : s.IsBalanced passthrough) {read : ReadOptions} (hread : read.IsChecked) :
    IsBalanced passthrough { s with read } := ⟨h.fragments, hread⟩

theorem add (h : s.IsBalanced passthrough) {field : String} {operator : Operator}
    {operand : Operand} (hadd : s.add field operator operand = .ok s') :
    s'.IsBalanced passthrough := by
  obtain ⟨-, c, hc, rfl⟩ := Scan.add_eq_ok.1 hadd
  have hfield := hasNoSign_of_checkFieldName (Condition.checked_of hc)
  exact h.addFragment (c.render_accounts s.resolver hfield h.stem) rfl rfl

theorem addPresence (h : s.IsBalanced passthrough) {presence : Presence} {field : String}
    (hadd : s.addPresence presence field = .ok s') : s'.IsBalanced passthrough := by
  obtain ⟨-, hfield, rfl⟩ := Scan.addPresence_eq_ok.1 hadd
  have hnew := presence.accounts s.resolver s.binder (hasNoSign_of_checkFieldName hfield)
  exact h.addFragment hnew rfl rfl

theorem addFilter (h : s.IsBalanced passthrough) {expression : String}
    {names : List (String × String)} {values : List (String × AttributeValue)}
    (hapart : (ScanCall.filter expression names values).KeepsApart passthrough)
    (hadd : s.addFilter expression names values = .ok s') : s'.IsBalanced passthrough := by
  obtain ⟨-, text, r, b, hadopt, rfl⟩ := Scan.addFilter_eq_ok.1 hadd
  have hsame : s.resolver.passthrough = passthrough := h.fragments.passthrough
  have hnew := adoptFilter_accounts h.stem (hsame.symm ▸ hapart) hadopt
  exact h.addFragment hnew rfl rfl

theorem inParallel (h : s.IsBalanced passthrough) {total number : Nat}
    (hparallel : s.inParallel total number = .ok s') : s'.IsBalanced passthrough := by
  obtain ⟨-, rfl⟩ := Scan.inParallel_eq_ok.1 hparallel
  exact ⟨h.fragments, h.paths⟩

/-- Every accepted call keeps the balance, if a filter in it keeps apart. -/
theorem apply (h : s.IsBalanced passthrough) {call : ScanCall}
    (hapart : call.KeepsApart passthrough) (hcall : call.apply s = .ok s') :
    s'.IsBalanced passthrough := by
  have hpaths := ScanCall.isChecked_of_apply h.paths hcall
  cases call with
  | condition field operator operand => exact h.add hcall
  | presence test field => exact h.addPresence hcall
  | filter expression names values => exact h.addFilter hapart hcall
  | limitTo limit =>
    obtain ⟨read, -, rfl⟩ := map_eq_ok.1 hcall
    exact h.withRead hpaths
  | selectFields paths =>
    obtain ⟨read, -, rfl⟩ := map_eq_ok.1 hcall
    exact h.withRead hpaths
  | inParallel total number => exact h.inParallel hcall
  | useIndex name | readConsistently consistent | startAfter key =>
    cases hcall
    exact ⟨h.fragments, h.paths⟩

end Scan.IsBalanced

/-- Whatever the calls are, the scan that they make is balanced, if the filters in them keep
apart. -/
theorem Scan.built_isBalanced {passthrough : List String} {calls : List ScanCall} {s : Scan}
    (h : built passthrough calls = .ok s) (hapart : ∀ call ∈ calls, call.KeepsApart passthrough) :
    s.IsBalanced passthrough := by
  have hempty : IsBalanced passthrough { resolver := { passthrough } } :=
    ⟨.nil _ _, fun fields hfields => by cases hfields⟩
  exact foldlM_keeps (P := IsBalanced passthrough)
    (fun call hcall _ _ hs happly => hs.apply (hapart call hcall) happly) hempty h

/-- The expression texts of a plan. -/
def ScanPlan.texts (p : ScanPlan) : List String := p.filter.toList ++ p.projection.toList

theorem Accounts.joined {r r' : Resolver} {b b' : Binder} {fragments : List String}
    (h : Accounts r b fragments r' b') :
    Accounts r b (if fragments.isEmpty then none else some (joinFragments fragments)).toList
      r' b' := by
  cases fragments with
  | nil => exact h
  | cons first rest => exact h.join fun _ hsign => refs_joinWith hsign (by decide) _

/-- A plan of a balanced scan binds what its texts refer to. -/
theorem Scan.IsBalanced.plan {passthrough : List String} {s : Scan} (h : s.IsBalanced passthrough) :
    BindsExactly s.plan.texts s.plan.names s.plan.values := by
  have hfilter := h.fragments.joined
  unfold Scan.plan ScanPlan.texts
  cases hfields : s.read.fields with
  | none =>
    rw [Option.toList_none, List.append_nil]
    exact hfilter.bindsExactly
  | some fields =>
    have hpaths (path : String) (hpath : path ∈ fields) : HasNoSign path.toList :=
      hasNoSign_of_checkPath (h.paths fields hfields path hpath)
    exact (hfilter.append (s.resolver.projection_accounts s.binder hpaths)).bindsExactly

end ItemTable.Expression

namespace ItemTable

open Expression

namespace ScanRequest

/-- The expression texts of a request. -/
def texts (s : ScanRequest) : List String := s.filter.toList ++ s.projection.toList

/-- A request binds what its texts refer to, and nothing else. -/
def Closed (s : ScanRequest) : Prop := BindsExactly s.texts s.names s.values

end ScanRequest

/-- **The request of a scan binds exactly what its texts refer to**, whatever calls have put the
scan together, as long as no placeholder of a name that is written bare stands directly behind a
sign or a reference. -/
theorem Expression.Scan.closed_of_keepsApart {passthrough : List String} {calls : List ScanCall}
    {s : Scan} (hcalls : Scan.built passthrough calls = .ok s)
    (hapart : ∀ call ∈ calls, call.KeepsApart passthrough) (table : String) :
    BindsExactly s.plan.texts s.plan.names s.plan.values ∧ (s.plan.request table).Closed := by
  have hplan := (Scan.built_isBalanced hcalls hapart).plan
  exact ⟨hplan, hplan⟩

/-- Calls with names in several fragments and in the projection, next to filters that keep just
apart. -/
def crowdedScanCalls : List ScanCall :=
  [.condition "name" .between (.range (.number "1") (.number "2.5")),
    .filter "NOT#x=:v OR(#y<:w AND:v<>name)" [("x", "order-id"), ("#y", "status")]
      [("v", .text "a"), (":w", .number "3")],
    .presence .absent "value",
    .filter "#x#y :v" [("#x", "age"), ("#y", "name")] [(":v", .text "b")],
    .selectFields ["order-id[0].status", "name"]]

theorem crowdedScanCalls_request_closed :
    (∀ call ∈ crowdedScanCalls, call.KeepsApart ["status"]) ∧
    ∃ s, Scan.built ["status"] crowdedScanCalls = .ok s ∧
      s.plan.texts =
        ["#n0 BETWEEN :value0 AND :value1 AND " ++
          "(NOT#n1=:value2 OR(status<:value3 AND:value2<>#n0)) AND " ++
          "attribute_not_exists(#n2) AND (age#n0 :value4)", "#n1[0].status, #n0"] ∧
      BindsExactly s.plan.texts s.plan.names s.plan.values ∧ (s.plan.request "orders").Closed := by
  have hapart : ∀ call ∈ crowdedScanCalls, call.KeepsApart ["status"] := by decide +kernel
  have htexts : ((Scan.built ["status"] crowdedScanCalls).toOption.map fun s => s.plan.texts) =
      some ["#n0 BETWEEN :value0 AND :value1 AND " ++
        "(NOT#n1=:value2 OR(status<:value3 AND:value2<>#n0)) AND " ++
        "attribute_not_exists(#n2) AND (age#n0 :value4)", "#n1[0].status, #n0"] := by
    decide +kernel
  cases hcalls : Scan.built ["status"] crowdedScanCalls with
  | error e =>
    rw [hcalls] at htexts
    cases htexts
  | ok s =>
    rw [hcalls] at htexts
    exact ⟨hapart, s, rfl, Option.some.inj htexts, Scan.closed_of_keepsApart hcalls hapart "orders"⟩

/-- A bare word lengthens the placeholder in front of it, and then nothing is bound to what it has
become. -/
theorem fusedFilter_not_closed :
    ∃ s, Scan.built [] [.filter "#a#b" [("#a", "name"), ("#b", "age")] []] = .ok s ∧
      s.plan.texts = ["(#n0age)"] ∧ nameRefs "(#n0age)" = ["#n0age"] ∧ s.plan.names.keys = ["#n0"] ∧
      ¬BindsExactly s.plan.texts s.plan.names s.plan.values := by
  have hplan : ((Scan.built [] [.filter "#a#b" [("#a", "name"), ("#b", "age")] []]).toOption.map
      fun s => (s.plan.texts, s.plan.names.keys)) = some (["(#n0age)"], ["#n0"]) := by
    decide +kernel
  have hrefs : nameRefs "(#n0age)" = ["#n0age"] := by decide +kernel
  cases hcalls : Scan.built [] [.filter "#a#b" [("#a", "name"), ("#b", "age")] []] with
  | error e =>
    rw [hcalls] at hplan
    cases hplan
  | ok s =>
    rw [hcalls] at hplan
    obtain ⟨htexts, hkeys⟩ := Prod.mk.inj (Option.some.inj hplan)
    refine ⟨s, rfl, htexts, hrefs, hkeys, fun hexact => ?_⟩
    have hbound := (hexact.names "#n0age").2 ⟨"(#n0age)", by simp [htexts], by simp [hrefs]⟩
    rw [hkeys] at hbound
    exact absurd hbound (by decide)

end ItemTable
