import ItemTable.Proofs.Expression.AcceptedCalls
import ItemTable.Proofs.Expression.Reference

/-!
# Queries as they are put together

A query is what a list of accepted calls makes of an empty one (`Query.built`). Every field and
every path in it has passed its check at the call that brought it in: `built_isChecked`.
-/
namespace ItemTable.Expression

/-- What may be asked of a query under construction. -/
inductive QueryCall where
  | condition (field : String) (operator : Operator) (operand : Operand)
  | useIndex (name : String)
  | limitTo (limit : Nat)
  | selectFields (paths : List String)
  | readForward (forward : Bool)
  | readConsistently (consistent : Bool)
  | startAfter (key : Item)
  | leaveAlone (names : List String)

/-- The query after a call, if the call is accepted. -/
def QueryCall.apply (q : Query) : QueryCall → Except Error Query
  | condition field operator operand => q.add field operator operand
  | useIndex name => .ok { q with read := { q.read with index := some name } }
  | limitTo limit => (fun read => { q with read }) <$> q.read.withLimit limit
  | selectFields paths => (fun read => { q with read }) <$> q.read.selectFields paths
  | readForward forward => .ok { q with forward := some forward }
  | readConsistently consistent =>
    .ok { q with read := { q.read with consistent := some consistent } }
  | startAfter key => .ok { q with read := { q.read with startKey := some key } }
  | leaveAlone names => .ok { q with passthrough := names }

/-- The query that calls make, if all of them are accepted. -/
def Query.built (calls : List QueryCall) : Except Error Query :=
  calls.foldlM QueryCall.apply {}

/-- The paths to return have passed their checks. -/
def ReadOptions.IsChecked (o : ReadOptions) : Prop :=
  ∀ fields, o.fields = some fields → ∀ path ∈ fields, checkPath path = .ok ()

theorem ReadOptions.IsChecked.withLimit {o o' : ReadOptions} (h : o.IsChecked) {limit : Nat}
    (hlimit : o.withLimit limit = .ok o') : o'.IsChecked := by
  obtain ⟨⟨⟩, -, hlimit⟩ := bind_eq_ok.1 hlimit
  cases hlimit
  exact h

theorem ReadOptions.isChecked_of_selectFields {o o' : ReadOptions} {fields : List String}
    (h : o.selectFields fields = .ok o') : o'.IsChecked := by
  obtain ⟨⟨⟩, hpaths, h⟩ := bind_eq_ok.1 h
  cases h
  intro selected hselected path hpath
  have hall := forM_eq_ok.1 hpaths
  split at hselected
  · cases hselected
  · cases hselected
    exact hall path hpath

/-- Fields and paths that have passed their checks. -/
structure Query.IsChecked (q : Query) : Prop where
  fields : ∀ c ∈ q.conditions, checkFieldName c.field = .ok ()
  paths : ∀ fields, q.read.fields = some fields → ∀ path ∈ fields, checkPath path = .ok ()

theorem Condition.checked_of {field : String} {operator : Operator} {operand : Operand}
    {c : Condition} (h : Condition.of field operator operand = .ok c) :
    checkFieldName c.field = .ok () := by
  obtain ⟨hfield, test, -, rfl⟩ := of_eq_ok.1 h
  exact hfield

/-- Every accepted call keeps a query checked. -/
theorem Query.IsChecked.apply {q q' : Query} (h : q.IsChecked) {call : QueryCall}
    (hcall : call.apply q = .ok q') : q'.IsChecked := by
  cases call with
  | condition field operator operand =>
    obtain ⟨-, c, hc, rfl⟩ := Query.add_eq_ok.1 hcall
    refine ⟨fun d hd => ?_, h.paths⟩
    rcases List.mem_append.1 hd with hold | hnew
    · exact h.fields d hold
    · rw [List.mem_singleton.1 hnew]
      exact Condition.checked_of hc
  | limitTo limit =>
    obtain ⟨read, hread, rfl⟩ := map_eq_ok.1 hcall
    have hchecked : q.read.IsChecked := h.paths
    exact ⟨h.fields, hchecked.withLimit hread⟩
  | selectFields paths =>
    obtain ⟨read, hread, rfl⟩ := map_eq_ok.1 hcall
    exact ⟨h.fields, ReadOptions.isChecked_of_selectFields hread⟩
  | useIndex name | readForward forward | readConsistently consistent | startAfter key
  | leaveAlone names =>
    cases hcall
    exact ⟨h.fields, h.paths⟩

/-- Whatever the calls are, the query that they make is checked. -/
theorem Query.built_isChecked {calls : List QueryCall} {q : Query} (h : built calls = .ok q) :
    q.IsChecked := by
  have hempty : IsChecked {} := ⟨fun c hc => absurd hc List.not_mem_nil, fun fields h => by cases h⟩
  exact foldlM_keeps (P := IsChecked) (fun _ _ _ _ hq hcall => hq.apply hcall) hempty h

theorem hasNoSign_of_checkFieldName {field : String} (h : checkFieldName field = .ok ()) :
    HasNoSign field.toList := by
  unfold checkFieldName at h
  split at h
  · next hok =>
    rw [Bool.and_eq_true, List.all_eq_true] at hok
    exact hasNoSign_of_isWord hok.2
  · cases h

theorem not_mem_of_checkPath {path : String} (h : checkPath path = .ok ()) {sign : Char}
    (hsign : isGrammarSign sign = true) (hne : sign ≠ '.') : sign ∉ path.toList := by
  unfold checkPath at h
  split at h
  · next hok =>
    intro hmem
    obtain ⟨part, hpart, hmem⟩ := Text.exists_mem_splitAt hne hmem
    have husable := List.all_eq_true.1 hok part hpart
    simp only [isUsableSegment, Bool.and_eq_true, Bool.not_eq_true', List.any_eq_false] at husable
    exact husable.2 sign hmem (by rw [hsign, Bool.true_or])
  · cases h

theorem hasNoSign_of_checkPath {path : String} (h : checkPath path = .ok ()) :
    HasNoSign path.toList := by
  rintro c hc (rfl | rfl)
  · exact not_mem_of_checkPath h (by decide) (by decide) hc
  · exact not_mem_of_checkPath h (by decide) (by decide) hc

end ItemTable.Expression
