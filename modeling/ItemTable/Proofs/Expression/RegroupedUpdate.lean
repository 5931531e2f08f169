import ItemTable.Proofs.Expression.Simulation
import ItemTable.Proofs.Expression.UpdateMeaning

/-!
# Updates in another order

Updates are written clause by clause, so that only their order inside a clause counts: two updates
whose clauses record the same compile to the same plan or are both refused
(`Update.plan_regrouped`). Whether a field is repeated does not depend on the order at all, and of
the names that are left alone it only counts which they are.
-/
namespace ItemTable.Expression

/-- Resolvers with the same placeholders that leave the same names alone. -/
structure Resolver.Alike (r r' : Resolver) : Prop where
  assigned : r'.assigned = r.assigned
  passthrough : ∀ name, name ∈ r'.passthrough ↔ name ∈ r.passthrough

namespace Resolver

variable {r r' : Resolver}

theorem Alike.names (h : r.Alike r') : r'.names = r.names := by
  rw [Resolver.names, h.assigned, Resolver.names]

theorem isSimulation_alike : IsSimulation Alike where
  isLeft := fun {r r'} h name => by
    have hcontains : r'.passthrough.contains name = r.passthrough.contains name := by
      rw [Bool.eq_iff_iff, List.contains_iff_mem, List.contains_iff_mem, h.passthrough]
    rw [Expression.isLeft, hcontains, Expression.isLeft]
  placeholder := fun {r r'} h name => by
    rw [placeholder_def, placeholder_def, h.assigned]
    split
    · exact ⟨rfl, h⟩
    · exact ⟨rfl, rfl, h.passthrough⟩

end Resolver

section Regrouped

variable {r r' : Resolver}

/-- Alike resolvers write updates alike. -/
theorem renderUpdates_alike (h : r.Alike r') (b : Binder) (us : List FieldUpdate) :
    (renderUpdates r' b us).1 = (renderUpdates r b us).1 ∧
      (renderUpdates r b us).2.1.Alike (renderUpdates r' b us).2.1 ∧
      (renderUpdates r' b us).2.2 = (renderUpdates r b us).2.2 := by
  induction us generalizing r r' b with
  | nil => exact ⟨rfl, h, rfl⟩
  | cons u rest ih =>
    obtain ⟨hname, hnext⟩ := Resolver.isSimulation_alike.path h u.field
    obtain ⟨htexts, hlast, hbinder⟩ := ih hnext (u.action.render (r.path u.field).1 b).2
    simp only [renderUpdates, hname, htexts, hbinder, hlast, and_self]

/-- What is written for clauses only depends on the updates of each of them. -/
theorem renderClauses_alike {updates updates' : List FieldUpdate}
    (hclauses : ∀ clause, updates'.filter (·.action.clause = clause) =
      updates.filter (·.action.clause = clause))
    (h : r.Alike r') (b : Binder) (clauses : List Clause) :
    (renderClauses updates' r' b clauses).1 = (renderClauses updates r b clauses).1 ∧
      (renderClauses updates r b clauses).2.1.Alike (renderClauses updates' r' b clauses).2.1 ∧
      (renderClauses updates' r' b clauses).2.2 = (renderClauses updates r b clauses).2.2 := by
  induction clauses generalizing r r' b with
  | nil => exact ⟨rfl, h, rfl⟩
  | cons clause rest ih =>
    obtain ⟨htexts, hnext, hbinder⟩ :=
      renderUpdates_alike h b (updates.filter (·.action.clause = clause))
    obtain ⟨hothers, hlast, hbinder'⟩ :=
      ih hnext (renderUpdates r b (updates.filter (·.action.clause = clause))).2.2
    simp only [renderClauses, hclauses, htexts, hbinder, hothers, hbinder', hlast, and_self]

/-- Updates with the same clauses are the same updates in some order. -/
theorem perm_of_clauses {updates updates' : List FieldUpdate}
    (hclauses : ∀ clause, updates'.filter (·.action.clause = clause) =
      updates.filter (·.action.clause = clause)) : updates'.Perm updates := by
  rw [List.perm_iff_count]
  intro u
  have hcount := congrArg (List.count u) (hclauses u.action.clause)
  rwa [List.count_filter (by simp), List.count_filter (by simp)] at hcount

end Regrouped

namespace Update

/-- **The order of updates counts only inside their clauses.** Updates that leave the same names
alone and record the same in every clause compile to the same plan, with the same placeholders for
the same names and values, or none of them compiles, and then for the same reason. -/
theorem plan_regrouped {u u' : Update}
    (hpassthrough : ∀ name, name ∈ u'.passthrough ↔ name ∈ u.passthrough)
    (hclauses : ∀ clause, u'.updates.filter (·.action.clause = clause) =
      u.updates.filter (·.action.clause = clause)) :
    (∀ plan, u'.plan = .ok plan ↔ u.plan = .ok plan) ∧
      (u'.plan = .error .noUpdates ↔ u.plan = .error .noUpdates) ∧
      ((∃ field, u'.plan = .error (.overlappingUpdate field)) ↔
        ∃ field, u.plan = .error (.overlappingUpdate field)) := by
  have hperm := perm_of_clauses hclauses
  have hempty : u'.updates = [] ↔ u.updates = [] := by
    rw [← List.length_eq_zero_iff, ← List.length_eq_zero_iff, hperm.length_eq]
  have hnodup := (hperm.map FieldUpdate.field).nodup_iff
  have halike : Resolver.Alike { passthrough := u.passthrough } { passthrough := u'.passthrough } :=
    ⟨rfl, hpassthrough⟩
  obtain ⟨htexts, hresolver, hbinder⟩ := renderClauses_alike hclauses halike updateBinder Clause.all
  refine ⟨fun plan => ?_, ?_, ?_⟩
  · rw [plan_eq_ok_iff, plan_eq_ok_iff, ne_eq, hempty, hnodup, clauses, htexts, hresolver.names,
      hbinder, clauses]
  · rw [plan_eq_noUpdates_iff, plan_eq_noUpdates_iff, hempty]
  · rw [exists_overlappingUpdate_iff, exists_overlappingUpdate_iff, hnodup]

end Update

/-- The updates of `mixedUpdateCalls` with other clauses between them, and with the name that is
left alone given twice. -/
def regroupedUpdateCalls : List UpdateCall :=
  [.delete "tags" (.textSet ["u"]), .increment "age" (.number "2"),
    .append "name" (.list [.text "a", .number "1"]), .decrement "total" (.number "+1.5"),
    .set "status" (.text "x"), .leaveAlone ["value", "value"], .prepend "log" (.text "z"),
    .remove "value"]

theorem mixedUpdateCalls_regrouped :
    ∃ u u' plan, Update.built mixedUpdateCalls = .ok u ∧
      Update.built regroupedUpdateCalls = .ok u' ∧
      u'.updates ≠ u.updates ∧
      (∀ name, name ∈ u'.passthrough ↔ name ∈ u.passthrough) ∧
      (∀ clause, u'.updates.filter (·.action.clause = clause) =
        u.updates.filter (·.action.clause = clause)) ∧
      u.plan = .ok plan ∧ u'.plan = .ok plan ∧
      plan.scope.names.toList =
        [("#n0", "name"), ("#n1", "status"), ("#n2", "log"), ("#n3", "total")] := by
  obtain ⟨u, hbuilt, hview⟩ : ∃ u, Update.built mixedUpdateCalls = .ok u ∧
      (u.plan.toOption.map fun plan => plan.scope.names.toList) =
        some [("#n0", "name"), ("#n1", "status"), ("#n2", "log"), ("#n3", "total")] :=
    ⟨_, rfl, by decide +kernel⟩
  obtain ⟨u', hbuilt', hdiffer, hpassthrough, hclauses⟩ :
      ∃ u', Update.built regroupedUpdateCalls = .ok u' ∧ u'.updates ≠ u.updates ∧
        (∀ name, name ∈ u'.passthrough ↔ name ∈ u.passthrough) ∧
        ∀ clause, u'.updates.filter (·.action.clause = clause) =
          u.updates.filter (·.action.clause = clause) := by
    cases hbuilt
    exact ⟨_, rfl, by decide, by simp, fun clause => by cases clause <;> decide⟩
  obtain ⟨plan, hplan, hnames⟩ := toOption_map_eq_some.1 hview
  obtain ⟨hplans, -, -⟩ := Update.plan_regrouped hpassthrough hclauses
  exact ⟨u, u', plan, hbuilt, hbuilt', hdiffer, hpassthrough, hclauses, hplan,
    (hplans plan).2 hplan, hnames⟩

end ItemTable.Expression
