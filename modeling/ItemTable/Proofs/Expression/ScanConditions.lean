import ItemTable.Proofs.Expression.QueryMeaning
import ItemTable.Proofs.Expression.ScanNumbering

/-!
# Scans of conditions

A scan keeps its conditions beside their fragments. A scan whose fragments are all conditions holds
what rendering its conditions one after another makes (`Scan.rendered_built`), and a list of
conditions of which each is accepted by itself makes a scan as long as there is room
(`Scan.built_of_accepted`). The same is said of queries, which render later:
`Query.foldlM_of_accepted`.
-/
namespace ItemTable.Expression

/-- Conditions with the same field, operator and operand are the same. -/
theorem Condition.asked_inj {c d : Condition} : c.asked = d.asked ↔ c = d := by
  refine ⟨fun h => ?_, congrArg asked⟩
  obtain ⟨field, test⟩ := c
  obtain ⟨field', test'⟩ := d
  simp only [asked, Prod.mk.injEq] at h
  obtain ⟨rfl, hoperator, hoperand⟩ := h
  cases test <;> cases test' <;> cases hoperator <;> cases hoperand <;> rfl

theorem Condition.map_asked_inj {cs ds : List Condition} :
    cs.map asked = ds.map asked ↔ cs = ds :=
  List.map_inj_right fun _ _ => asked_inj.1

/-- A condition may be asked for. -/
def Accepted (asked : String × Operator × Operand) : Prop :=
  ∃ c, Condition.of asked.1 asked.2.1 asked.2.2 = .ok c

namespace Condition

theorem renderAll_snoc (r : Resolver) (b : Binder) (cs : List Condition) (c : Condition) :
    renderAll r b (cs ++ [c]) =
      ((renderAll r b cs).1 ++ [(c.render (renderAll r b cs).2.1 (renderAll r b cs).2.2).1],
        (c.render (renderAll r b cs).2.1 (renderAll r b cs).2.2).2) := by
  induction cs generalizing r b with
  | nil => rfl
  | cons first rest ih =>
    simp only [List.cons_append, renderAll, ih]

/-- What conditions bind does not depend on how their fields are written. -/
theorem renderAll_binder (r : Resolver) (b : Binder) (cs : List Condition) :
    (renderAll r b cs).2.2 = (b.bindAll (cs.flatMap fun c => operands c.test)).2 := by
  induction cs generalizing r b with
  | nil => rfl
  | cons c rest ih =>
    rw [List.flatMap_cons, Binder.bindAll_append]
    exact ih _ _

end Condition

theorem compileFilter_of_ne_nil {cs : List Condition} (hne : cs ≠ []) (r : Resolver) :
    (compileFilter cs r).1 =
      some (.ofResolver (joinFragments (Condition.renderAll r filterBinder cs).1)
        (Condition.renderAll r filterBinder cs).2.1
        (Condition.renderAll r filterBinder cs).2.2.values) := by
  rw [compileFilter, if_neg (by rwa [List.isEmpty_iff])]

namespace ScanCall

/-- The condition that a call asks for, if it asks for one. -/
def asked? : ScanCall → Option (String × Operator × Operand)
  | condition field operator operand => some (field, operator, operand)
  | presence .. | filter .. | useIndex _ | limitTo _ | selectFields _ | readConsistently _
  | startAfter _ | inParallel .. => none

theorem asked_apply {s s' : Scan} {call : ScanCall} (h : call.apply s = .ok s') :
    s'.conditions.map Condition.asked = s.conditions.map Condition.asked ++ call.asked?.toList := by
  have hread (hbrings : call.bringsFragment = false) (hnone : call.asked? = none) :
      s'.conditions.map Condition.asked =
        s.conditions.map Condition.asked ++ call.asked?.toList := by
    rw [(onlyReads hbrings h).conditions, hnone]
    exact (List.append_nil _).symm
  cases call with
  | condition field operator operand =>
    obtain ⟨-, c, hc, rfl⟩ := Scan.add_eq_ok.1 h
    rw [List.map_append, List.map_singleton, Condition.asked_of hc]
    rfl
  | presence test field =>
    obtain ⟨-, -, rfl⟩ := Scan.addPresence_eq_ok.1 h
    exact (List.append_nil _).symm
  | filter expression names values =>
    obtain ⟨-, text, r, b, -, rfl⟩ := Scan.addFilter_eq_ok.1 h
    exact (List.append_nil _).symm
  | useIndex _ | limitTo _ | selectFields _ | readConsistently _ | startAfter _ | inParallel _ _ =>
    exact hread rfl rfl

end ScanCall

namespace Scan

variable {passthrough : List String} {calls : List ScanCall} {s s' : Scan}

/-- The conditions of a scan are those that its calls have asked for. -/
theorem asked_built (h : built passthrough calls = .ok s) :
    s.conditions.map Condition.asked = calls.filterMap ScanCall.asked? :=
  foldlM_collects (fun s : Scan => s.conditions.map Condition.asked) ScanCall.asked?
    (fun _ _ _ hcall => ScanCall.asked_apply hcall) h

/-- A scan whose fragments are all conditions holds what rendering them makes. -/
theorem rendered_built (h : built passthrough calls = .ok s)
    (hconditions : ∀ call ∈ calls, call.bringsFragment = true → call.asked?.isSome = true) :
    Condition.renderAll { passthrough } filterBinder s.conditions =
      (s.fragments, s.resolver, s.binder) := by
  refine foldlM_keeps (P := fun s : Scan => Condition.renderAll { passthrough } filterBinder
    s.conditions = (s.fragments, s.resolver, s.binder)) ?_ rfl h
  intro call hmem s s' hs hcall
  by_cases hbrings : call.bringsFragment = true
  · have hasked := hconditions call hmem hbrings
    cases call with
    | condition field operator operand =>
      obtain ⟨-, c, -, rfl⟩ := add_eq_ok.1 hcall
      rw [Condition.renderAll_snoc, hs]
    | presence | filter | useIndex | limitTo | selectFields | readConsistently | startAfter
    | inParallel => cases hasked
  · obtain ⟨hsame, hfragments, hresolver, hbinder⟩ :=
      ScanCall.onlyReads (Bool.eq_false_iff.2 hbrings) hcall
    rw [hsame, hfragments, hresolver, hbinder, hs]

/-- Conditions of which each is accepted make a scan, as long as there is room for them. -/
theorem built_of_accepted (passthrough : List String) {asked : List (String × Operator × Operand)}
    (hroom : asked.length ≤ maxConditions) (haccepted : ∀ a ∈ asked, Accepted a) :
    ∃ s, built passthrough (asked.map fun a => .condition a.1 a.2.1 a.2.2) = .ok s ∧
      s.fragments.length = asked.length := by
  induction asked using List.reverseRecOn with
  | nil => exact ⟨_, rfl, rfl⟩
  | append_singleton asked a ih =>
    rw [List.length_append, List.length_singleton] at hroom
    obtain ⟨s, hs, hlength⟩ := ih (Nat.le_of_succ_le hroom) fun a ha =>
      haccepted a (List.mem_append_left _ ha)
    obtain ⟨c, hc⟩ := haccepted a (List.mem_append_right _ List.mem_cons_self)
    have hfree : s.checkRoom = .ok () := checkRoom_eq_ok.2 (by omega)
    obtain ⟨s', hadd, hnew⟩ : ∃ s', s.add a.1 a.2.1 a.2.2 = .ok s' ∧
        s'.fragments.length = s.fragments.length + 1 :=
      ⟨_, add_eq_ok.2 ⟨hfree, c, hc, rfl⟩, List.length_append⟩
    refine ⟨s', ?_, ?_⟩
    · rw [List.map_append, built_append]
      exact ⟨s, hs, bind_eq_ok.2 ⟨s', hadd, rfl⟩⟩
    · rw [hnew, hlength, List.length_append, List.length_singleton]

end Scan

namespace Query

/-- Conditions of which each is accepted can be added to a query, as long as there is room for
them. -/
theorem foldlM_of_accepted {asked : List (String × Operator × Operand)} {q : Query}
    (hroom : q.conditions.length + asked.length ≤ maxConditions)
    (haccepted : ∀ a ∈ asked, Accepted a) :
    ∃ q', (asked.map fun a => QueryCall.condition a.1 a.2.1 a.2.2).foldlM QueryCall.apply q =
      .ok q' := by
  induction asked generalizing q with
  | nil => exact ⟨q, rfl⟩
  | cons a rest ih =>
    rw [List.length_cons] at hroom
    obtain ⟨c, hc⟩ := haccepted a List.mem_cons_self
    have hadd : QueryCall.apply q (.condition a.1 a.2.1 a.2.2) =
        .ok { q with conditions := q.conditions ++ [c] } :=
      add_eq_ok.2 ⟨by omega, c, hc, rfl⟩
    obtain ⟨q', hrest⟩ := ih (q := { q with conditions := q.conditions ++ [c] })
      (by simp only [List.length_append, List.length_singleton]; omega)
      fun a ha => haccepted a (List.mem_cons_of_mem _ ha)
    exact ⟨q', by rw [List.map_cons, List.foldlM_cons, hadd]; exact hrest⟩

end Query

end ItemTable.Expression
