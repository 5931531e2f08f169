import ItemTable.Proofs.Expression.Merge
import ItemTable.Proofs.Expression.UpdateMeaning

/-!
# Updates under a condition

A condition is attached to an update without renumbering, whatever its placeholders are called. It
is refused if one of them is bound to something else on the other side; otherwise both texts stay as
they are (`Update.planWithCondition_conservative`) and mean what they meant
(`UpdatePlan.Guards.expand`).
-/
namespace ItemTable.Expression

/-- What a text refers to is bound in a request as it is bound in its own maps. -/
structure Scope.Keeps (s : Scope) (text : String) (names : Bindings String)
    (values : Bindings AttributeValue) : Prop where
  names : ∀ key ∈ nameRefs text, s.names.get? key = names.get? key
  values : ∀ key ∈ valueRefs text, s.values.get? key = values.get? key

/-- A plan is another one with a condition: the texts are those of the two sides, the maps are the
unions of theirs, and nothing that either text refers to has changed. -/
structure UpdatePlan.Guards (guarded plan : UpdatePlan) (c : Compiled) : Prop where
  update : guarded.update = plan.update
  condition : guarded.condition = some c.text
  names : guarded.scope.names.IsUnion plan.scope.names c.names
  values : guarded.scope.values.IsUnion plan.scope.values c.values
  keepsUpdate : guarded.scope.Keeps plan.update plan.scope.names plan.scope.values
  keepsCondition : guarded.scope.Keeps c.text c.names c.values
  bindsExactly : BindsExactly [plan.update, c.text] guarded.scope.names guarded.scope.values

theorem Scope.Keeps.expand {s : Scope} {text : String} {names : Bindings String}
    {values : Bindings AttributeValue} (h : s.Keeps text names values) :
    Expression.expand s.meaning text = Expression.expand ⟨names.get?, values.get?⟩ text :=
  expand_congr h.names h.values

/-- Under a condition an update means what it meant without it, and so does the condition. -/
theorem UpdatePlan.Guards.expand {guarded plan : UpdatePlan} {c : Compiled}
    (h : guarded.Guards plan c) :
    Expression.expand guarded.scope.meaning guarded.update =
        Expression.expand plan.scope.meaning plan.update ∧
      guarded.condition.map (Expression.expand guarded.scope.meaning) =
        some (Expression.expand ⟨c.names.get?, c.values.get?⟩ c.text) := by
  rw [h.update, h.condition]
  exact ⟨h.keepsUpdate.expand, congrArg some h.keepsCondition.expand⟩

section Union

variable {text other : String} {names names' : Bindings String}
    {values values' : Bindings AttributeValue}
  {s : Scope}

/-- A text that binds what it refers to is kept by every union with its maps. -/
theorem BindsExactly.keeps (h : BindsExactly [text] names values)
    (hnames : ∀ key ∈ names.keys, s.names.get? key = names.get? key)
    (hvalues : ∀ key ∈ values.keys, s.values.get? key = values.get? key) :
    s.Keeps text names values where
  names := fun key href => hnames key ((h.names key).2 ⟨text, List.mem_singleton.2 rfl, href⟩)
  values := fun key href => hvalues key ((h.values key).2 ⟨text, List.mem_singleton.2 rfl, href⟩)

/-- Two texts that bind what they refer to bind it together. -/
theorem BindsExactly.union (h : BindsExactly [text] names values)
    (h' : BindsExactly [other] names' values') (hnames : s.names.IsUnion names names')
    (hvalues : s.values.IsUnion values values') : BindsExactly [text, other] s.names s.values where
  names := fun key => by
    rw [hnames.mem_keys, h.names, h'.names]
    simp only [List.mem_cons, List.not_mem_nil, or_false, exists_eq_left, exists_eq_or_imp]
  values := fun key => by
    rw [hvalues.mem_keys, h.values, h'.values]
    simp only [List.mem_cons, List.not_mem_nil, or_false, exists_eq_left, exists_eq_or_imp]

end Union

theorem Compiled.Closed.bindsExactly {c : Compiled} (h : c.Closed) :
    BindsExactly [c.text] c.names c.values where
  names := fun key => by simp only [h.names, List.mem_singleton, exists_eq_left]
  values := fun key => by simp only [h.values, List.mem_singleton, exists_eq_left]

namespace Update

variable {u : Update} {condition : Compiled}

theorem planWithCondition_eq_ok_iff {guarded : UpdatePlan} :
    u.planWithCondition condition = .ok guarded ↔
      ∃ plan scope, u.plan = .ok plan ∧ condition.mergeInto plan.scope = .ok scope ∧
        guarded = { plan with condition := some condition.text, scope } := by
  rw [planWithCondition, bind_eq_ok]
  constructor
  · rintro ⟨plan, hplan, h⟩
    obtain ⟨scope, hmerge, h⟩ := bind_eq_ok.1 h
    cases h
    exact ⟨plan, scope, hplan, hmerge, rfl⟩
  · rintro ⟨plan, scope, hplan, hmerge, rfl⟩
    exact ⟨plan, hplan, bind_eq_ok.2 ⟨scope, hmerge, rfl⟩⟩

/-- An update under a condition is refused as the update is, or because the two clash. -/
theorem of_planWithCondition_error {e : Error} (h : u.planWithCondition condition = .error e) :
    u.plan = .error e ∨ ∃ plan placeholder, u.plan = .ok plan ∧
      condition.ClashesAt plan.scope placeholder ∧ e = .placeholderConflict placeholder := by
  rcases bind_eq_error.1 h with hplan | ⟨plan, hplan, h⟩
  · exact .inl hplan
  · rcases bind_eq_error.1 h with hmerge | ⟨scope, -, h⟩
    · obtain ⟨placeholder, hclash, he⟩ := Compiled.clashesAt_of_mergeInto hmerge
      exact .inr ⟨plan, placeholder, hplan, hclash, he⟩
    · cases h

theorem exists_planWithCondition_iff :
    (∃ guarded, u.planWithCondition condition = .ok guarded) ↔
      ∃ plan, u.plan = .ok plan ∧ ∀ placeholder, ¬condition.ClashesAt plan.scope placeholder := by
  simp only [planWithCondition_eq_ok_iff]
  constructor
  · rintro ⟨-, plan, scope, hplan, hmerge, rfl⟩
    exact ⟨plan, hplan, Compiled.exists_mergeInto_iff.1 ⟨scope, hmerge⟩⟩
  · rintro ⟨plan, hplan, hnone⟩
    obtain ⟨scope, hmerge⟩ := Compiled.exists_mergeInto_iff.2 hnone
    exact ⟨_, plan, scope, hplan, hmerge, rfl⟩

theorem bindsExactly_plan {calls : List UpdateCall} (hcalls : Update.built calls = .ok u)
    {plan : UpdatePlan} (hplan : u.plan = .ok plan) :
    BindsExactly [plan.update] plan.scope.names plan.scope.values := by
  obtain ⟨hsome, hnodup, -⟩ := plan_eq_ok_iff.1 hplan
  -- the plan that the fields promise is the one at hand
  obtain ⟨plan', -, hplan', -, -, -, -, hexact⟩ := plan_of_nodup (checked_built hcalls) hsome hnodup
  cases hplan.symm.trans hplan'
  exact hexact

/-- **Attaching a condition is conservative.** An update takes a closed condition just if it
compiles and no placeholder is bound to different things on the two sides, and if it does not then
one of these is why. What comes out are the two texts as they were, with the union of their
bindings: each placeholder of each text stands for what it stood for, and nothing else is bound. -/
theorem planWithCondition_conservative {calls : List UpdateCall}
    (hcalls : Update.built calls = .ok u) (hcondition : condition.Closed) :
    ((∃ guarded, u.planWithCondition condition = .ok guarded) ↔
      ∃ plan, u.plan = .ok plan ∧ ∀ placeholder, ¬condition.ClashesAt plan.scope placeholder) ∧
    (∀ e, u.planWithCondition condition = .error e →
      u.plan = .error e ∨ ∃ plan placeholder, u.plan = .ok plan ∧
        condition.ClashesAt plan.scope placeholder ∧ e = .placeholderConflict placeholder) ∧
    ∀ guarded, u.planWithCondition condition = .ok guarded →
      ∃ plan, u.plan = .ok plan ∧ guarded.Guards plan condition := by
  refine ⟨exists_planWithCondition_iff, fun e => of_planWithCondition_error,
    fun guarded hguarded => ?_⟩
  obtain ⟨plan, scope, hplan, hmerge, rfl⟩ := planWithCondition_eq_ok_iff.1 hguarded
  obtain ⟨hnames, hvalues⟩ := Compiled.mergeInto_eq_ok_iff.1 hmerge
  have hupdate := bindsExactly_plan hcalls hplan
  exact ⟨plan, hplan, {
    update := rfl
    condition := rfl
    names := hnames
    values := hvalues
    keepsUpdate := hupdate.keeps (fun _ => hnames.get?_left) fun _ => hvalues.get?_left
    keepsCondition :=
      hcondition.bindsExactly.keeps (fun _ => hnames.get?_right) fun _ => hvalues.get?_right
    bindsExactly := hupdate.union hcondition.bindsExactly hnames hvalues }⟩

end Update

def statusCalls : List UpdateCall := [.set "status" (.text "x"), .remove "age"]

def statusGuard : String := "#n0 <> :val1 AND age > :min"

/-- A condition with placeholders that the update `statusCalls` uses as well, and with one of its
own. -/
def statusCondition (known : AttributeValue) : Compiled where
  text := statusGuard
  names := .ofList [("#n0", "status")]
  values := .ofList [(":val1", known), (":min", .number "1")]

theorem statusCondition_closed (known : AttributeValue) : (statusCondition known).Closed where
  names := fun key => by
    have hrefs : nameRefs statusGuard = ["#n0"] := by decide +kernel
    rw [statusCondition, hrefs, Bindings.mem_keys_ofList]
    rfl
  values := fun key => by
    have hrefs : valueRefs statusGuard = [":val1", ":min"] := by decide +kernel
    rw [statusCondition, hrefs, Bindings.mem_keys_ofList]
    rfl

theorem statusUpdate_guarded :
    ∃ u plan guarded, Update.built statusCalls = .ok u ∧ u.plan = .ok plan ∧
      (∀ known, (statusCondition known).Closed) ∧
      u.planWithCondition (statusCondition (.text "x")) = .ok guarded ∧
      guarded.Guards plan (statusCondition (.text "x")) ∧
      guarded.scope.values.toList = [(":min", .number "1"), (":val1", .text "x")] ∧
      (u.planWithCondition (statusCondition (.text "y"))).toOption = none := by
  obtain ⟨u, hbuilt, hview, hrefused⟩ : ∃ u, Update.built statusCalls = .ok u ∧
      ((u.planWithCondition (statusCondition (.text "x"))).toOption.map fun guarded =>
        guarded.scope.values.toList) = some [(":min", .number "1"), (":val1", .text "x")] ∧
      (u.planWithCondition (statusCondition (.text "y"))).toOption = none :=
    ⟨_, rfl, by decide +kernel, by decide +kernel⟩
  obtain ⟨guarded, hguarded, hvalues⟩ := toOption_map_eq_some.1 hview
  obtain ⟨-, -, hconservative⟩ :=
    Update.planWithCondition_conservative hbuilt (statusCondition_closed (.text "x"))
  obtain ⟨plan, hplan, hguards⟩ := hconservative guarded hguarded
  exact ⟨u, plan, guarded, hbuilt, hplan, statusCondition_closed, hguarded, hguards, hvalues,
    hrefused⟩

end ItemTable.Expression
