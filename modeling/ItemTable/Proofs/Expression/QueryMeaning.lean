import ItemTable.Proofs.Expression.ClosedQuery
import ItemTable.Proofs.Expression.Written

/-!
# Queries mean what has been asked

A query keeps the conditions that its calls have asked for, in their order. It compiles unless there
is none or the first one is no condition on a key, and then the key condition means the first
condition and the filter the others: `Query.plan_means`. What an expression means is read with its
own bindings (`Compiled.meant`).
-/
namespace ItemTable.Expression

/-- A condition as it has been asked for. -/
def Condition.asked (c : Condition) : String × Operator × Operand :=
  (c.field, c.test.operator, c.test.operand)

/-- The condition that a call asks for, if it asks for one. -/
def QueryCall.asked? : QueryCall → Option (String × Operator × Operand)
  | condition field operator operand => some (field, operator, operand)
  | _ => none

/-- A test that has passed its check is the one that was asked for. -/
theorem Test.of_check {field : String} {operator : Operator} {operand : Operand} {test : Test}
    (h : Test.check field operator operand = .ok test) :
    test.operator = operator ∧ test.operand = operand := by
  unfold Test.check at h
  split at h
  case h_9 => cases h
  case h_8 =>
    split at h
    · cases h
    · split at h
      · cases h
      · obtain ⟨_, -, rfl⟩ := map_eq_ok.1 h
        exact ⟨rfl, rfl⟩
  all_goals
    obtain ⟨_, -, rfl⟩ := map_eq_ok.1 h
    exact ⟨rfl, rfl⟩

theorem Condition.asked_of {field : String} {operator : Operator} {operand : Operand}
    {c : Condition} (h : Condition.of field operator operand = .ok c) :
    c.asked = (field, operator, operand) := by
  obtain ⟨-, test, htest, rfl⟩ := of_eq_ok.1 h
  obtain ⟨hoperator, hoperand⟩ := Test.of_check htest
  rw [asked, hoperator, hoperand]

theorem QueryCall.asked_apply {q q' : Query} {call : QueryCall} (h : call.apply q = .ok q') :
    q'.conditions.map Condition.asked = q.conditions.map Condition.asked ++ call.asked?.toList := by
  cases call with
  | condition field operator operand =>
    obtain ⟨-, c, hc, rfl⟩ := Query.add_eq_ok.1 h
    rw [List.map_append, List.map_singleton, Condition.asked_of hc]
    rfl
  | limitTo limit =>
    obtain ⟨read, -, rfl⟩ := map_eq_ok.1 h
    exact (List.append_nil _).symm
  | selectFields paths =>
    obtain ⟨read, -, rfl⟩ := map_eq_ok.1 h
    exact (List.append_nil _).symm
  | useIndex name | readForward forward | readConsistently consistent | startAfter key
  | leaveAlone names =>
    cases h
    exact (List.append_nil _).symm

/-- The conditions of a query are those that its calls have asked for. -/
theorem Query.asked_built {calls : List QueryCall} {q : Query} (h : built calls = .ok q) :
    q.conditions.map Condition.asked = calls.filterMap QueryCall.asked? :=
  foldlM_collects (fun q : Query => q.conditions.map Condition.asked) QueryCall.asked?
    (fun _ _ _ hcall => QueryCall.asked_apply hcall) h

namespace Compiled

/-- What an expression means with its own bindings. -/
def meant (c : Compiled) : List Piece := expand ⟨c.names.get?, c.values.get?⟩ c.text

/-- The names that an expression keeps are enough for it. -/
theorem meant_ofResolver (text : String) (r : Resolver) (values : Bindings AttributeValue) :
    (ofResolver text r values).meant = expand ⟨r.names.get?, values.get?⟩ text := by
  refine expand_congr (fun key hkey => ?_) fun _ _ => rfl
  have hiff (name : String) : (ofResolver text r values).names.get? key = some name ↔
      r.names.get? key = some name := by
    rw [get?_ofResolver_iff]
    exact and_iff_left hkey
  exact Option.ext hiff

end Compiled

theorem expand_keyPlaceholders {test : Test} (h : test.operator.isKeyOperator = true) {m : Meaning}
    (hvalues : ∀ e ∈ (keyPlaceholders test).zip (Condition.operands test),
      m.values e.1 = some e.2) :
    (keyPlaceholders test).map (expand m) = (Condition.operands test).map fun v => [.value v] := by
  cases test with
  | equals v | greaterThan v | lessThan v | beginsWith v =>
    have hvalue : m.values ":keyValue" = some v := hvalues _ List.mem_cons_self
    exact congrArg (fun p => [p]) (expand_valueRef (by decide) hvalue)
  | between low high =>
    have hlow : m.values ":start" = some low := hvalues _ List.mem_cons_self
    have hhigh : m.values ":end" = some high :=
      hvalues _ (List.mem_cons_of_mem _ List.mem_cons_self)
    show [expand m ":start", expand m ":end"] = [[.value low], [.value high]]
    rw [expand_valueRef (by decide) hlow, expand_valueRef (by decide) hhigh]
  | notEquals | contains | oneOf => cases h

theorem nodup_keyPlaceholders (test : Test) : (keyPlaceholders test).Nodup := by
  unfold keyPlaceholders
  split <;> decide

/-- A key condition that compiles means the condition. -/
theorem compileKey_meant {c : Condition} (h : c.test.operator.isKeyOperator = true)
    (hfield : HasNoSign c.field.toList) (r : Resolver) :
    ∃ keyCondition, compileKey c r = .ok (keyCondition, (r.path c.field).2) ∧
      keyCondition.meant = c.direct := by
  refine ⟨_, compileKey_eq h r, ?_⟩
  rw [Compiled.meant_ofResolver]
  let m : Meaning := ⟨(r.path c.field).2.names.get?,
    (Bindings.ofList ((keyPlaceholders c.test).zip (Condition.operands c.test))).get?⟩
  have hcovers : m.Covers (r.path c.field).2 filterBinder :=
    ⟨fun _ _ hget => hget, fun _ he => absurd he List.not_mem_nil⟩
  have hname : expand m (r.path c.field).1 = plain c.field :=
    (List.cons.inj ((r.path_standsFor filterBinder hfield).meant m hcovers)).1
  -- the placeholders of a key have no numbers, so that they are distinct only by their names
  have hdistinct :
      (((keyPlaceholders c.test).zip (Condition.operands c.test)).map Prod.fst).Nodup := by
    rw [List.map_fst_zip (Nat.le_of_eq (length_keyPlaceholders h))]
    exact nodup_keyPlaceholders c.test
  exact Condition.expand_fragment c.test hname
    (expand_keyPlaceholders h fun _ he => Bindings.get?_ofList_of_nodup hdistinct he)

/-- A filter is there if conditions are, and means all of them. -/
theorem compileFilter_meant {cs : List Condition} (hfields : ∀ c ∈ cs, HasNoSign c.field.toList)
    (r : Resolver) :
    ((compileFilter cs r).1 = none ↔ cs = []) ∧ ∀ filter, (compileFilter cs r).1 = some filter →
      filter.meant = (plain " AND ").intercalate (cs.map Condition.direct) := by
  unfold compileFilter
  by_cases hempty : cs = []
  · rw [if_pos (List.isEmpty_iff.2 hempty)]
    exact ⟨iff_of_true rfl hempty, fun filter h => by cases h⟩
  · rw [if_neg (fun h => hempty (List.isEmpty_iff.1 h))]
    have hnumbered : filterBinder.Numbered := .start ":value" 0
    have hall := Condition.renderAll_standsFor r (b := filterBinder) (by decide) cs hfields
    have hcovers := (Condition.renderAll_numbered r hnumbered (by decide) cs).covers
      (Condition.renderAll r filterBinder cs).2.1
    refine ⟨iff_of_false (fun h => by cases h) hempty, fun filter h => ?_⟩
    cases h
    rw [Compiled.meant_ofResolver, joinFragments, expand_joinWith (by decide), hall.meant _ hcovers]

/-- The comparisons that no key takes. -/
def noKeyOperators : List Operator := [.notEquals, .contains, .oneOf]

theorem isKeyOperator_iff (operator : Operator) :
    operator.isKeyOperator = true ↔ operator ∉ noKeyOperators := by
  cases operator <;> decide

namespace Query

variable {q : Query}

theorem plan_of_cons {key : Condition} {rest : List Condition} (h : q.conditions = key :: rest) :
    q.plan = compileKey key { passthrough := q.passthrough } >>= fun (keyCondition, r) => .ok {
      conditions := q.conditions, read := q.read, forward := q.forward, keyCondition
      filter := (compileFilter rest r).1
      projection := q.read.fields.map fun fields =>
        .ofResolver ((compileFilter rest r).2.projection fields).1
          ((compileFilter rest r).2.projection fields).2 .empty } := by
  rw [plan, h]
  rfl

theorem plan_of_noKeyOperator {key : Condition} {rest : List Condition}
    (h : q.conditions = key :: rest) (hkey : key.test.operator ∈ noKeyOperators) :
    q.plan = .error (.unsupportedKeyCondition key.test.operator) := by
  have hnot : ¬key.test.operator.isKeyOperator = true := fun h => (isKeyOperator_iff _).1 h hkey
  rw [plan_of_cons h, compileKey, if_neg hnot]
  rfl

/-- A query that starts with a condition on a key compiles to expressions that mean its
conditions. -/
theorem plan_of_keyOperator {key : Condition} {rest : List Condition} (hq : q.IsChecked)
    (h : q.conditions = key :: rest) (hkey : key.test.operator ∉ noKeyOperators) :
    ∃ plan, q.plan = .ok plan ∧ plan.keyCondition.meant = key.direct ∧
      (plan.filter = none ↔ rest = []) ∧ ∀ filter, plan.filter = some filter →
        filter.meant = (plain " AND ").intercalate (rest.map Condition.direct) := by
  have hfield (c : Condition) (hc : c ∈ key :: rest) : HasNoSign c.field.toList :=
    hasNoSign_of_checkFieldName (hq.fields c (h ▸ hc))
  obtain ⟨keyCondition, hcompile, hmeant⟩ := compileKey_meant ((isKeyOperator_iff _).2 hkey)
    (hfield key List.mem_cons_self) { passthrough := q.passthrough }
  rw [plan_of_cons h, hcompile]
  refine ⟨_, rfl, hmeant, ?_⟩
  exact compileFilter_meant (fun c hc => hfield c (List.mem_cons_of_mem _ hc)) _

theorem plan_eq_noConditions_iff (hq : q.IsChecked) :
    q.plan = .error .noConditions ↔ q.conditions = [] := by
  cases h : q.conditions with
  | nil =>
    have hplan : q.plan = .error .noConditions := by rw [plan, h]
    exact iff_of_true hplan rfl
  | cons key rest =>
    refine iff_of_false (fun herror => ?_) (List.cons_ne_nil key rest)
    by_cases hkey : key.test.operator ∈ noKeyOperators
    · rw [plan_of_noKeyOperator h hkey] at herror
      cases herror
    · obtain ⟨plan, hplan, -⟩ := plan_of_keyOperator hq h hkey
      rw [hplan] at herror
      cases herror

theorem plan_eq_unsupported_iff (hq : q.IsChecked) (operator : Operator) :
    q.plan = .error (.unsupportedKeyCondition operator) ↔ operator ∈ noKeyOperators ∧
      ∃ key rest, q.conditions = key :: rest ∧ key.test.operator = operator := by
  constructor
  · intro herror
    cases h : q.conditions with
    | nil =>
      rw [(plan_eq_noConditions_iff hq).2 h] at herror
      cases herror
    | cons key rest =>
      by_cases hkey : key.test.operator ∈ noKeyOperators
      · rw [plan_of_noKeyOperator h hkey] at herror
        cases herror
        exact ⟨hkey, key, rest, rfl, rfl⟩
      · obtain ⟨plan, hplan, -⟩ := plan_of_keyOperator hq h hkey
        rw [hplan] at herror
        cases herror
  · rintro ⟨hkey, key, rest, h, rfl⟩
    exact plan_of_noKeyOperator h hkey

/-- **A query compiles to what has been asked.** It is refused if nothing was asked, or if the first
condition is none that a key takes; otherwise its key condition means the first condition and its
filter all others, in the order in which they were asked. -/
theorem plan_means {calls : List QueryCall} (hcalls : Query.built calls = .ok q) :
    q.conditions.map Condition.asked = calls.filterMap QueryCall.asked? ∧
    (q.plan = .error .noConditions ↔ q.conditions = []) ∧
    (∀ operator, q.plan = .error (.unsupportedKeyCondition operator) ↔
      operator ∈ noKeyOperators ∧
        ∃ key rest, q.conditions = key :: rest ∧ key.test.operator = operator) ∧
    ∀ key rest, q.conditions = key :: rest → key.test.operator ∉ noKeyOperators →
      ∃ plan, q.plan = .ok plan ∧ plan.keyCondition.meant = key.direct ∧
        (plan.filter = none ↔ rest = []) ∧ ∀ filter, plan.filter = some filter →
          filter.meant = (plain " AND ").intercalate (rest.map Condition.direct) := by
  have hchecked := built_isChecked hcalls
  exact ⟨asked_built hcalls, plan_eq_noConditions_iff hchecked, plan_eq_unsupported_iff hchecked,
    fun _ _ => plan_of_keyOperator hchecked⟩

end Query

end ItemTable.Expression

namespace ItemTable

open Expression

theorem crowdedQuery_means :
    Query.built crowdedCalls = .ok crowdedQuery ∧
    crowdedQuery.conditions.map Condition.asked =
      [("name", .between, .range (.number "1") (.number "2.5")),
        ("status", .oneOf, .list [.text "a", .text "b"]),
        ("name", .contains, .single (.text "x"))] ∧
    ∃ plan filter, crowdedQuery.plan = .ok plan ∧ plan.filter = some filter ∧
      plan.keyCondition.text = "#n0 BETWEEN :start AND :end" ∧
      plan.keyCondition.meant = plain "name BETWEEN " ++ [.value (.number "1")] ++ plain " AND " ++
        [.value (.number "2.5")] ∧
      filter.text = "#n1 IN (:value0, :value1) AND contains(#n0, :value2)" ∧
      filter.meant = plain "status IN (" ++ [.value (.text "a")] ++ plain ", " ++
        [.value (.text "b")] ++ plain ") AND contains(name, " ++ [.value (.text "x")] ++
        plain ")" := by
  have hcalls : Query.built crowdedCalls = .ok crowdedQuery := rfl
  obtain ⟨hasked, -, -, hsuccess⟩ := Query.plan_means hcalls
  obtain ⟨plan, hplan, hkey, hnone, hfilter⟩ := hsuccess _ _ rfl (by decide)
  have htexts : (crowdedQuery.plan.toOption.map fun plan =>
      (plan.keyCondition.text, plan.filter.map Compiled.text)) = some
        ("#n0 BETWEEN :start AND :end",
          some "#n1 IN (:value0, :value1) AND contains(#n0, :value2)") := by
    decide +kernel
  rw [hplan] at htexts
  obtain ⟨hkeyText, hfilterText⟩ := Prod.mk.inj (Option.some.inj htexts)
  obtain ⟨filter, hsome, htext⟩ := Option.map_eq_some_iff.1 hfilterText
  exact ⟨hcalls, hasked, plan, filter, hplan, hsome, hkeyText, hkey, htext, hfilter filter hsome⟩

end ItemTable
