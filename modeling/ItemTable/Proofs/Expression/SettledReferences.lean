import ItemTable.Proofs.Expression.ScanNumbering
import ItemTable.Proofs.Expression.UpdateMeaning

/-!
# Texts with settled references

A resolver only adds names, so that a text can be read with the resolver that it ends with: every
field stands in it as that resolver refers to it (`Resolver.reference`), whatever has been written
before and after. Conditions, updates and clauses are written here with references that are given
(`Condition.written`, `FieldUpdate.written`, `Clause.written`), and the compiled texts of queries
and updates are those: `Query.plan_settled`, `Update.plan_settled`.
-/
namespace ItemTable.Expression

namespace Resolver

/-- The reference to a field. -/
def reference (r : Resolver) (field : String) : String := (r.path field).1

/-- The names of fields that are replaced. -/
def fieldNames (passthrough fields : List String) : List String :=
  fields.flatMap (pathNames passthrough)

/-- The resolver that has been asked for fields one after another. -/
def ofFields (passthrough fields : List String) : Resolver := .after passthrough (fields.map .path)

theorem ofFields_eq (passthrough fields : List String) : ofFields passthrough fields =
    { passthrough, assigned := (fieldNames passthrough fields).foldl addName [] } := by
  rw [ofFields, after_eq, firstUses, foldl_addName, List.flatMap_map]
  rfl

/-- A field that has been asked for is written again without adding anything. -/
theorem path_ofFields {passthrough fields : List String} {field : String} (h : field ∈ fields) :
    ((ofFields passthrough fields).path field).2 = ofFields passthrough fields := by
  have hcall : ResolverCall.path field ∈ fields.map .path := List.mem_map_of_mem h
  exact write_after hcall

theorem passthrough_ofFields (passthrough fields : List String) :
    (ofFields passthrough fields).passthrough = passthrough := by
  rw [ofFields_eq]

/-- More fields change no reference to the earlier ones. -/
theorem reference_ofFields_append {passthrough fields : List String} {field : String}
    (h : field ∈ fields) (more : List String) :
    (ofFields passthrough (fields ++ more)).reference field =
      (ofFields passthrough fields).reference field := by
  have hextends :
      (ofFields passthrough fields).Extends (ofFields passthrough (fields ++ more)) := by
    rw [ofFields, ofFields, List.map_append]
    exact after_extends passthrough _ _
  have hlater : ((ofFields passthrough fields).path field).2.assigned <+:
      (ofFields passthrough (fields ++ more)).assigned := by
    rw [path_ofFields h]
    exact hextends
  have hsettled := (path_asks passthrough field).settled (ofFields_eq passthrough fields) hlater
  rwa [ofFields_eq passthrough (fields ++ more)] at hsettled ⊢

end Resolver

/-- Conditions as they are written with given references and with numbers from the given one on. -/
def Condition.written (reference : String → String) (first : Nat) : List Condition → List String
  | [] => []
  | c :: rest =>
    fragment c.test (reference c.field) (valuePlaceholders first (operands c.test).length) ::
      written reference (first + (operands c.test).length) rest

/-- Updates as they are written with given references. -/
def FieldUpdate.written (reference : String → String) (b : Binder) :
    List FieldUpdate → List String × Binder
  | [] => ([], b)
  | u :: rest =>
    let (text, b) := u.action.render (reference u.field) b
    let (texts, b) := written reference b rest
    (text :: texts, b)

/-- Clauses as they are written with given references, those without updates left out. -/
def Clause.written (reference : String → String) (updates : List FieldUpdate) (b : Binder) :
    List Clause → List String × Binder
  | [] => ([], b)
  | clause :: rest =>
    let own := updates.filter (·.action.clause = clause)
    let (texts, b) := FieldUpdate.written reference b own
    let (clauses, b) := written reference updates b rest
    (if own.isEmpty then clauses
      else (clause.name ++ " " ++ Text.joinWith ", " texts) :: clauses, b)

section Settled

open Resolver

variable {passthrough known later : List String}

/-- What a field asks for, and how it is written as long as the names keep their numbers. -/
theorem path_settled {field : String}
    (h : (pathNames passthrough field).foldl addName known <+: later) :
    (path { passthrough, assigned := known } field).1 =
        reference { passthrough, assigned := later } field ∧
      (path { passthrough, assigned := known } field).2 =
        { passthrough, assigned := (pathNames passthrough field).foldl addName known } := by
  have hasks := path_asks passthrough field
  rw [reference, hasks.again known later h]
  exact ⟨rfl, hasks.adds known⟩

theorem renderAll_settled {cs : List Condition} {b : Binder} (hstem : b.stem = ":value")
    (h : (fieldNames passthrough (cs.map Condition.field)).foldl addName known <+: later) :
    (Condition.renderAll { passthrough, assigned := known } b cs).1 =
        Condition.written (reference { passthrough, assigned := later }) b.next cs ∧
      (Condition.renderAll { passthrough, assigned := known } b cs).2.1 =
        { passthrough
          assigned := (fieldNames passthrough (cs.map Condition.field)).foldl addName known } := by
  induction cs generalizing known b with
  | nil => exact ⟨rfl, rfl⟩
  | cons c rest ih =>
    rw [List.map_cons, fieldNames, List.flatMap_cons, List.foldl_append] at h ⊢
    obtain ⟨hname, hpath⟩ := path_settled ((prefix_foldl_addName _ _).trans h)
    have hplaceholders := b.bindAll_placeholders hstem (Condition.operands c.test)
    have hnext := b.bindAll_next (Condition.operands c.test)
    have hsame : (b.bindAll (Condition.operands c.test)).2.stem = ":value" := by
      rw [Binder.bindAll_stem, hstem]
    obtain ⟨hrest, hlast⟩ := ih hsame h
    simp only [Condition.renderAll, Condition.render, Condition.written, hpath, hname,
      hplaceholders, hrest, hlast, hnext, fieldNames, and_self]

theorem renderUpdates_settled {us : List FieldUpdate} {b : Binder}
    (h : (fieldNames passthrough (us.map FieldUpdate.field)).foldl addName known <+: later) :
    ((renderUpdates { passthrough, assigned := known } b us).1,
        (renderUpdates { passthrough, assigned := known } b us).2.2) =
        FieldUpdate.written (reference { passthrough, assigned := later }) b us ∧
      (renderUpdates { passthrough, assigned := known } b us).2.1 =
        { passthrough
          assigned :=
            (fieldNames passthrough (us.map FieldUpdate.field)).foldl addName known } := by
  induction us generalizing known b with
  | nil => exact ⟨rfl, rfl⟩
  | cons u rest ih =>
    rw [List.map_cons, fieldNames, List.flatMap_cons, List.foldl_append] at h ⊢
    obtain ⟨hname, hpath⟩ := path_settled ((prefix_foldl_addName _ _).trans h)
    obtain ⟨hrest, hlast⟩ :=
      ih (b := (u.action.render (reference { passthrough, assigned := later } u.field) b).2) h
    simp only [renderUpdates, FieldUpdate.written, hpath, hname, ← hrest, hlast, fieldNames,
      and_self]

/-- The fields of clauses in the order in which they are written. -/
def clauseFields (updates : List FieldUpdate) (clauses : List Clause) : List String :=
  clauses.flatMap fun clause =>
    (updates.filter (·.action.clause = clause)).map FieldUpdate.field

theorem renderClauses_settled {updates : List FieldUpdate} {clauses : List Clause} {b : Binder}
    (h : (fieldNames passthrough (clauseFields updates clauses)).foldl addName known <+: later) :
    ((renderClauses updates { passthrough, assigned := known } b clauses).1,
        (renderClauses updates { passthrough, assigned := known } b clauses).2.2) =
        Clause.written (reference { passthrough, assigned := later }) updates b clauses ∧
      (renderClauses updates { passthrough, assigned := known } b clauses).2.1 =
        { passthrough
          assigned :=
            (fieldNames passthrough (clauseFields updates clauses)).foldl addName known } := by
  induction clauses generalizing known b with
  | nil => exact ⟨rfl, rfl⟩
  | cons clause rest ih =>
    rw [clauseFields, List.flatMap_cons, fieldNames, List.flatMap_append, List.foldl_append] at h ⊢
    obtain ⟨hown, hnames⟩ := renderUpdates_settled (b := b) ((prefix_foldl_addName _ _).trans h)
    have htexts := congrArg Prod.fst hown
    have hbinder := congrArg Prod.snd hown
    simp only at htexts hbinder
    obtain ⟨hrest, hlast⟩ := ih h (b := (FieldUpdate.written
      (reference { passthrough, assigned := later }) b
        (updates.filter (·.action.clause = clause))).2)
    simp only [renderClauses_cons, Clause.written, hnames, htexts, hbinder, ← hrest]
    exact ⟨rfl, hlast⟩

theorem compileFilter_settled (passthrough known : List String) (cs : List Condition)
    (h : (fieldNames passthrough (cs.map Condition.field)).foldl addName known = later) :
    ∃ values, (compileFilter cs { passthrough, assigned := known }).1 =
      if cs.isEmpty then none else some (.ofResolver
        (joinFragments (Condition.written (reference { passthrough, assigned := later }) 0 cs))
        { passthrough, assigned := later } values) := by
  subst h
  have hprefix :=
    List.prefix_refl ((fieldNames passthrough (cs.map Condition.field)).foldl addName known)
  obtain ⟨hfragments, hlast⟩ := renderAll_settled (b := filterBinder) rfl hprefix
  refine ⟨(Condition.renderAll { passthrough, assigned := known } filterBinder cs).2.2.values, ?_⟩
  unfold compileFilter
  split
  · rfl
  · simp only [hfragments, hlast]
    rfl

end Settled

/-- The fields of a query, each in the place of its condition. -/
def Query.fields (q : Query) : List String := q.conditions.map Condition.field

/-- The texts of a query, with the references of the resolver that has been asked for all its
fields. -/
theorem Query.plan_settled {q : Query} {plan : QueryPlan} (h : q.plan = .ok plan) :
    ∃ key rest keyValues filterValues, q.conditions = key :: rest ∧
      key.test.operator.isKeyOperator = true ∧
      plan.keyCondition = .ofResolver
        (Condition.fragment key.test
          ((Resolver.ofFields q.passthrough q.fields).reference key.field)
          (keyPlaceholders key.test))
        (.ofFields q.passthrough [key.field]) keyValues ∧
      plan.filter = if rest.isEmpty then none else some (.ofResolver
        (joinFragments
          (Condition.written (Resolver.ofFields q.passthrough q.fields).reference 0 rest))
        (.ofFields q.passthrough q.fields) filterValues) := by
  obtain ⟨key, rest, keyCondition, r, hconditions, hkey, hkeyPlan, hfilterPlan, -⟩ := plan_eq h
  have hoperator := isKeyOperator_of_compileKey hkey
  have hone : Resolver.ofFields q.passthrough [key.field] =
      { passthrough := q.passthrough
        assigned := (pathNames q.passthrough key.field).foldl addName [] } := by
    rw [Resolver.ofFields_eq, Resolver.fieldNames, List.flatMap_singleton]
  have hall : Resolver.ofFields q.passthrough q.fields =
      { passthrough := q.passthrough
        assigned := (Resolver.fieldNames q.passthrough (rest.map Condition.field)).foldl addName
          ((pathNames q.passthrough key.field).foldl addName []) } := by
    rw [Resolver.ofFields_eq, fields, hconditions, List.map_cons, Resolver.fieldNames,
      List.flatMap_cons, List.foldl_append]
    rfl
  have hprefix :=
    prefix_foldl_addName (Resolver.fieldNames q.passthrough (rest.map Condition.field))
    ((pathNames q.passthrough key.field).foldl addName [])
  obtain ⟨hname, hfirst⟩ := path_settled hprefix
  obtain ⟨filterValues, hfilter⟩ := compileFilter_settled q.passthrough
    ((pathNames q.passthrough key.field).foldl addName []) rest rfl
  rw [compileKey_eq hoperator] at hkey
  obtain ⟨rfl, rfl⟩ := Prod.mk.inj (Except.ok.inj hkey)
  rw [NameStore.empty_list, hname, hfirst, ← hall, ← hone] at hkeyPlan
  rw [NameStore.empty_list, hfirst, hfilter, ← hall] at hfilterPlan
  exact ⟨key, rest, _, filterValues, hconditions, hoperator, hkeyPlan, hfilterPlan⟩

/-- The text of an update, with the references of the resolver that has been asked for all its
fields. -/
theorem Update.plan_settled {u : Update} {plan : UpdatePlan} (h : u.plan = .ok plan) :
    plan.update = Text.joinWith " " (Clause.written
        (Resolver.ofFields u.passthrough (clauseFields u.updates Clause.all)).reference u.updates
          updateBinder Clause.all).1 ∧
      plan.scope.names =
        (Resolver.ofFields u.passthrough (clauseFields u.updates Clause.all)).names := by
  have hprefix := List.prefix_refl
    ((Resolver.fieldNames u.passthrough (clauseFields u.updates Clause.all)).foldl addName [])
  obtain ⟨hclauses, hresolver⟩ := renderClauses_settled (b := updateBinder) hprefix
  rw [Resolver.ofFields_eq]
  unfold Update.plan at h
  split at h
  · cases h
  · split at h
    · cases h
    · cases h
      exact ⟨congrArg (fun written => Text.joinWith " " written.1) hclauses,
        congrArg Resolver.names hresolver⟩

end ItemTable.Expression
