import ItemTable.Expression.Update
import ItemTable.Proofs.Expression.Account
import ItemTable.Proofs.Expression.QueryCalls
import ItemTable.Proofs.Expression.Written

/-!
# Updates mean what has been recorded

An update keeps what its calls have recorded, in their order. It compiles unless nothing is recorded
or a field is recorded twice, and then its text means the recorded updates clause by clause, and
binds exactly what it refers to: `Update.plan_recorded`. Values are numbered in the order of the
clauses, and a list takes one number for two placeholders.
-/
namespace ItemTable.Expression

/-- What may be asked of an update under construction. -/
inductive UpdateCall where
  | set (field : String) (v : AttributeValue)
  | remove (field : String)
  | add (field : String) (v : AttributeValue)
  | delete (field : String) (v : AttributeValue)
  | increment (field : String) (v : AttributeValue)
  | decrement (field : String) (v : AttributeValue)
  | append (field : String) (v : AttributeValue)
  | prepend (field : String) (v : AttributeValue)
  | leaveAlone (names : List String)

/-- The update after a call, if the call is accepted. -/
def UpdateCall.apply (u : Update) : UpdateCall → Except Error Update
  | set field v => u.set field v
  | remove field => u.remove field
  | add field v => u.add field v
  | delete field v => u.delete field v
  | increment field v => u.increment field v
  | decrement field v => u.decrement field v
  | append field v => u.append field v
  | prepend field v => u.prepend field v
  | leaveAlone names => .ok { u with passthrough := names }

/-- The update that calls make, if all of them are accepted. -/
def Update.built (calls : List UpdateCall) : Except Error Update :=
  calls.foldlM UpdateCall.apply {}

/-- What a call records. A decrement adds the opposite number, and a list is extended by the
elements of a list or by a single value. -/
def UpdateCall.recorded? : UpdateCall → Option FieldUpdate
  | set field v => some ⟨field, .set v⟩
  | remove field => some ⟨field, .remove⟩
  | add field v | increment field v => some ⟨field, .add v⟩
  | delete field v => some ⟨field, .delete v⟩
  | decrement field (.number n) => some ⟨field, .add (.number (negated n))⟩
  | decrement field v => some ⟨field, .add v⟩
  | append field v => some ⟨field, .append (v.asList?.getD [v])⟩
  | prepend field v => some ⟨field, .prepend (v.asList?.getD [v])⟩
  | leaveAlone _ => none

theorem listElements_eq_ok {field : String} {v : AttributeValue} {items : List AttributeValue}
    (h : listElements field v = .ok items) : items = v.asList?.getD [v] := by
  simp only [listElements] at h
  split at h
  · cases h
  · obtain ⟨⟨⟩, -, h⟩ := bind_eq_ok.1 h
    cases h
    rfl

/-- An accepted call puts what it records behind what has been recorded. -/
theorem UpdateCall.push_of_apply {u u' : Update} {call : UpdateCall} (h : call.apply u = .ok u') :
    (∃ recorded, call.recorded? = some recorded ∧
      u.push recorded.field recorded.action = .ok u') ∨
    (call.recorded? = none ∧ u'.updates = u.updates) := by
  cases call with
  | remove field => exact .inl ⟨_, rfl, h⟩
  | set field v | add field v | delete field v | increment field v =>
    obtain ⟨_, -, h⟩ := bind_eq_ok.1 h
    exact .inl ⟨_, rfl, h⟩
  | append field v | prepend field v =>
    obtain ⟨items, hitems, h⟩ := bind_eq_ok.1 h
    rw [listElements_eq_ok hitems] at h
    exact .inl ⟨_, rfl, h⟩
  | decrement field v =>
    obtain ⟨_, -, h⟩ := bind_eq_ok.1 h
    cases v with
    | number n => exact .inl ⟨_, rfl, h⟩
    | _ => exact .inl ⟨_, rfl, h⟩
  | leaveAlone names =>
    cases h
    exact .inr ⟨rfl, rfl⟩

/-- An accepted call records its update under a field that has passed its check. -/
theorem UpdateCall.updates_apply {u u' : Update} {call : UpdateCall} (h : call.apply u = .ok u') :
    u'.updates = u.updates ++ call.recorded?.toList ∧
      ∀ recorded ∈ call.recorded?, checkFieldName recorded.field = .ok () := by
  rcases push_of_apply h with ⟨recorded, hrecorded, hpush⟩ | ⟨hnone, hsame⟩
  · obtain ⟨hfield, -, rfl⟩ := Update.push_eq_ok.1 hpush
    rw [hrecorded]
    refine ⟨rfl, fun recorded hmem => ?_⟩
    cases hmem
    exact hfield
  · rw [hnone, hsame]
    exact ⟨(List.append_nil _).symm, fun recorded hmem => by cases hmem⟩

/-- The updates are those that the calls have recorded. -/
theorem Update.recorded_built {calls : List UpdateCall} {u : Update} (h : built calls = .ok u) :
    u.updates = calls.filterMap UpdateCall.recorded? := by
  have hstep (call : UpdateCall) (u u' : Update) (hcall : call.apply u = .ok u') :=
    (UpdateCall.updates_apply hcall).1
  exact foldlM_collects Update.updates UpdateCall.recorded? hstep h

/-- Every field has passed its check. -/
theorem Update.fields_built {calls : List UpdateCall} {u : Update} (h : built calls = .ok u) :
    ∀ recorded ∈ u.updates, checkFieldName recorded.field = .ok () := by
  refine foldlM_keeps
    (P := fun u : Update => ∀ recorded ∈ u.updates, checkFieldName recorded.field = .ok ())
    (fun call _ u u' hu hcall recorded hmem => ?_) (fun _ hmem => absurd hmem List.not_mem_nil) h
  obtain ⟨hupdates, hfield⟩ := UpdateCall.updates_apply hcall
  rw [hupdates, List.mem_append, Option.mem_toList] at hmem
  rcases hmem with hold | hnew
  · exact hu recorded hold
  · exact hfield recorded hnew

theorem Update.checked_built {calls : List UpdateCall} {u : Update} (h : built calls = .ok u) :
    ∀ recorded ∈ u.updates, HasNoSign recorded.field.toList :=
  fun recorded hmem => hasNoSign_of_checkFieldName (fields_built h recorded hmem)

/-- A field is the first one that an earlier update names already. -/
def IsFirstRepeated (field : String) (updates : List FieldUpdate) : Prop :=
  ∃ before u behind, updates = before ++ u :: behind ∧ u.field = field ∧
    field ∈ before.map FieldUpdate.field ∧ (before.map FieldUpdate.field).Nodup

/-- The search for a repeated field, when some fields have been seen already. -/
theorem repeatedField?_eq_some_iff {seen : List String} (hseen : seen.Nodup) (us : List FieldUpdate)
    (field : String) :
    repeatedField? seen us = some field ↔
      ∃ before u behind, us = before ++ u :: behind ∧ u.field = field ∧
        field ∈ before.map FieldUpdate.field ++ seen ∧
          (before.map FieldUpdate.field ++ seen).Nodup := by
  induction us generalizing seen with
  | nil =>
    refine iff_of_false (fun h => by cases h) ?_
    rintro ⟨before, u, behind, h, -⟩
    simp at h
  | cons first rest ih =>
    -- the fields seen so far are in reverse order: only who is among them and how often carries
    -- over
    have hmove (before : List FieldUpdate) :
        ((first :: before).map FieldUpdate.field ++ seen).Perm
          (before.map FieldUpdate.field ++ first.field :: seen) :=
      List.perm_middle.symm
    rw [repeatedField?]
    split
    · next hmem =>
      constructor
      · intro h
        cases h
        exact ⟨[], first, rest, rfl, rfl, hmem, hseen⟩
      · rintro ⟨before, u, behind, h, rfl, -, hnodup⟩
        cases before with
        | nil =>
          cases h
          rfl
        | cons other before =>
          cases h
          exact absurd (List.mem_append_right _ hmem) (List.nodup_cons.1 hnodup).1
    · next hmem =>
      rw [ih (List.nodup_cons.2 ⟨hmem, hseen⟩)]
      constructor
      · rintro ⟨before, u, behind, rfl, hfield, hmem', hnodup⟩
        exact ⟨first :: before, u, behind, rfl, hfield, (hmove before).mem_iff.2 hmem',
          (hmove before).nodup_iff.2 hnodup⟩
      · rintro ⟨before, u, behind, h, hfield, hmem', hnodup⟩
        cases before with
        | nil =>
          cases h
          exact absurd (hfield ▸ hmem') hmem
        | cons other before =>
          cases h
          exact ⟨before, u, behind, rfl, hfield, (hmove before).mem_iff.1 hmem',
            (hmove before).nodup_iff.1 hnodup⟩

theorem repeatedField?_eq_none_iff {seen : List String} (hseen : seen.Nodup)
    (us : List FieldUpdate) :
    repeatedField? seen us = none ↔ (us.map FieldUpdate.field ++ seen).Nodup := by
  induction us generalizing seen with
  | nil => exact iff_of_true rfl hseen
  | cons first rest ih =>
    rw [repeatedField?]
    split
    · next hmem =>
      refine iff_of_false (fun h => by cases h) fun hnodup => ?_
      exact absurd (List.mem_append_right _ hmem) (List.nodup_cons.1 hnodup).1
    · next hmem =>
      rw [ih (List.nodup_cons.2 ⟨hmem, hseen⟩)]
      exact List.perm_middle.nodup_iff

/-- An action as it reads with its own field and operand. -/
def Action.direct (field : String) : Action → List Piece
  | set v => plain field ++ plain " = " ++ [.value v]
  | append items =>
    plain field ++ plain " = list_append(if_not_exists(" ++ plain field ++ plain ", " ++
      [.value (.list [])] ++ plain "), " ++ [.value (.list items)] ++ plain ")"
  | prepend items =>
    plain field ++ plain " = list_append(" ++ [.value (.list items)] ++ plain ", if_not_exists(" ++
      plain field ++ plain ", " ++ [.value (.list [])] ++ plain "))"
  | remove => plain field
  | add v | delete v => plain field ++ plain " " ++ [.value v]

def FieldUpdate.direct (u : FieldUpdate) : List Piece := u.action.direct u.field

/-- A clause as it reads with all updates of its kind. -/
def Clause.direct (updates : List FieldUpdate) (clause : Clause) : List Piece :=
  plain (clause.name ++ " ") ++ (plain ", ").intercalate
    ((updates.filter (·.action.clause = clause)).map FieldUpdate.direct)

/-- What the bindings of a request mean. -/
def Scope.meaning (s : Scope) : Meaning := ⟨s.names.get?, s.values.get?⟩

/-- The clauses that have updates, in the order in which they are written. -/
def usedClauses (updates : List FieldUpdate) (clauses : List Clause) : List Clause :=
  clauses.filter fun clause => updates.any (·.action.clause = clause)

namespace Binder

/-- Binds the two placeholders of a list operation: the empty list, and the elements. -/
def bindList (b : Binder) (items : List AttributeValue) : Binder :=
  (b.tick.2.bindAs (":empty" ++ toString b.next) (.list [])).bindAs (":items" ++ toString b.next)
    (.list items)

variable (r : Resolver) (b : Binder) (items : List AttributeValue)

theorem bindList_accounts :
    Accounts r b [":empty" ++ toString b.next, ":items" ++ toString b.next] r
      (b.bindList items) := by
  have hempty : IsValueRef (":empty" ++ toString b.next) := isValueRef_numbered (by decide) b.next
  have hitems : IsValueRef (":items" ++ toString b.next) := isValueRef_numbered (by decide) b.next
  have hfirst := (b.tick_accounts r).append (b.tick.2.bindAs_accounts r hempty (.list []))
  exact hfirst.append (bindAs_accounts r _ hitems (.list items))

theorem bindList_standsFor :
    StandsFor r b [":empty" ++ toString b.next, ":items" ++ toString b.next]
      [[.value (.list [])], [.value (.list items)]] r (b.bindList items) := by
  have hempty : IsValueRef (":empty" ++ toString b.next) := isValueRef_numbered (by decide) b.next
  have hitems : IsValueRef (":items" ++ toString b.next) := isValueRef_numbered (by decide) b.next
  have hfirst := (b.tick_standsFor r).append (b.tick.2.bindAs_standsFor r hempty (.list []))
  exact hfirst.append (bindAs_standsFor r _ hitems (.list items))

variable {b}

theorem Numbered.bindList (h : b.Numbered) : (b.bindList items).Numbered := by
  have hnodup : [":empty", ":items"].Nodup := by decide
  refine h.take hnodup (by decide) rfl ?_
  show ((b.bound ++ [_]) ++ [_]).map Prod.fst = _
  rw [List.append_assoc, List.map_append]
  rfl

end Binder

namespace Action

def placeholders (b : Binder) : Action → List String
  | remove => []
  | set _ | add _ | delete _ => [b.stem ++ toString b.next]
  | append _ | prepend _ => [":empty" ++ toString b.next, ":items" ++ toString b.next]

def operands : Action → List AttributeValue
  | remove => []
  | set v | add v | delete v => [v]
  | append items | prepend items => [.list [], .list items]

section Render

variable (action : Action) (r : Resolver) {b : Binder} (name : String)

theorem placeholders_accounts (hstem : Binder.IsStem b.stem) :
    Accounts r b (action.placeholders b) r (action.render name b).2 := by
  cases action with
  | remove => exact .nil r b
  | set v | add v | delete v => exact Binder.bind_accounts r hstem v
  | append items | prepend items => exact b.bindList_accounts r items

theorem placeholders_standsFor (hstem : Binder.IsStem b.stem) :
    StandsFor r b (action.placeholders b) (action.operands.map fun v => [.value v]) r
      (action.render name b).2 := by
  cases action with
  | remove => exact .nil r b
  | set v | add v | delete v => exact Binder.bind_standsFor r hstem v
  | append items | prepend items => exact b.bindList_standsFor r items

theorem render_numbered (hstem : Binder.EndsStem b.stem) (h : b.Numbered) :
    (action.render name b).2.Numbered := by
  cases action with
  | remove => exact h
  | set v | add v | delete v => exact h.bind hstem v
  | append items | prepend items => exact h.bindList items

variable (b)

theorem mem_refs_render {sign : Char} (hsign : IsSign sign) (key : String) :
    key ∈ refs sign (action.render name b).1 ↔
      ∃ text ∈ name :: action.placeholders b, key ∈ refs sign text := by
  cases action with
  | remove => simp [render, placeholders]
  | set v | add v | delete v =>
    show key ∈ refs sign (name ++ _ ++ (b.stem ++ toString b.next)) ↔ _
    rw [refs_separated hsign (by decide)]
    simp [placeholders]
  | append items =>
    show key ∈ refs sign (name ++ _ ++ name ++ ", " ++ (":empty" ++ toString b.next) ++ "), " ++
      (":items" ++ toString b.next) ++ ")") ↔ _
    rw [refs_closed hsign (by decide), refs_separated hsign (by decide),
      refs_separated hsign (by decide), refs_separated hsign (by decide)]
    simp [placeholders]
  | prepend items =>
    show key ∈ refs sign (name ++ _ ++ (":items" ++ toString b.next) ++ ", if_not_exists(" ++
      name ++ ", " ++ (":empty" ++ toString b.next) ++ "))") ↔ _
    rw [refs_closed hsign (by decide), refs_separated hsign (by decide),
      refs_separated hsign (by decide), refs_separated hsign (by decide)]
    simp only [placeholders, List.mem_append, List.mem_cons]
    grind

/-- A written action means the action if its name and its placeholders mean what they stand for. -/
theorem expand_render {m : Meaning} {field : String} (hname : expand m name = plain field)
    (hoperands : (action.placeholders b).map (expand m) = action.operands.map fun v => [.value v]) :
    expand m (action.render name b).1 = action.direct field := by
  cases action with
  | remove => exact hname
  | set v | add v | delete v =>
    have hvalue : expand m (b.stem ++ toString b.next) = [.value v] := (List.cons.inj hoperands).1
    show expand m (name ++ _ ++ (b.stem ++ toString b.next)) = _
    rw [expand_separated (by decide), hname, hvalue, direct]
  | append items =>
    obtain ⟨hempty, hrest⟩ := List.cons.inj hoperands
    have hitems := (List.cons.inj hrest).1
    show expand m (name ++ _ ++ name ++ ", " ++ (":empty" ++ toString b.next) ++ "), " ++
      (":items" ++ toString b.next) ++ ")") = _
    rw [expand_closed (by decide), expand_separated (by decide), expand_separated (by decide),
      expand_separated (by decide), hname, hempty, hitems, direct]
  | prepend items =>
    obtain ⟨hempty, hrest⟩ := List.cons.inj hoperands
    have hitems := (List.cons.inj hrest).1
    show expand m (name ++ _ ++ (":items" ++ toString b.next) ++ ", if_not_exists(" ++ name ++
      ", " ++ (":empty" ++ toString b.next) ++ "))") = _
    rw [expand_closed (by decide), expand_separated (by decide), expand_separated (by decide),
      expand_separated (by decide), hname, hempty, hitems, direct]

end Render

end Action

/-- What is known of the texts that are written for updates. -/
structure Records (r : Resolver) (b : Binder) (texts : List String) (meanings : List (List Piece))
    (r' : Resolver) (b' : Binder) : Prop where
  accounts : Accounts r b texts r' b'
  standsFor : StandsFor r b texts meanings r' b'
  numbered : b.Numbered → b'.Numbered

namespace Records

variable {r r' r'' : Resolver} {b b' b'' : Binder} {texts texts' : List String}
  {meanings meanings' : List (List Piece)}

theorem nil (r : Resolver) (b : Binder) : Records r b [] [] r b := ⟨.nil r b, .nil r b, id⟩

theorem append (h : Records r b texts meanings r' b')
    (h' : Records r' b' texts' meanings' r'' b'') :
    Records r b (texts ++ texts') (meanings ++ meanings') r'' b'' where
  accounts := h.accounts.append h'.accounts
  standsFor := h.standsFor.append h'.standsFor
  numbered := fun hnumbered => h'.numbered (h.numbered hnumbered)

end Records

/-- An update is written as it reads, and accounts for its name and its operand. -/
theorem FieldUpdate.records (u : FieldUpdate) (r : Resolver) {b : Binder}
    (hfield : HasNoSign u.field.toList) (hstem : b.stem = updateBinder.stem) :
    Records r b [(u.action.render (r.path u.field).1 b).1] [u.direct] (r.path u.field).2
      (u.action.render (r.path u.field).1 b).2 := by
  have hval : Binder.IsStem b.stem := by
    rw [hstem]
    decide
  have hends : Binder.EndsStem b.stem := by
    rw [hstem]
    decide
  constructor
  case accounts =>
    have hboth := (r.path_accounts b hfield).append
      (u.action.placeholders_accounts (r.path u.field).2 (r.path u.field).1 hval)
    refine hboth.of_refs fun sign hsign key => ?_
    simp only [List.mem_singleton, exists_eq_left]
    exact u.action.mem_refs_render b (r.path u.field).1 hsign key
  case standsFor =>
    have hboth := (r.path_standsFor b hfield).append
      (u.action.placeholders_standsFor (r.path u.field).2 (r.path u.field).1 hval)
    refine hboth.join fun m hmeant => ?_
    obtain ⟨hname, hoperands⟩ := List.cons.inj hmeant
    exact u.action.expand_render b (r.path u.field).1 hname hoperands
  case numbered => exact u.action.render_numbered (r.path u.field).1 hends

theorem renderUpdates_records (r : Resolver) {b : Binder} (us : List FieldUpdate)
    (hfields : ∀ u ∈ us, HasNoSign u.field.toList) (hstem : b.stem = updateBinder.stem) :
    Records r b (renderUpdates r b us).1 (us.map FieldUpdate.direct) (renderUpdates r b us).2.1
      (renderUpdates r b us).2.2 := by
  induction us generalizing r b with
  | nil => exact .nil r b
  | cons u rest ih =>
    have hfirst := u.records r (hfields u List.mem_cons_self) hstem
    have hrest := ih (r.path u.field).2 (fun u hu => hfields u (List.mem_cons_of_mem _ hu))
      (hfirst.accounts.stem.trans hstem)
    exact hfirst.append hrest

/-- A text is a clause: its word, and its updates in their order, each as it reads. -/
def Clause.IsWritten (m : Meaning) (updates : List FieldUpdate) (clause : Clause) (text : String) :
    Prop :=
  ∃ parts, text = clause.name ++ " " ++ Text.joinWith ", " parts ∧
    parts.map (expand m) = (updates.filter (·.action.clause = clause)).map FieldUpdate.direct

theorem Clause.IsWritten.expand {m : Meaning} {updates : List FieldUpdate} {clause : Clause}
    {text : String} (h : clause.IsWritten m updates text) :
    Expression.expand m text = clause.direct updates := by
  obtain ⟨parts, rfl, hparts⟩ := h
  have hnone : HasNoSign (clause.name ++ " ").toList := by cases clause <;> decide
  rw [expand_plain_append hnone, expand_joinWith (by decide), hparts, direct]

theorem Clause.map_expand {m : Meaning} {updates : List FieldUpdate} {clauses : List Clause}
    {texts : List String} (h : List.Forall₂ (Clause.IsWritten m updates) clauses texts) :
    texts.map (Expression.expand m) = clauses.map (Clause.direct updates) := by
  induction h with
  | nil => rfl
  | cons hclause _ ih => rw [List.map_cons, List.map_cons, hclause.expand, ih]

theorem usedClauses_cons (updates : List FieldUpdate) (clause : Clause) (rest : List Clause) :
    usedClauses updates (clause :: rest) =
      if (updates.filter (·.action.clause = clause)).isEmpty then usedClauses updates rest
      else clause :: usedClauses updates rest := by
  have hany : updates.any (·.action.clause = clause) =
      !(updates.filter (·.action.clause = clause)).isEmpty := by
    rw [Bool.eq_iff_iff]
    simp
  rw [usedClauses, List.filter_cons, hany]
  cases (updates.filter (·.action.clause = clause)).isEmpty <;> rfl

theorem renderClauses_cons (updates : List FieldUpdate) (r : Resolver) (b : Binder)
    (clause : Clause) (rest : List Clause) :
    renderClauses updates r b (clause :: rest) =
      (let own := updates.filter (·.action.clause = clause)
      let written := renderUpdates r b own
      let others := renderClauses updates written.2.1 written.2.2 rest
      (if own.isEmpty then others.1
        else (clause.name ++ " " ++ Text.joinWith ", " written.1) :: others.1, others.2)) := by
  rw [renderClauses]
  cases updates.filter (·.action.clause = clause) <;> rfl

/-- Clauses without updates are left out, and the others are written with all their updates. -/
theorem renderClauses_written {updates : List FieldUpdate}
    (hfields : ∀ u ∈ updates, HasNoSign u.field.toList) (clauses : List Clause) (r : Resolver)
    {b : Binder} (hstem : b.stem = updateBinder.stem) (hnumbered : b.Numbered) :
    Accounts r b (renderClauses updates r b clauses).1 (renderClauses updates r b clauses).2.1
      (renderClauses updates r b clauses).2.2 ∧
    b.bound <+: (renderClauses updates r b clauses).2.2.bound ∧
    (renderClauses updates r b clauses).2.2.Numbered ∧
    ∀ m : Meaning, m.Covers (renderClauses updates r b clauses).2.1
      (renderClauses updates r b clauses).2.2 →
        List.Forall₂ (Clause.IsWritten m updates) (usedClauses updates clauses)
          (renderClauses updates r b clauses).1 := by
  induction clauses generalizing r b with
  | nil => exact ⟨.nil r b, List.prefix_rfl, hnumbered, fun _ _ => .nil⟩
  | cons clause rest ih =>
    rw [renderClauses_cons, usedClauses_cons]
    cases hown : updates.filter (·.action.clause = clause) with
    | nil => exact ih r hstem hnumbered
    | cons first others =>
      have hus := renderUpdates_records r (first :: others)
        (fun u hu => hfields u (List.mem_of_mem_filter (hown ▸ hu))) hstem
      obtain ⟨haccounts, hbound, hnumbered', hmeant⟩ := ih _ (hus.accounts.stem.trans hstem)
        (hus.numbered hnumbered)
      -- a clause is read with the bindings of all clauses, which cover its own
      refine ⟨?_, hus.standsFor.bound.trans hbound, hnumbered', fun m hm => .cons ?_ (hmeant m hm)⟩
      · have hnone : HasNoSign (clause.name ++ " ").toList := by cases clause <;> decide
        refine (hus.accounts.join fun sign hsign => ?_).append haccounts
        rw [refs_append_of_not_mem (hnone.not_mem hsign), refs_joinWith hsign (by decide)]
      · refine ⟨_, rfl, ?_⟩
        rw [hown]
        exact hus.standsFor.meant m (hm.mono haccounts.grows hbound)

namespace Update

variable {u : Update}

theorem plan_eq_noUpdates_iff : u.plan = .error .noUpdates ↔ u.updates = [] := by
  unfold plan
  by_cases h : u.updates = []
  · rw [if_pos (List.isEmpty_iff.2 h)]
    exact iff_of_true rfl h
  · rw [if_neg fun hempty => h (List.isEmpty_iff.1 hempty)]
    refine iff_of_false (fun herror => ?_) h
    split at herror <;> cases herror

theorem plan_eq_overlappingUpdate_iff (field : String) :
    u.plan = .error (.overlappingUpdate field) ↔ IsFirstRepeated field u.updates := by
  have hsearch := repeatedField?_eq_some_iff List.nodup_nil u.updates field
  simp only [List.append_nil] at hsearch
  rw [IsFirstRepeated, ← hsearch]
  unfold plan
  by_cases h : u.updates = []
  · rw [if_pos (List.isEmpty_iff.2 h), h]
    exact iff_of_false (fun herror => by cases herror) (fun hsome => by cases hsome)
  · rw [if_neg fun hempty => h (List.isEmpty_iff.1 hempty)]
    split
    · next other hother =>
      rw [hother]
      constructor
      · intro herror
        cases herror
        rfl
      · intro hsome
        cases hsome
        rfl
    · next hnone =>
      rw [hnone]
      exact iff_of_false (fun herror => by cases herror) (fun hsome => by cases hsome)

theorem exists_overlappingUpdate_iff :
    (∃ field, u.plan = .error (.overlappingUpdate field)) ↔
      ¬(u.updates.map FieldUpdate.field).Nodup := by
  have hnone := repeatedField?_eq_none_iff List.nodup_nil u.updates
  rw [List.append_nil] at hnone
  rw [← hnone, ← ne_eq, Option.ne_none_iff_exists']
  refine exists_congr fun field => ?_
  rw [plan_eq_overlappingUpdate_iff, repeatedField?_eq_some_iff List.nodup_nil]
  simp only [List.append_nil]
  rfl

def clauses (u : Update) : List String × Resolver × Binder :=
  renderClauses u.updates { passthrough := u.passthrough } updateBinder Clause.all

theorem plan_eq_ok (hsome : u.updates ≠ []) (hnodup : (u.updates.map FieldUpdate.field).Nodup) :
    u.plan = .ok {
      update := Text.joinWith " " u.clauses.1
      scope := { names := u.clauses.2.1.names, values := u.clauses.2.2.values } } := by
  have hnone : repeatedField? [] u.updates = none := by
    rwa [repeatedField?_eq_none_iff List.nodup_nil, List.append_nil]
  unfold plan
  rw [if_neg fun hempty => hsome (List.isEmpty_iff.1 hempty), hnone]
  rfl

theorem plan_eq_ok_iff {plan : UpdatePlan} :
    u.plan = .ok plan ↔ u.updates ≠ [] ∧ (u.updates.map FieldUpdate.field).Nodup ∧
      plan = {
        update := Text.joinWith " " u.clauses.1
        scope := { names := u.clauses.2.1.names, values := u.clauses.2.2.values } } := by
  constructor
  · intro h
    have hsome : u.updates ≠ [] := fun hempty => by
      rw [plan_eq_noUpdates_iff.2 hempty] at h
      cases h
    have hnodup : (u.updates.map FieldUpdate.field).Nodup := by
      by_contra hrepeated
      obtain ⟨field, hfield⟩ := exists_overlappingUpdate_iff.2 hrepeated
      rw [hfield] at h
      cases h
    rw [plan_eq_ok hsome hnodup] at h
    exact ⟨hsome, hnodup, (Except.ok.inj h).symm⟩
  · rintro ⟨hsome, hnodup, rfl⟩
    exact plan_eq_ok hsome hnodup

/-- An update with different fields compiles to its clauses. -/
theorem plan_of_nodup (hfields : ∀ recorded ∈ u.updates, HasNoSign recorded.field.toList)
    (hsome : u.updates ≠ []) (hnodup : (u.updates.map FieldUpdate.field).Nodup) :
    ∃ plan clauses, u.plan = .ok plan ∧ plan.condition = none ∧
      plan.update = Text.joinWith " " clauses ∧
      List.Forall₂ (Clause.IsWritten plan.scope.meaning u.updates)
        (usedClauses u.updates Clause.all) clauses ∧
      expand plan.scope.meaning plan.update =
        (plain " ").intercalate ((usedClauses u.updates Clause.all).map (Clause.direct u.updates)) ∧
      BindsExactly [plan.update] plan.scope.names plan.scope.values := by
  obtain ⟨haccounts, -, hnumbered, hmeant⟩ : Accounts _ updateBinder u.clauses.1 _ _ ∧ _ :=
    renderClauses_written hfields Clause.all { passthrough := u.passthrough } rfl (.start ":val" 1)
  have hwritten := hmeant _ (hnumbered.covers _)
  refine ⟨_, u.clauses.1, plan_eq_ok hsome hnodup, rfl, rfl, hwritten, ?_, ?_⟩
  · rw [expand_joinWith (by decide)]
    exact congrArg _ (Clause.map_expand hwritten)
  · exact (haccounts.join fun sign hsign => refs_joinWith hsign (by decide) _).bindsExactly

/-- **An update compiles to what has been recorded.** It is refused if nothing is recorded, or for
the first field that repeats an earlier one. Otherwise its text is the used clauses in their order,
each with all its updates in theirs, it means what the updates say, and it binds exactly what it
refers to. -/
theorem plan_recorded {calls : List UpdateCall} (hcalls : Update.built calls = .ok u) :
    u.updates = calls.filterMap UpdateCall.recorded? ∧
    (u.plan = .error .noUpdates ↔ u.updates = []) ∧
    ((∃ field, u.plan = .error (.overlappingUpdate field)) ↔
      ¬(u.updates.map FieldUpdate.field).Nodup) ∧
    (∀ field, u.plan = .error (.overlappingUpdate field) ↔ IsFirstRepeated field u.updates) ∧
    (u.updates ≠ [] → (u.updates.map FieldUpdate.field).Nodup →
      ∃ plan clauses, u.plan = .ok plan ∧ plan.condition = none ∧
        plan.update = Text.joinWith " " clauses ∧
        List.Forall₂ (Clause.IsWritten plan.scope.meaning u.updates)
          (usedClauses u.updates Clause.all) clauses ∧
        expand plan.scope.meaning plan.update =
          (plain " ").intercalate
            ((usedClauses u.updates Clause.all).map (Clause.direct u.updates)) ∧
        BindsExactly [plan.update] plan.scope.names plan.scope.values) :=
  ⟨recorded_built hcalls, plan_eq_noUpdates_iff, exists_overlappingUpdate_iff,
    plan_eq_overlappingUpdate_iff, plan_of_nodup (checked_built hcalls)⟩

end Update

/-- Calls of all kinds, with clauses and list operations in turns and some names that are
reserved. -/
def mixedUpdateCalls : List UpdateCall :=
  [.append "name" (.list [.text "a", .number "1"]), .increment "age" (.number "2"),
    .leaveAlone ["value"], .set "status" (.text "x"), .remove "value",
    .decrement "total" (.number "+1.5"),
    .delete "tags" (.textSet ["u"]), .prepend "log" (.text "z")]

theorem mixedUpdateCalls_means :
    ∃ u plan, Update.built mixedUpdateCalls = .ok u ∧ u.plan = .ok plan ∧
      u.updates =
        [⟨"name", .append [.text "a", .number "1"]⟩, ⟨"age", .add (.number "2")⟩,
          ⟨"status", .set (.text "x")⟩, ⟨"value", .remove⟩, ⟨"total", .add (.number "-1.5")⟩,
          ⟨"tags", .delete (.textSet ["u"])⟩, ⟨"log", .prepend [.text "z"]⟩] ∧
      plan.update =
        "SET #n0 = list_append(if_not_exists(#n0, :empty1), :items1), #n1 = :val2, " ++
          "#n2 = list_append(:items3, if_not_exists(#n2, :empty3)) " ++
          "REMOVE value ADD age :val4, #n3 :val5 DELETE tags :val6" ∧
      expand plan.scope.meaning plan.update =
        (plain " ").intercalate (Clause.all.map (Clause.direct u.updates)) ∧
      BindsExactly [plan.update] plan.scope.names plan.scope.values := by
  obtain ⟨u, hcalls, hupdate⟩ : ∃ u, Update.built mixedUpdateCalls = .ok u ∧
      (u.plan.toOption.map UpdatePlan.update) = some
        ("SET #n0 = list_append(if_not_exists(#n0, :empty1), :items1), #n1 = :val2, " ++
          "#n2 = list_append(:items3, if_not_exists(#n2, :empty3)) " ++
          "REMOVE value ADD age :val4, #n3 :val5 DELETE tags :val6") :=
    ⟨_, rfl, by decide +kernel⟩
  obtain ⟨hrecorded, -, -, -, hsuccess⟩ := Update.plan_recorded hcalls
  have hfields : u.updates.map FieldUpdate.field =
      ["name", "age", "status", "value", "total", "tags", "log"] := by
    rw [hrecorded]
    decide
  obtain ⟨plan, clauses, hplan, -, -, -, hmeans, hexact⟩ := hsuccess
    (fun hnil => by rw [hnil] at hfields; cases hfields) (by rw [hfields]; decide)
  have hused : usedClauses u.updates Clause.all = Clause.all := by
    rw [hrecorded]
    decide
  rw [hused] at hmeans
  rw [hplan] at hupdate
  exact ⟨u, plan, hcalls, hplan, hrecorded, Option.some.inj hupdate, hmeans, hexact⟩

end ItemTable.Expression
