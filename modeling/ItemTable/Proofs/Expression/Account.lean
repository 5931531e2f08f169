import ItemTable.Expression.Scan
import ItemTable.Proofs.Expression.Fragment

/-!
# What written texts account for

Writing texts adds names to a resolver and values to a binder. `Accounts` says that what has been
added is exactly what the texts refer to: nothing that they refer to is missing, and nothing is
there that none of them refers to. Paths, projections, conditions and tests for presence are all
written that way.
-/
namespace ItemTable.Expression

/-- The names and the values after texts have been written are those before and those that the texts
refer to. -/
structure Accounts (r : Resolver) (b : Binder) (texts : List String) (r' : Resolver) (b' : Binder) :
    Prop where
  passthrough : r'.passthrough = r.passthrough
  grows : r.Extends r'
  stem : b'.stem = b.stem
  names : ∀ key, key ∈ r'.names.keys ↔ key ∈ r.names.keys ∨ ∃ text ∈ texts, key ∈ refs '#' text
  values : ∀ key, key ∈ b'.values.keys ↔ key ∈ b.values.keys ∨ ∃ text ∈ texts, key ∈ refs ':' text

namespace Accounts

variable {r r' r'' : Resolver} {b b' b'' : Binder} {texts texts' : List String}

theorem nil (r : Resolver) (b : Binder) : Accounts r b [] r b where
  passthrough := rfl
  grows := .refl r
  stem := rfl
  names := by simp
  values := by simp

theorem append (h : Accounts r b texts r' b') (h' : Accounts r' b' texts' r'' b'') :
    Accounts r b (texts ++ texts') r'' b'' where
  passthrough := h'.passthrough.trans h.passthrough
  grows := h.grows.trans h'.grows
  stem := h'.stem.trans h.stem
  names := by
    intro key
    rw [h'.names, h.names, or_assoc]
    simp only [List.mem_append, or_and_right, exists_or]
  values := by
    intro key
    rw [h'.values, h.values, or_assoc]
    simp only [List.mem_append, or_and_right, exists_or]

/-- Other texts account for the same things if they refer to the same things. -/
theorem of_refs (h : Accounts r b texts r' b')
    (hrefs : ∀ sign, IsSign sign → ∀ key,
      (∃ text ∈ texts', key ∈ refs sign text) ↔ ∃ text ∈ texts, key ∈ refs sign text) :
    Accounts r b texts' r' b' where
  passthrough := h.passthrough
  grows := h.grows
  stem := h.stem
  names := fun key => by rw [h.names, hrefs '#' (.inl rfl)]
  values := fun key => by rw [h.values, hrefs ':' (.inr rfl)]

/-- One text may stand for several that refer to the same things. -/
theorem join (h : Accounts r b texts r' b') {text : String}
    (hrefs : ∀ sign, IsSign sign → refs sign text = texts.flatMap (refs sign)) :
    Accounts r b [text] r' b' :=
  h.of_refs fun sign hsign key => by
    rw [← List.mem_flatMap, ← List.mem_flatMap, List.flatMap_singleton, hrefs sign hsign]

theorem mem_keys {key : String} (h : Accounts r b [key] r' b') (hkey : IsValueRef key) :
    key ∈ b'.values.keys := by
  refine (h.values key).2 (.inr ⟨key, List.mem_singleton.2 rfl, ?_⟩)
  rw [(refs_valueRef hkey).1]
  exact List.mem_singleton.2 rfl

theorem of_hasNoSign (r : Resolver) (b : Binder) {text : String} (h : HasNoSign text.toList) :
    Accounts r b [text] r b :=
  (nil r b).join fun _ hsign => refs_of_not_mem (h.not_mem hsign)

end Accounts

/-- Bindings of exactly what texts refer to. -/
structure BindsExactly (texts : List String) (names : Bindings String)
    (values : Bindings AttributeValue) : Prop where
  names : ∀ key, key ∈ names.keys ↔ ∃ text ∈ texts, key ∈ nameRefs text
  values : ∀ key, key ∈ values.keys ↔ ∃ text ∈ texts, key ∈ valueRefs text

/-- What starts with no bindings ends with those of its texts. -/
theorem Accounts.bindsExactly {passthrough : List String} {stem : String} {next : Nat}
    {r : Resolver} {b : Binder} {texts : List String}
    (h : Accounts { passthrough } { stem, next } texts r b) :
    BindsExactly texts r.names b.values where
  names := by
    intro key
    have hnone : key ∉ ({ passthrough } : Resolver).names.keys := List.not_mem_nil
    simp only [nameRefs_eq]
    rw [h.names, or_iff_right hnone]
  values := by
    intro key
    have hnone : key ∉ (Binder.values { stem, next }).keys := List.not_mem_nil
    simp only [valueRefs_eq]
    rw [h.values, or_iff_right hnone]

theorem Binder.mem_keys_values (b : Binder) (key : String) :
    key ∈ b.values.keys ↔ key ∈ b.bound.map Prod.fst :=
  Bindings.mem_keys_ofList _ _

namespace Resolver

variable (b : Binder)

theorem placeholder_accounts (r : Resolver) (name : String) {tail : List Char}
    (hnone : HasNoSign tail) (hapart : IsApart tail) :
    Accounts r b [String.ofList ((r.placeholder name).1.toList ++ tail)]
      (r.placeholder name).2 b := by
  obtain ⟨hname, hvalue⟩ := r.refs_placeholder name hnone hapart
  constructor
  case passthrough => exact r.placeholder_passthrough name
  case grows => exact (r.placeholder_eq name).1
  case stem => rfl
  case names =>
    intro key
    simp only [mem_keys_placeholder, List.mem_singleton, exists_eq_left, hname]
  case values =>
    intro key
    simp only [List.mem_singleton, exists_eq_left, hvalue, List.not_mem_nil, or_false]

theorem segment_accounts (r : Resolver) {s : List Char} (h : HasNoSign s) :
    Accounts r b [String.ofList (r.segment s).1] (r.segment s).2 b := by
  simp only [segment]
  split
  · exact .of_hasNoSign r b (by rwa [String.toList_ofList])
  · have hnone : HasNoSign (s.dropWhile (· ≠ '[')) := fun c hc =>
      h c ((List.dropWhile_sublist _).subset hc)
    exact r.placeholder_accounts b _ hnone (isApart_dropWhile s)

theorem segments_accounts (r : Resolver) (ss : List (List Char)) (h : ∀ s ∈ ss, HasNoSign s) :
    Accounts r b (r.segments ss).1 (r.segments ss).2 b := by
  induction ss generalizing r with
  | nil => exact .nil r b
  | cons s rest ih =>
    have hfirst := r.segment_accounts b (h s List.mem_cons_self)
    have hrest := ih (r.segment s).2 fun s hs => h s (List.mem_cons_of_mem _ hs)
    exact hfirst.append hrest

theorem path_accounts (r : Resolver) {p : String} (h : HasNoSign p.toList) :
    Accounts r b [(r.path p).1] (r.path p).2 b := by
  have hall := r.segments_accounts b (Text.splitAt '.' p.toList) fun s hs c hc =>
    h c (Text.mem_of_mem_splitAt hs hc)
  exact hall.join fun _ hsign => refs_joinWith hsign (by decide) _

theorem paths_accounts (r : Resolver) (ps : List String) (h : ∀ p ∈ ps, HasNoSign p.toList) :
    Accounts r b (r.paths ps).1 (r.paths ps).2 b := by
  induction ps generalizing r with
  | nil => exact .nil r b
  | cons p rest ih =>
    have hfirst := r.path_accounts b (h p List.mem_cons_self)
    have hrest := ih (r.path p).2 fun p hp => h p (List.mem_cons_of_mem _ hp)
    exact hfirst.append hrest

theorem projection_accounts (r : Resolver) {fields : List String}
    (h : ∀ p ∈ fields, HasNoSign p.toList) :
    Accounts r b [(r.projection fields).1] (r.projection fields).2 b :=
  (r.paths_accounts b fields h).join fun _ hsign => refs_joinWith hsign (by decide) _

end Resolver

namespace Binder

variable (r : Resolver) (b : Binder)

theorem tick_accounts : Accounts r b [] r b.tick.2 where
  passthrough := rfl
  grows := .refl r
  stem := rfl
  names := by simp
  values := by simp [mem_keys_values, tick]

theorem bindAs_accounts {key : String} (hkey : IsValueRef key) (v : AttributeValue) :
    Accounts r b [key] r (b.bindAs key v) := by
  obtain ⟨hvalue, hname⟩ := refs_valueRef hkey
  constructor
  case passthrough => rfl
  case grows => exact .refl r
  case stem => rfl
  case names =>
    intro key'
    simp only [List.mem_singleton, exists_eq_left, hname, List.not_mem_nil, or_false]
  case values =>
    intro key'
    simp only [List.mem_singleton, exists_eq_left, hvalue, mem_keys_values, bindAs, List.map_append,
      List.map_cons, List.map_nil, List.mem_append]

variable {b}

/-- A placeholder that is bound already accounts for nothing new. -/
theorem known_accounts {key : String} (hkey : IsValueRef key) (hbound : key ∈ b.values.keys) :
    Accounts r b [key] r b := by
  obtain ⟨hvalue, hname⟩ := refs_valueRef hkey
  constructor
  case passthrough => rfl
  case grows => exact .refl r
  case stem => rfl
  case names =>
    intro key'
    simp only [List.mem_singleton, exists_eq_left, hname, List.not_mem_nil, or_false]
  case values =>
    intro key'
    simp only [List.mem_singleton, exists_eq_left, hvalue]
    exact (or_iff_left_of_imp fun heq => heq ▸ hbound).symm

theorem bind_accounts (hstem : IsStem b.stem) (v : AttributeValue) :
    Accounts r b [(b.bind v).1] r (b.bind v).2 :=
  (b.tick_accounts r).append (b.tick.2.bindAs_accounts r (isValueRef_numbered hstem b.next) v)

theorem bindAll_accounts (hstem : IsStem b.stem) (vs : List AttributeValue) :
    Accounts r b (b.bindAll vs).1 r (b.bindAll vs).2 := by
  induction vs generalizing b with
  | nil => exact .nil r b
  | cons v rest ih => exact (bind_accounts r hstem v).append (ih (b := (b.bind v).2) hstem)

end Binder

theorem Condition.render_accounts (c : Condition) (r : Resolver) {b : Binder}
    (hfield : HasNoSign c.field.toList) (hstem : Binder.IsStem b.stem) :
    Accounts r b [(c.render r b).1] (c.render r b).2.1 (c.render r b).2.2 := by
  have hlength := b.length_bindAll (operands c.test)
  have hname := r.path_accounts b hfield
  have hoperands := Binder.bindAll_accounts (r.path c.field).2 hstem (operands c.test)
  exact (hname.append hoperands).join fun sign hsign => refs_fragment hsign c.test _ hlength

theorem Condition.renderAll_accounts (r : Resolver) {b : Binder} (hstem : Binder.IsStem b.stem)
    (cs : List Condition) (hfields : ∀ c ∈ cs, HasNoSign c.field.toList) :
    Accounts r b (renderAll r b cs).1 (renderAll r b cs).2.1 (renderAll r b cs).2.2 := by
  induction cs generalizing r b with
  | nil => exact .nil r b
  | cons c rest ih =>
    have hfirst := c.render_accounts r (hfields c List.mem_cons_self) hstem
    have hrest := ih (c.render r b).2.1 (hfirst.stem ▸ hstem) fun c hc =>
      hfields c (List.mem_cons_of_mem _ hc)
    exact hfirst.append hrest

theorem Presence.accounts (presence : Presence) (r : Resolver) (b : Binder) {field : String}
    (hfield : HasNoSign field.toList) :
    Accounts r b [presence.name ++ "(" ++ (r.path field).1 ++ ")"] (r.path field).2 b := by
  refine (r.path_accounts b hfield).join fun sign hsign => ?_
  have hnone : HasNoSign (presence.name ++ "(").toList := by cases presence <;> decide
  rw [refs_closed hsign (by decide), refs_append_of_not_mem (hnone.not_mem hsign),
    List.flatMap_singleton]

end ItemTable.Expression
