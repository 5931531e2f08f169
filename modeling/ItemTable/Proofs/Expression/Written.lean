import ItemTable.Proofs.Expression.Expansion
import ItemTable.Proofs.Expression.Fragment

/-!
# What is written for names and values

`StandsFor` says what texts written with a resolver and a binder mean, under every meaning that
covers the two as they are afterwards. Paths stand for themselves, placeholders of values for the
values, and a condition for its direct rendering (`Test.direct`). What a binder with numbered
placeholders binds is such a meaning (`Binder.Numbered.covers`).
-/
namespace ItemTable.Expression

/-- Placeholders stand at least for what a resolver and a binder say. -/
structure Meaning.Covers (m : Meaning) (r : Resolver) (b : Binder) : Prop where
  names : Means r.names m.names
  values : ∀ e ∈ b.bound, m.values e.1 = some e.2

theorem Meaning.Covers.mono {m : Meaning} {r r' : Resolver} {b b' : Binder} (h : m.Covers r' b')
    (hnames : r.Extends r') (hbound : b.bound <+: b'.bound) : m.Covers r b where
  names := fun key name hget => h.names key name (hnames.get?_names hget)
  values := fun e he => h.values e (hbound.subset he)

/-- What texts mean that are written with a resolver and a binder, from before to afterwards. -/
structure StandsFor (r : Resolver) (b : Binder) (texts : List String) (meanings : List (List Piece))
    (r' : Resolver) (b' : Binder) : Prop where
  grows : r.Extends r'
  bound : b.bound <+: b'.bound
  meant : ∀ m : Meaning, m.Covers r' b' → texts.map (expand m) = meanings

namespace StandsFor

variable {r r' r'' : Resolver} {b b' b'' : Binder} {texts texts' : List String}
  {meanings meanings' : List (List Piece)}

theorem nil (r : Resolver) (b : Binder) : StandsFor r b [] [] r b where
  grows := .refl r
  bound := List.prefix_rfl
  meant := fun _ _ => rfl

theorem append (h : StandsFor r b texts meanings r' b')
    (h' : StandsFor r' b' texts' meanings' r'' b'') :
    StandsFor r b (texts ++ texts') (meanings ++ meanings') r'' b'' where
  grows := h.grows.trans h'.grows
  bound := h.bound.trans h'.bound
  meant := fun m hm => by
    rw [List.map_append, h.meant m (hm.mono h'.grows h'.bound), h'.meant m hm]

/-- One text may stand for what several stand for. -/
theorem join (h : StandsFor r b texts meanings r' b') {text : String} {meaning : List Piece}
    (hexpand : ∀ m : Meaning, texts.map (expand m) = meanings → expand m text = meaning) :
    StandsFor r b [text] [meaning] r' b' where
  grows := h.grows
  bound := h.bound
  meant := fun m hm => congrArg (fun p => [p]) (hexpand m (h.meant m hm))

theorem of_hasNoSign (r : Resolver) (b : Binder) {text : String} (h : HasNoSign text.toList) :
    StandsFor r b [text] [plain text] r b :=
  (nil r b).join fun _ _ => expand_of_hasNoSign h

end StandsFor

namespace Resolver

variable (b : Binder)

/-- A placeholder stands for its name, and what follows for itself. -/
theorem placeholder_standsFor (r : Resolver) (name : String) {tail : List Char}
    (hnone : HasNoSign tail) (hapart : IsApart tail) :
    StandsFor r b [String.ofList ((r.placeholder name).1.toList ++ tail)]
      [plain name ++ tail.map .char] (r.placeholder name).2 b := by
  obtain ⟨hgrows, number, htext, hnumber⟩ := r.placeholder_eq name
  rw [← String.toList_ofList (l := tail)] at hnone hapart
  refine ⟨hgrows, List.prefix_rfl, fun m hm => ?_⟩
  have hname : m.names (namePlaceholder number) = some name :=
    hm.names _ _ ((get?_names_eq_some_iff _ _ _).2 ⟨number, rfl, hnumber⟩)
  rw [List.map_singleton, htext, String.ofList_append, String.ofList_toList, expand_append hapart,
    expand_namePlaceholder hname, expand_of_hasNoSign hnone, plain, plain, String.toList_ofList]

theorem segment_standsFor (r : Resolver) {s : List Char} (h : HasNoSign s) :
    StandsFor r b [String.ofList (r.segment s).1] [s.map .char] (r.segment s).2 b := by
  simp only [segment]
  split
  · rw [← String.toList_ofList (l := s)] at h
    have hself := StandsFor.of_hasNoSign r b h
    rwa [plain, String.toList_ofList] at hself
  · have hnone : HasNoSign (s.dropWhile (· ≠ '[')) := fun c hc =>
      h c ((List.dropWhile_sublist _).subset hc)
    have hname := r.placeholder_standsFor b (String.ofList (s.takeWhile (· ≠ '['))) hnone
      (isApart_dropWhile s)
    rwa [plain, String.toList_ofList, ← List.map_append, List.takeWhile_append_dropWhile] at hname

theorem segments_standsFor (r : Resolver) (ss : List (List Char)) (h : ∀ s ∈ ss, HasNoSign s) :
    StandsFor r b (r.segments ss).1 (ss.map (List.map .char)) (r.segments ss).2 b := by
  induction ss generalizing r with
  | nil => exact .nil r b
  | cons s rest ih =>
    have hfirst := r.segment_standsFor b (h s List.mem_cons_self)
    have hrest := ih (r.segment s).2 fun s hs => h s (List.mem_cons_of_mem _ hs)
    exact hfirst.append hrest

/-- A path stands for itself, whichever of its segments are replaced. -/
theorem path_standsFor (r : Resolver) {p : String} (h : HasNoSign p.toList) :
    StandsFor r b [(r.path p).1] [plain p] (r.path p).2 b := by
  have hall := r.segments_standsFor b (Text.splitAt '.' p.toList) fun s hs c hc =>
    h c (Text.mem_of_mem_splitAt hs hc)
  refine hall.join fun m hmeant => ?_
  rw [path, expand_joinWith (by decide), hmeant]
  exact Text.intercalate_splitAt Piece.char '.' p.toList

end Resolver

namespace Binder

/-- What a binder binds is a meaning of its placeholders. -/
theorem Numbered.covers {b : Binder} (h : b.Numbered) (r : Resolver) :
    Meaning.Covers ⟨r.names.get?, b.values.get?⟩ r b where
  names := fun _ _ hget => hget
  values := fun _ he => Bindings.get?_ofList_of_nodup h.distinct he

section StandsFor

variable (r : Resolver) (b : Binder)

theorem tick_standsFor : StandsFor r b [] [] r b.tick.2 :=
  ⟨.refl r, List.prefix_rfl, fun _ _ => rfl⟩

theorem bindAs_standsFor {key : String} (hkey : IsValueRef key) (v : AttributeValue) :
    StandsFor r b [key] [[.value v]] r (b.bindAs key v) := by
  refine ⟨.refl r, List.prefix_append _ _, fun m hm => ?_⟩
  have hvalue : m.values key = some v :=
    hm.values _ (List.mem_append_right _ (List.mem_singleton.2 rfl))
  exact congrArg (fun p => [p]) (expand_valueRef hkey hvalue)

variable {b}

theorem bind_standsFor (hstem : IsStem b.stem) (v : AttributeValue) :
    StandsFor r b [(b.bind v).1] [[.value v]] r (b.bind v).2 :=
  (b.tick_standsFor r).append (b.tick.2.bindAs_standsFor r (isValueRef_numbered hstem b.next) v)

theorem bindAll_standsFor (hstem : IsStem b.stem) (vs : List AttributeValue) :
    StandsFor r b (b.bindAll vs).1 (vs.map fun v => [.value v]) r (b.bindAll vs).2 := by
  induction vs generalizing b with
  | nil => exact .nil r b
  | cons v rest ih => exact (bind_standsFor r hstem v).append (ih (b := (b.bind v).2) hstem)

end StandsFor

end Binder

/-- A comparison of what is given for its name and its operands. -/
def Test.spelled (name : List Piece) (operands : List (List Piece)) : Test → List Piece
  | equals _ => name ++ plain " = " ++ operands.headD []
  | notEquals _ => name ++ plain " <> " ++ operands.headD []
  | greaterThan _ => name ++ plain " > " ++ operands.headD []
  | lessThan _ => name ++ plain " < " ++ operands.headD []
  | contains _ => plain "contains(" ++ name ++ plain ", " ++ operands.headD [] ++ plain ")"
  | beginsWith _ => plain "begins_with(" ++ name ++ plain ", " ++ operands.headD [] ++ plain ")"
  | oneOf _ => name ++ plain " IN (" ++ (plain ", ").intercalate operands ++ plain ")"
  | between _ _ =>
    name ++ plain " BETWEEN " ++ operands.headD [] ++ plain " AND " ++ operands.getLastD []

/-- A comparison as it reads with its own field and operands. -/
def Test.direct (field : String) : Test → List Piece
  | equals v => plain field ++ plain " = " ++ [.value v]
  | notEquals v => plain field ++ plain " <> " ++ [.value v]
  | greaterThan v => plain field ++ plain " > " ++ [.value v]
  | lessThan v => plain field ++ plain " < " ++ [.value v]
  | contains v => plain "contains(" ++ plain field ++ plain ", " ++ [.value v] ++ plain ")"
  | beginsWith v => plain "begins_with(" ++ plain field ++ plain ", " ++ [.value v] ++ plain ")"
  | oneOf vs =>
    plain field ++ plain " IN (" ++ (plain ", ").intercalate (vs.map fun v => [.value v]) ++
      plain ")"
  | between low high =>
    plain field ++ plain " BETWEEN " ++ [.value low] ++ plain " AND " ++ [.value high]

namespace Condition

def direct (c : Condition) : List Piece := c.test.direct c.field

/-- A fragment means its comparison of what its name and its operands mean. -/
theorem expand_fragment_eq_spelled (m : Meaning) (test : Test) (name : String)
    (placeholders : List String) :
    expand m (fragment test name placeholders) =
      test.spelled (expand m name) (placeholders.map (expand m)) := by
  have hhead : expand m (placeholders.headD "") = (placeholders.map (expand m)).headD [] := by
    cases placeholders with
    | nil => exact expand_empty
    | cons first rest => rfl
  have hlast : expand m (placeholders.getLastD "") = (placeholders.map (expand m)).getLastD [] := by
    rw [← expand_empty (m := m), List.getLastD_map]
  cases test with
  | equals v | notEquals v | greaterThan v | lessThan v =>
    rw [fragment, expand_separated (by decide), hhead, Test.spelled]
  | contains v | beginsWith v =>
    rw [fragment, expand_closed (by decide), expand_separated (by decide),
      expand_plain_append (by decide), hhead, Test.spelled]
  | oneOf vs =>
    rw [fragment, expand_closed (by decide), expand_separated (by decide),
      expand_joinWith (by decide), Test.spelled]
  | between low high =>
    simp only [fragment]
    rw [expand_separated (by decide), expand_separated (by decide), hhead, hlast, Test.spelled]

/-- A fragment means its comparison if its name and its operands mean those of the comparison. -/
theorem expand_fragment {m : Meaning} {field : String} (test : Test) {name : String}
    {placeholders : List String} (hname : expand m name = plain field)
    (hoperands : placeholders.map (expand m) = (operands test).map fun v => [.value v]) :
    expand m (fragment test name placeholders) = test.direct field := by
  rw [expand_fragment_eq_spelled, hname, hoperands]
  cases test <;> rfl

theorem render_standsFor (c : Condition) (r : Resolver) {b : Binder}
    (hfield : HasNoSign c.field.toList) (hstem : Binder.IsStem b.stem) :
    StandsFor r b [(c.render r b).1] [c.direct] (c.render r b).2.1 (c.render r b).2.2 := by
  have hname := r.path_standsFor b hfield
  have hoperands := Binder.bindAll_standsFor (r.path c.field).2 hstem (operands c.test)
  refine (hname.append hoperands).join fun m hmeant => ?_
  obtain ⟨hfirst, hrest⟩ := List.cons.inj hmeant
  exact expand_fragment c.test hfirst hrest

theorem renderAll_standsFor (r : Resolver) {b : Binder} (hstem : Binder.IsStem b.stem)
    (cs : List Condition) (hfields : ∀ c ∈ cs, HasNoSign c.field.toList) :
    StandsFor r b (renderAll r b cs).1 (cs.map direct) (renderAll r b cs).2.1
      (renderAll r b cs).2.2 := by
  induction cs generalizing r b with
  | nil => exact .nil r b
  | cons c rest ih =>
    have hfirst := c.render_standsFor r (hfields c List.mem_cons_self) hstem
    have hsame := b.bindAll_stem (operands c.test)
    have hrest := ih (c.render r b).2.1 (b := (c.render r b).2.2) (hsame ▸ hstem) fun c hc =>
      hfields c (List.mem_cons_of_mem _ hc)
    exact hfirst.append hrest

end Condition

end ItemTable.Expression
