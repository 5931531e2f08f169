import ItemTable.Json.Decoder
import ItemTable.Proofs.Bindings
import ItemTable.Proofs.Json.SameValue
import ItemTable.Proofs.Outcome
import Mathlib.Data.List.Perm.Basic

/-!
# What a typed reader accepts

A reader of lists or of maps has read its parts one by one, with one level of nesting less, and each
part has been read as something. This is said once for each kind of reader, so that nothing later
has to look at the order in which the parts are read or at how reading fails.
-/
namespace ItemTable

variable {α β : Type}

theorem Bindings.nodup_keys (m : Bindings α) : (m.entries.map Prod.fst).Nodup := by
  refine List.pairwise_map.2 (m.ascending.imp fun {a b} hlt heq => ?_)
  rw [heq] at hlt
  exact String.lt_irrefl _ hlt

/-- Entries of a map, in any order, make the map. -/
theorem Bindings.ofList_perm {m : Bindings α} {entries : List (String × α)}
    (h : entries.Perm m.entries) : Bindings.ofList entries = m := by
  have hnodup : (entries.map Prod.fst).Nodup := ((h.map Prod.fst).nodup_iff).2 m.nodup_keys
  refine Bindings.ext_get? fun key => ?_
  cases hget : m.get? key with
  | some a =>
    have hmem : (key, a) ∈ entries := h.mem_iff.2 ((m.get?_eq_some_iff key a).1 hget)
    exact Bindings.get?_ofList_of_nodup hnodup hmem
  | none =>
    cases hlist : (Bindings.ofList entries).get? key with
    | none => rfl
    | some a =>
      have hmem := h.mem_iff.1 (Bindings.mem_of_get?_ofList hlist)
      rw [(m.get?_eq_some_iff key a).2 hmem] at hget
      cases hget

/-- Entries of distinct keys are those of the map that they make. -/
theorem Bindings.perm_entries_ofList {entries : List (String × α)}
    (h : (entries.map Prod.fst).Nodup) :
    entries.Perm (Bindings.ofList entries).entries := by
  rw [List.perm_ext_iff_of_nodup h.of_map (Bindings.nodup_keys _).of_map]
  rintro ⟨key, a⟩
  rw [← Bindings.get?_eq_some_iff]
  exact ⟨Bindings.get?_ofList_of_nodup h, Bindings.mem_of_get?_ofList⟩

/-- Lists that are related one by one: each member has its partner. -/
theorem exists_mem_of_forall₂ {R : α → β → Prop} {as : List α} {bs : List β}
    (h : List.Forall₂ R as bs) :
    (∀ a ∈ as, ∃ b ∈ bs, R a b) ∧ ∀ b ∈ bs, ∃ a ∈ as, R a b := by
  induction h with
  | nil => exact ⟨List.forall_mem_nil _, List.forall_mem_nil _⟩
  | cons hab _ ih =>
    obtain ⟨hleft, hright⟩ := ih
    simp only [List.forall_mem_cons, List.exists_mem_cons_iff]
    exact ⟨⟨.inl hab, fun a ha => .inr (hleft a ha)⟩, .inl hab, fun b hb => .inr (hright b hb)⟩

theorem exists_forall₂ {R : α → β → Prop} {as : List α} (h : ∀ a ∈ as, ∃ b, R a b) :
    ∃ bs, List.Forall₂ R as bs := by
  induction as with
  | nil => exact ⟨[], .nil⟩
  | cons a as ih =>
    obtain ⟨⟨b, hb⟩, hrest⟩ := List.forall_mem_cons.1 h
    obtain ⟨bs, hbs⟩ := ih hrest
    exact ⟨b :: bs, .cons hb hbs⟩

/-- What a map makes of a list in another order, it makes of that list in another order. -/
theorem exists_map_of_perm_map {f : α → β} {as : List α} {bs : List β} (h : bs.Perm (as.map f)) :
    ∃ as' : List α, bs = as'.map f ∧ as'.Perm as := by
  have hcomp := congrFun (congrFun (List.eq_map_comp_perm f) bs) as
  exact hcomp.mpr h

theorem mapM_eq_ok {ε : Type} {f : α → Except ε β} {as : List α} {bs : List β} :
    as.mapM f = .ok bs ↔ List.Forall₂ (fun a b => f a = .ok b) as bs := by
  induction as generalizing bs with
  | nil =>
    rw [List.forall₂_nil_left_iff]
    constructor
    · intro h
      cases h
      rfl
    · rintro rfl
      rfl
  | cons a as ih =>
    rw [List.mapM_cons, bind_eq_ok, List.forall₂_cons_left_iff]
    simp only [bind_eq_ok, ih]
    constructor
    · rintro ⟨b, hb, rest, hrest, h⟩
      cases h
      exact ⟨b, rest, hb, hrest, rfl⟩
    · rintro ⟨b, rest, hb, hrest, rfl⟩
      exact ⟨b, hb, rest, hrest, rfl⟩

namespace Json

theorem enter_eq_ok {depth depth' : Nat} :
    enter depth = .ok depth' ↔ 1 < depth ∧ depth' = depth - 1 := by
  unfold enter
  split
  · next hlimit => exact iff_of_false (fun h => by cases h) fun h => by omega
  · next hlimit =>
    constructor
    · intro h
      cases h
      exact ⟨by omega, rfl⟩
    · rintro ⟨-, rfl⟩
      rfl

theorem ending_eq_ok {closed : Bool} {a b : α} :
    ending closed a = .ok b ↔ closed = true ∧ a = b := by
  cases closed with
  | false => exact iff_of_false (fun h => by cases h) fun h => Bool.false_ne_true h.1
  | true =>
    constructor
    · intro h
      cases h
      exact ⟨rfl, rfl⟩
    · rintro ⟨-, rfl⟩
      rfl

@[simp] theorem unexpected_ne_ok (wanted : String) (d : Document) (a : α) :
    unexpected wanted d ≠ .ok a := by
  intro h
  unfold unexpected at h
  split at h
  all_goals first | cases h | (split at h <;> cases h)

@[simp] theorem map_unexpected (f : α → β) (wanted : String) (d : Document) :
    f <$> unexpected wanted d = unexpected wanted d := by
  cases d with
  | number n =>
    simp only [unexpected]
    split <;> rfl
  | null | boolean | text | halved | list | object | broken => rfl

theorem labelText_eq_ok {label : Label} {name : String} :
    labelText label = .ok name ↔ label = some name := by
  cases label with
  | none => exact iff_of_false (fun h => by cases h) fun h => by cases h
  | some name' =>
    constructor
    · intro h
      cases h
      rfl
    · intro h
      cases h
      rfl

namespace Decoder

variable {item : Decoder α} {depth : Nat} {d : Document}

theorem text_eq_ok {s : String} : Decoder.text depth d = .ok s ↔ d = .text s := by
  cases d with
  | text s' => simp [Decoder.text]
  | null | boolean | number | halved | list | object | broken => simp [Decoder.text]

theorem boolean_eq_ok {b : Bool} : Decoder.boolean depth d = .ok b ↔ d = .boolean b := by
  cases d with
  | boolean b' => simp [Decoder.boolean]
  | null | text | number | halved | list | object | broken => simp [Decoder.boolean]

theorem items_eq_ok {item : Document → Except DecodeError α} {closed : Bool} {ds : List Document}
    {as : List α} :
    items item closed ds = .ok as ↔ closed = true ∧
      List.Forall₂ (fun d a => item d = .ok a) ds as := by
  induction ds generalizing as with
  | nil =>
    rw [items, ending_eq_ok, List.forall₂_nil_left_iff]
    exact and_congr_right' eq_comm
  | cons d ds ih =>
    rw [items, bind_eq_ok, List.forall₂_cons_left_iff]
    simp only [bind_eq_ok, ih]
    constructor
    · rintro ⟨a, ha, rest, ⟨hclosed, hrest⟩, h⟩
      cases h
      exact ⟨hclosed, a, rest, ha, hrest, rfl⟩
    · rintro ⟨hclosed, a, rest, ha, hrest, rfl⟩
      exact ⟨a, ha, rest, ⟨hclosed, hrest⟩, rfl⟩

/-- A list is read item by item. -/
theorem list_eq_ok {as : List α} :
    Decoder.list item depth d = .ok as ↔
      ∃ ds, d = .list ds true ∧ 1 < depth ∧
        List.Forall₂ (fun d a => item (depth - 1) d = .ok a) ds as := by
  cases d with
  | list ds closed =>
    rw [Decoder.list, bind_eq_ok]
    simp only [enter_eq_ok, items_eq_ok]
    constructor
    · rintro ⟨_, ⟨hdepth, rfl⟩, rfl, hitems⟩
      exact ⟨ds, rfl, hdepth, hitems⟩
    · rintro ⟨ds', heq, hdepth, hitems⟩
      cases heq
      exact ⟨_, ⟨hdepth, rfl⟩, rfl, hitems⟩
  | null | boolean | number | text | halved | object | broken => simp [Decoder.list]

/-- A member of a map that has been read as an entry. -/
abbrev ReadsEntry (item : Document → Except DecodeError α) (m : Label × Document)
    (e : String × α) : Prop :=
  m.1 = some e.1 ∧ item m.2 = .ok e.2

theorem entries_eq_ok {item : Document → Except DecodeError α} {closed : Bool} {m m' : Bindings α}
    {members : List (Label × Document)} :
    entries item closed m members = .ok m' ↔
      closed = true ∧ ∃ es, List.Forall₂ (ReadsEntry item) members es ∧ m' = m.insertAll es := by
  induction members generalizing m with
  | nil =>
    rw [entries, ending_eq_ok]
    constructor
    · rintro ⟨hclosed, rfl⟩
      exact ⟨hclosed, [], .nil, rfl⟩
    · rintro ⟨hclosed, es, hread, rfl⟩
      cases hread
      exact ⟨hclosed, rfl⟩
  | cons member rest ih =>
    rw [entries, bind_eq_ok]
    simp only [bind_eq_ok, labelText_eq_ok, ih]
    constructor
    · rintro ⟨key, hkey, a, ha, hclosed, es, hread, rfl⟩
      exact ⟨hclosed, (key, a) :: es, .cons ⟨hkey, ha⟩ hread, rfl⟩
    · rintro ⟨hclosed, es, hread, rfl⟩
      obtain ⟨e, later, ⟨hkey, ha⟩, hlater, rfl⟩ := List.forall₂_cons_left_iff.1 hread
      exact ⟨e.1, hkey, e.2, ha, hclosed, later, hlater, rfl⟩

/-- A map is read member by member, and the last value of a key counts. -/
theorem bindings_eq_ok {m : Bindings α} :
    Decoder.bindings item depth d = .ok m ↔
      ∃ ms es, d = .object ms true ∧ 1 < depth ∧
        List.Forall₂ (ReadsEntry (item (depth - 1))) ms es ∧
        m = Bindings.ofList es := by
  cases d with
  | object members closed =>
    rw [Decoder.bindings, bind_eq_ok]
    simp only [enter_eq_ok, entries_eq_ok]
    constructor
    · rintro ⟨_, ⟨hdepth, rfl⟩, rfl, es, hread, rfl⟩
      exact ⟨members, es, rfl, hdepth, hread, rfl⟩
    · rintro ⟨ms, es, heq, hdepth, hread, rfl⟩
      cases heq
      exact ⟨_, ⟨hdepth, rfl⟩, rfl, es, hread, rfl⟩
  | null | boolean | number | text | halved | list | broken => simp [Decoder.bindings]

/-- The reader gets the value back from every document that has the same value as its written form,
as far as that is not nested too deeply. -/
def Restores (item : Decoder α) (e : Document) (a : α) : Prop :=
  ∀ d, d.Same e → ∀ depth, d.nesting < depth → item depth d = .ok a

theorem Restores.map {item : Decoder α} {e : Document} {a : α} (h : item.Restores e a) (f : α → β) :
    Restores (fun depth d => f <$> item depth d) e (f a) := by
  intro d hsame depth hdepth
  exact map_eq_ok.2 ⟨a, h d hsame depth hdepth, rfl⟩

theorem text_restores (s : String) : Decoder.text.Restores (.text s) s :=
  fun _ hsame _ _ => text_eq_ok.2 ((Document.same_iff_eq rfl).1 hsame)

theorem boolean_restores (b : Bool) : Decoder.boolean.Restores (.boolean b) b :=
  fun _ hsame _ _ => boolean_eq_ok.2 ((Document.same_iff_eq rfl).1 hsame)

section Restores

variable {item : Decoder α} (write : α → Document)

theorem list_restores {as : List α} (h : ∀ a ∈ as, item.Restores (write a) a) :
    (Decoder.list item).Restores (.ofList (as.map write)) as := by
  intro d hsame depth hdepth
  obtain ⟨ds, rfl, hitems⟩ := Document.same_list_iff.1 hsame
  obtain ⟨hdepth, hinside⟩ := Document.nesting_list_lt_iff.1 hdepth
  obtain ⟨hlength, hitems⟩ := List.forall₂_iff_zip.1 (List.forall₂_map_right_iff.1 hitems)
  refine list_eq_ok.2 ⟨ds, rfl, hdepth, List.forall₂_iff_zip.2 ⟨hlength, fun {d a} hmem => ?_⟩⟩
  obtain ⟨hd, ha⟩ := List.of_mem_zip hmem
  exact h a ha d (hitems hmem) _ (hinside d hd)

/-- The members may stand in any order, because no key of a map is repeated. -/
theorem bindings_restores {m : Bindings α} (h : ∀ e ∈ m.entries, item.Restores (write e.2) e.2) :
    (Decoder.bindings item).Restores
      (.object (m.entries.map fun e => (some e.1, write e.2)) true) m := by
  intro d hsame depth hdepth
  obtain ⟨ms, ms', rfl, hmembers, hperm⟩ := Document.same_object_iff.1 hsame
  obtain ⟨hdepth, hinside⟩ := Document.nesting_object_lt_iff.1 hdepth
  obtain ⟨es, rfl, hes⟩ := exists_map_of_perm_map hperm
  obtain ⟨hlength, hmembers⟩ := List.forall₂_iff_zip.1 (List.forall₂_map_right_iff.1 hmembers)
  refine bindings_eq_ok.2 ⟨ms, es, rfl, hdepth, ?_, (Bindings.ofList_perm hes).symm⟩
  refine List.forall₂_iff_zip.2 ⟨hlength, fun {n e} hmem => ?_⟩
  obtain ⟨hn, he⟩ := List.of_mem_zip hmem
  obtain ⟨hkey, hvalue⟩ := hmembers hmem
  exact ⟨hkey, h e (hes.mem_iff.1 he) n.2 hvalue _ (hinside n hn)⟩

end Restores

end Decoder

theorem decodeText_of_ofText {value : Decoder α} {s : String} {d : Document}
    (h : Document.ofText s = some d) : decodeText value s = value depthLimit d := by
  unfold Document.ofText at h
  unfold decodeText
  split at h
  · next d' rest hread =>
    split at h
    · next hend =>
      cases h
      rw [Bool.and_eq_true] at hend
      simp only [hread, hend.1]
      cases value depthLimit d <;> rfl
    · cases h
  · cases h

end Json

end ItemTable
