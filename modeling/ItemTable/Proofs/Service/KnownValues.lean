import ItemTable.Proofs.Json.TypedReading
import ItemTable.Service.Arguments

/-!
# Values of known types

A value of the service that holds a type unknown here, at any depth, is not converted at all. Every
other value is converted into the attribute value that shows the same types and payloads at every
depth (`Value.isWhole_toAttribute?`). An item is converted with all its attributes or not at all
(`Fields.isWhole_toItem?`). What is sent to the service comes back as it was
(`Value.toAttribute?_ofAttribute`).
-/
namespace ItemTable.Service

/-! ## All or nothing -/

variable {α β γ : Type}

/-- A conversion that gives nothing just when something is unknown, and otherwise what shows the
whole. -/
structure IsWhole (result : Option β) (unknown : Prop) (Shows : β → Prop) : Prop where
  eq_none_iff : result = none ↔ unknown
  eq_some_iff : ∀ b, result = some b ↔ Shows b

namespace IsWhole

variable {result : Option α} {unknown : Prop} {Shows : α → Prop}

theorem congr (h : IsWhole result unknown Shows) {unknown' : Prop} {Shows' : α → Prop}
    (hunknown : unknown' ↔ unknown) (hshows : ∀ a, Shows' a ↔ Shows a) :
    IsWhole result unknown' Shows' :=
  ⟨h.eq_none_iff.trans hunknown.symm, fun a => (h.eq_some_iff a).trans (hshows a).symm⟩

/-- Something is shown unless something is unknown. -/
theorem exists_shown (h : IsWhole result unknown Shows) (hknown : ¬unknown) : ∃ a, Shows a := by
  cases hresult : result with
  | none => exact absurd (h.eq_none_iff.1 hresult) hknown
  | some a => exact ⟨a, (h.eq_some_iff a).1 hresult⟩

theorem of_some (a : α) : IsWhole (some a) False (· = a) :=
  ⟨iff_of_false (fun h => by cases h) id,
    fun b => ⟨fun h => (Option.some.inj h).symm, fun h => by rw [h]⟩⟩

theorem of_none : IsWhole (none : Option α) True fun _ => False :=
  ⟨iff_of_true rfl trivial, fun _ => iff_of_false (fun h => by cases h) id⟩

theorem map (h : IsWhole result unknown Shows) (f : α → β) :
    IsWhole (f <$> result) unknown fun b => ∃ a, Shows a ∧ b = f a := by
  refine ⟨?_, fun b => ?_⟩
  · rw [Option.map_eq_map, Option.map_eq_none_iff, h.eq_none_iff]
  · rw [Option.map_eq_map, Option.map_eq_some_iff]
    simp only [h.eq_some_iff, eq_comm]

/-- Two conversions, one after the other. -/
theorem and {other : Option β} {unknown' : Prop} {Shows' : β → Prop}
    (h : IsWhole result unknown Shows) (h' : IsWhole other unknown' Shows') (f : α → β → γ) :
    IsWhole (do let a ← result; let b ← other; return f a b) (unknown ∨ unknown')
      fun c => ∃ a b, Shows a ∧ Shows' b ∧ c = f a b := by
  refine ⟨?_, fun c => ?_⟩
  · rw [← h.eq_none_iff, ← h'.eq_none_iff]
    cases result <;> cases other <;> simp
  · simp only [← h.eq_some_iff, ← h'.eq_some_iff]
    cases result <;> cases other <;> simp [eq_comm]

/-- The first member of a list, and then the others. -/
theorem cons {Unknown : α → Prop} {Shows : α → β → Prop} {a : α} {as : List α} {first : Option β}
    {rest : Option (List β)} (hfirst : IsWhole first (Unknown a) (Shows a))
    (hrest : IsWhole rest (∃ a ∈ as, Unknown a) (List.Forall₂ Shows as)) :
    IsWhole (do let b ← first; let bs ← rest; return b :: bs) (∃ x ∈ a :: as, Unknown x)
      (List.Forall₂ Shows (a :: as)) := by
  refine (hfirst.and hrest _).congr (by simp) fun bs => ?_
  simp only [List.forall₂_cons_left_iff, exists_and_left]

theorem nil (Unknown : α → Prop) (Shows : α → β → Prop) :
    IsWhole (some []) (∃ a ∈ [], Unknown a) (List.Forall₂ Shows []) :=
  (of_some []).congr (by simp) fun _ => List.forall₂_nil_left_iff

/-- A list is converted member by member. -/
theorem mapM {f : α → Option β} {Unknown : α → Prop} {Shows : α → β → Prop} {as : List α}
    (h : ∀ a ∈ as, IsWhole (f a) (Unknown a) (Shows a)) :
    IsWhole (as.mapM f) (∃ a ∈ as, Unknown a) (List.Forall₂ Shows as) := by
  induction as with
  | nil => exact nil Unknown Shows
  | cons a as ih =>
    obtain ⟨hfirst, hrest⟩ := List.forall_mem_cons.1 h
    rw [List.mapM_cons]
    exact hfirst.cons (ih hrest)

/-- A part that may be missing. -/
theorem optional {f : α → Option β} {Unknown : α → Prop} {Shows : α → β → Prop} {x : Option α}
    (h : ∀ a ∈ x, IsWhole (f a) (Unknown a) (Shows a)) :
    IsWhole (x.mapM f) (∃ a ∈ x, Unknown a) (Option.Rel Shows x) := by
  cases x with
  | none =>
    refine (of_some none).congr (by simp) fun b => ?_
    cases b <;> simp
  | some a =>
    refine ((h a rfl).map some).congr (by simp) fun b => ?_
    cases b <;> simp

end IsWhole

namespace Value

/-- Somewhere inside, at any depth, stands a value of a type that is not known. -/
inductive HasUnknown : Value → Prop
  | unknown : HasUnknown .unknown
  | item {items : List Value} {v : Value} (hmem : v ∈ items) (h : HasUnknown v) :
      HasUnknown (.list items)
  | entry {entries : Fields} {name : String} {v : Value} (hmem : (name, v) ∈ entries)
      (h : HasUnknown v) :
      HasUnknown (.map entries)

/-- The attribute value has the type and the payload of the value of the service, at every depth. -/
inductive Shows : Value → AttributeValue → Prop
  | text (s : String) : Shows (.text s) (.text s)
  | number (n : String) : Shows (.number n) (.number n)
  | binary (bytes : List UInt8) : Shows (.binary bytes) (.binary bytes)
  | textSet (elements : List String) : Shows (.textSet elements) (.textSet elements)
  | numberSet (elements : List String) : Shows (.numberSet elements) (.numberSet elements)
  | binarySet (elements : List (List UInt8)) : Shows (.binarySet elements) (.binarySet elements)
  | boolean (b : Bool) : Shows (.boolean b) (.boolean b)
  | null (b : Bool) : Shows (.null b) (.null b)
  | list {items : List Value} {items' : List AttributeValue} (h : List.Forall₂ Shows items items') :
      Shows (.list items) (.list items')
  | map {entries : Fields} {entries' : List (String × AttributeValue)}
      (hnames : entries.map Prod.fst = entries'.map Prod.fst)
      (h : List.Forall₂ Shows (entries.map Prod.snd) (entries'.map Prod.snd)) :
      Shows (.map entries) (.map entries')

/-- Entries of the same names, one by one, whose values are shown. -/
abbrev ShowsEntries (entries : Fields) (entries' : List (String × AttributeValue)) : Prop :=
  List.Forall₂ (fun e e' => e.1 = e'.1 ∧ e.2.Shows e'.2) entries entries'

theorem hasUnknown_list_iff {items : List Value} :
    (list items).HasUnknown ↔ ∃ v ∈ items, v.HasUnknown := by
  constructor
  · rintro (_ | ⟨hmem, h⟩)
    exact ⟨_, hmem, h⟩
  · rintro ⟨v, hmem, h⟩
    exact .item hmem h

theorem hasUnknown_map_iff {entries : Fields} :
    (map entries).HasUnknown ↔ ∃ e ∈ entries, e.2.HasUnknown := by
  constructor
  · rintro (_ | _ | ⟨hmem, h⟩)
    exact ⟨_, hmem, h⟩
  · rintro ⟨⟨name, v⟩, hmem, h⟩
    exact .entry hmem h

theorem shows_list_iff {items : List Value} {a : AttributeValue} :
    (list items).Shows a ↔ ∃ items', List.Forall₂ Shows items items' ∧ a = .list items' := by
  constructor
  · rintro ⟨⟩
    exact ⟨_, ‹_›, rfl⟩
  · rintro ⟨items', h, rfl⟩
    exact .list h

theorem showsEntries_iff {entries : Fields} {entries' : List (String × AttributeValue)} :
    ShowsEntries entries entries' ↔ entries.map Prod.fst = entries'.map Prod.fst ∧
      List.Forall₂ Shows (entries.map Prod.snd) (entries'.map Prod.snd) := by
  rw [List.forall₂_map_left_iff, List.forall₂_map_right_iff]
  unfold ShowsEntries
  induction entries generalizing entries' with
  | nil => cases entries' <;> simp
  | cons e entries ih =>
    cases entries' with
    | nil => simp
    | cons e' entries' =>
      rw [List.forall₂_cons, ih, List.forall₂_cons, List.map_cons, List.map_cons, List.cons.injEq]
      tauto

theorem shows_map_iff {entries : Fields} {a : AttributeValue} :
    (map entries).Shows a ↔ ∃ entries', ShowsEntries entries entries' ∧ a = .map entries' := by
  constructor
  · rintro ⟨⟩
    exact ⟨_, showsEntries_iff.2 ⟨‹_›, ‹_›⟩, rfl⟩
  · rintro ⟨entries', h, rfl⟩
    obtain ⟨hnames, hvalues⟩ := showsEntries_iff.1 h
    exact .map hnames hvalues

mutual

/-- A value is converted unless it has something unknown in it. -/
theorem isWhole_toAttribute? : ∀ v : Value, IsWhole v.toAttribute? v.HasUnknown v.Shows
  | text _ | number _ | binary _ | textSet _ | numberSet _ | binarySet _ | boolean _ | null _ => by
    rw [toAttribute?]
    refine (IsWhole.of_some _).congr (iff_of_false (by rintro ⟨⟩) id) fun a => ?_
    constructor
    · rintro ⟨⟩
      rfl
    · rintro rfl
      constructor
  | list items => by
    rw [toAttribute?]
    exact ((isWhole_toItems? items).map _).congr hasUnknown_list_iff fun _ => shows_list_iff
  | map entries => by
    rw [toAttribute?]
    exact ((isWhole_toEntries? entries).map _).congr hasUnknown_map_iff fun _ => shows_map_iff
  | unknown => by
    rw [toAttribute?]
    exact IsWhole.of_none.congr (iff_of_true .unknown trivial) fun _ =>
      iff_of_false (by rintro ⟨⟩) id

theorem isWhole_toItems? : ∀ items : List Value,
    IsWhole (toItems? items) (∃ v ∈ items, v.HasUnknown) (List.Forall₂ Shows items)
  | [] => .nil HasUnknown Shows
  | v :: vs => (isWhole_toAttribute? v).cons (isWhole_toItems? vs)

theorem isWhole_toEntries? : ∀ entries : Fields,
    IsWhole (toEntries? entries) (∃ e ∈ entries, e.2.HasUnknown) (ShowsEntries entries)
  | [] => .nil (fun e : String × Value => e.2.HasUnknown) _
  | (name, v) :: entries => by
    rw [toEntries?]
    refine ((isWhole_toAttribute? v).and (isWhole_toEntries? entries) _).congr (by simp)
      fun es => ?_
    rw [ShowsEntries, List.forall₂_cons_left_iff]
    constructor
    · rintro ⟨⟨_, a⟩, rest, ⟨rfl, ha⟩, hrest, rfl⟩
      exact ⟨a, rest, ha, hrest, rfl⟩
    · rintro ⟨a, rest, ha, hrest, rfl⟩
      exact ⟨(name, a), rest, ⟨rfl, ha⟩, hrest, rfl⟩

end

mutual

/-- The form of a value for the service shows the value. -/
theorem shows_ofAttribute : ∀ v : AttributeValue, (ofAttribute v).Shows v
  | .list items => by
    rw [ofAttribute]
    exact .list (showsItems_ofItems items)
  | .map entries => by
    rw [ofAttribute]
    exact shows_map_iff.2 ⟨entries, showsEntries_ofEntries entries, rfl⟩
  | .text _ | .number _ | .binary _ | .textSet _ | .numberSet _ | .binarySet _ | .boolean _
  | .null _ => by
    rw [ofAttribute]
    constructor

theorem showsItems_ofItems : ∀ items : List AttributeValue, List.Forall₂ Shows (ofItems items) items
  | [] => .nil
  | v :: vs => .cons (shows_ofAttribute v) (showsItems_ofItems vs)

theorem showsEntries_ofEntries : ∀ entries : List (String × AttributeValue),
    ShowsEntries (ofEntries entries) entries
  | [] => .nil
  | (_, v) :: entries => .cons ⟨rfl, shows_ofAttribute v⟩ (showsEntries_ofEntries entries)

end

/-- A value that is sent to the service and comes back is the same value. -/
theorem toAttribute?_ofAttribute (v : AttributeValue) : (ofAttribute v).toAttribute? = some v :=
  ((isWhole_toAttribute? _).eq_some_iff v).2 (shows_ofAttribute v)

end Value

/-! ## Items -/

namespace Fields

def HasUnknown (fields : Fields) : Prop := ∃ e ∈ fields, e.2.HasUnknown

/-- No name stands twice. -/
def AreDistinct (fields : Fields) : Prop := (fields.map Prod.fst).Nodup

/-- The item has an attribute for every value, and no others. -/
structure Shows (fields : Fields) (item : Item) : Prop where
  every : ∀ e ∈ fields, ∃ a, item.get? e.1 = some a ∧ e.2.Shows a
  only : ∀ name a, item.get? name = some a → ∃ v, (name, v) ∈ fields ∧ v.Shows a

/-- An item is made of the entries of its fields, one by one. -/
theorem shows_iff {fields : Fields} (h : fields.AreDistinct) {item : Item} :
    fields.Shows item ↔ ∃ entries, Value.ShowsEntries fields entries ∧
      item = Bindings.ofList entries := by
  constructor
  · rintro ⟨hevery, honly⟩
    have hentries : ∀ e ∈ fields, ∃ e' : String × AttributeValue,
        (e.1 = e'.1 ∧ e.2.Shows e'.2) ∧ item.get? e'.1 = some e'.2 := fun e he => by
      obtain ⟨a, hget, ha⟩ := hevery e he
      exact ⟨(e.1, a), ⟨rfl, ha⟩, hget⟩
    obtain ⟨entries, hentries⟩ := exists_forall₂ hentries
    have hshown : Value.ShowsEntries fields entries := hentries.imp fun _ _ he => he.1
    have hnodup : (entries.map Prod.fst).Nodup := (Value.showsEntries_iff.1 hshown).1 ▸ h
    refine ⟨entries, hshown, Bindings.ext_get? fun key => Option.ext fun a => ?_⟩
    constructor
    · intro hget
      obtain ⟨v, hmem, -⟩ := honly key a hget
      obtain ⟨e', hmem', ⟨heq, -⟩, hget'⟩ := (exists_mem_of_forall₂ hentries).1 _ hmem
      have hlist := Bindings.get?_ofList_of_nodup hnodup hmem'
      rw [← heq] at hget' hlist
      rw [hlist, ← hget', hget]
    · intro hget
      obtain ⟨e, -, -, hget'⟩ :=
        (exists_mem_of_forall₂ hentries).2 _ (Bindings.mem_of_get?_ofList hget)
      exact hget'
  · rintro ⟨entries, hentries, rfl⟩
    have hnodup : (entries.map Prod.fst).Nodup := (Value.showsEntries_iff.1 hentries).1 ▸ h
    refine ⟨fun e he => ?_, fun name a hget => ?_⟩
    · obtain ⟨e', hmem, heq, hshows⟩ := (exists_mem_of_forall₂ hentries).1 e he
      exact ⟨e'.2, heq ▸ Bindings.get?_ofList_of_nodup hnodup hmem, hshows⟩
    · obtain ⟨⟨name', v⟩, hmem, rfl, hshows⟩ :=
        (exists_mem_of_forall₂ hentries).2 _ (Bindings.mem_of_get?_ofList hget)
      exact ⟨v, hmem, hshows⟩

/-- An item is converted with every attribute, unless one of them has something unknown in it. -/
theorem isWhole_toItem? {fields : Fields} (h : fields.AreDistinct) :
    IsWhole fields.toItem? fields.HasUnknown fields.Shows :=
  ((Value.isWhole_toEntries? fields).map Bindings.ofList).congr Iff.rfl fun _ => shows_iff h

end Fields

end ItemTable.Service
