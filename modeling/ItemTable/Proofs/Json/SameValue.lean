import ItemTable.Json.Document
import Mathlib.Data.List.Forall2

/-!
# The value of a document

The members of an object are in no order. So two documents have the same value if they are equal up
to the order of the members of their objects, at all depths: `Document.Same`. The depth to which
lists and objects nest is `Document.nesting`, and the documents that nothing is nested in are the
same as themselves only.
-/
namespace ItemTable.Json.Document

mutual

/-- The same value: equal up to the order of the members of objects, at all depths. -/
def Same : Document → Document → Prop
  | list ds closed, list es closed' => closed = closed' ∧ SameItems ds es
  | object ms closed, object ns closed' =>
    closed = closed' ∧ ∃ ms', SameMembers ms ms' ∧ ms'.Perm ns
  | d, e => d = e

def SameItems : List Document → List Document → Prop
  | [], [] => True
  | d :: ds, e :: es => Same d e ∧ SameItems ds es
  | _, _ => False

/-- Members of the same names and values, one by one. -/
def SameMembers : List (Label × Document) → List (Label × Document) → Prop
  | [], [] => True
  | (label, d) :: ms, (label', e) :: ns => label = label' ∧ Same d e ∧ SameMembers ms ns
  | _, _ => False

end

mutual

/-- How many lists and objects are nested into each other. -/
def nesting : Document → Nat
  | list ds _ => nestingItems ds + 1
  | object ms _ => nestingMembers ms + 1
  | _ => 0

def nestingItems : List Document → Nat
  | [] => 0
  | d :: ds => max (nesting d) (nestingItems ds)

def nestingMembers : List (Label × Document) → Nat
  | [] => 0
  | (_, d) :: ms => max (nesting d) (nestingMembers ms)

end

/-- A member of the same name and value. -/
abbrev SameMember (m n : Label × Document) : Prop := m.1 = n.1 ∧ m.2.Same n.2

theorem sameItems_iff {ds es : List Document} : SameItems ds es ↔ List.Forall₂ Same ds es := by
  induction ds generalizing es with
  | nil => cases es <;> simp [SameItems]
  | cons d ds ih => cases es <;> simp [SameItems, ih]

theorem sameMembers_iff {ms ns : List (Label × Document)} :
    SameMembers ms ns ↔ List.Forall₂ SameMember ms ns := by
  induction ms generalizing ns with
  | nil => cases ns <;> simp [SameMembers]
  | cons m ms ih => cases ns <;> simp [SameMembers, ih, and_assoc]

/-- Only what nothing is nested in is the same as such a document, and then it is that document. -/
theorem same_iff_eq {d e : Document} (h : e.nesting = 0) : d.Same e ↔ d = e := by
  cases e with
  | list ds closed | object ms closed => exact absurd h (Nat.succ_ne_zero _)
  | null | boolean | number | text | halved | broken => cases d <;> simp [Same]

theorem same_list_iff {d : Document} {es : List Document} {closed : Bool} :
    d.Same (list es closed) ↔ ∃ ds, d = list ds closed ∧ List.Forall₂ Same ds es := by
  cases d with
  | list ds closed' =>
    rw [Same, sameItems_iff]
    constructor
    · rintro ⟨rfl, hsame⟩
      exact ⟨ds, rfl, hsame⟩
    · rintro ⟨ds', heq, hsame⟩
      cases heq
      exact ⟨rfl, hsame⟩
  | null | boolean | number | text | halved | object | broken => simp [Same]

theorem same_map_iff {α : Type} {f : α → Document} (h : ∀ a, (f a).nesting = 0) {d : Document}
    (as : List α) : d.Same (ofList (as.map f)) ↔ d = ofList (as.map f) := by
  have hitems (ds : List Document) : List.Forall₂ Same ds (as.map f) ↔ ds = as.map f := by
    rw [List.forall₂_map_right_iff]
    simp only [same_iff_eq (h _)]
    rw [← List.forall₂_map_right_iff (R := Eq), List.forall₂_eq_eq_eq]
  simp only [ofList, same_list_iff, hitems, exists_eq_right]

theorem same_object_iff {d : Document} {ns : List (Label × Document)} {closed : Bool} :
    d.Same (object ns closed) ↔
      ∃ ms ms', d = object ms closed ∧ List.Forall₂ SameMember ms ms' ∧ ms'.Perm ns := by
  cases d with
  | object ms closed' =>
    rw [Same]
    constructor
    · rintro ⟨rfl, ms', hsame, hperm⟩
      exact ⟨ms, ms', rfl, sameMembers_iff.1 hsame, hperm⟩
    · rintro ⟨ms', ms'', heq, hsame, hperm⟩
      cases heq
      exact ⟨rfl, ms'', sameMembers_iff.2 hsame, hperm⟩
  | null | boolean | number | text | halved | list | broken => simp [Same]

theorem same_singleton_iff {d e : Document} {label : Label} {closed : Bool} :
    d.Same (object [(label, e)] closed) ↔ ∃ d', d = object [(label, d')] closed ∧ d'.Same e := by
  rw [same_object_iff]
  constructor
  · rintro ⟨ms, ms', rfl, hsame, hperm⟩
    rw [List.perm_singleton] at hperm
    subst hperm
    obtain ⟨⟨label', d'⟩, rest, ⟨rfl, hd⟩, hnil, rfl⟩ := List.forall₂_cons_right_iff.1 hsame
    cases hnil
    exact ⟨d', rfl, hd⟩
  · rintro ⟨d', rfl, hd⟩
    exact ⟨_, [(label, e)], rfl, .cons ⟨rfl, hd⟩ .nil, .refl _⟩

mutual

theorem same_refl : ∀ d : Document, d.Same d
  | list ds _ => same_list_iff.2 ⟨ds, rfl, sameItems_refl ds⟩
  | object ms _ => same_object_iff.2 ⟨ms, ms, rfl, sameMembers_refl ms, .refl _⟩
  | null | boolean _ | number _ | text _ | halved | broken => (same_iff_eq rfl).2 rfl

theorem sameItems_refl : ∀ ds : List Document, List.Forall₂ Same ds ds
  | [] => .nil
  | d :: ds => .cons (same_refl d) (sameItems_refl ds)

theorem sameMembers_refl : ∀ ms : List (Label × Document), List.Forall₂ SameMember ms ms
  | [] => .nil
  | (_, d) :: ms => .cons ⟨rfl, same_refl d⟩ (sameMembers_refl ms)

end

theorem nestingMembers_perm {ms ns : List (Label × Document)} (h : ms.Perm ns) :
    nestingMembers ms = nestingMembers ns := by
  induction h with
  | nil => rfl
  | cons m _ ih => rw [nestingMembers, nestingMembers, ih]
  | swap m n ms => simp only [nestingMembers, Nat.max_left_comm]
  | trans _ _ ih ih' => rw [ih, ih']

mutual

/-- Documents of the same value nest equally deep. -/
theorem Same.nesting_eq : ∀ {d e : Document}, d.Same e → d.nesting = e.nesting
  | list ds _, e, h => by
    cases e with
    | list es closed => rw [nesting, nesting, SameItems.nesting_eq h.2]
    | null | boolean | number | text | halved | object | broken => cases h
  | object ms _, e, h => by
    cases e with
    | object ns closed =>
      obtain ⟨-, ms', hsame, hperm⟩ := h
      rw [nesting, nesting, SameMembers.nesting_eq hsame, nestingMembers_perm hperm]
    | null | boolean | number | text | halved | list | broken => cases h
  | null, e, h | boolean _, e, h | number _, e, h | text _, e, h | halved, e, h | broken, e, h => by
    cases e <;> cases h
    rfl

theorem SameItems.nesting_eq : ∀ {ds es : List Document}, SameItems ds es →
    nestingItems ds = nestingItems es
  | [], [], _ => rfl
  | _ :: _, _ :: _, h => by
    rw [nestingItems, nestingItems, Same.nesting_eq h.1, SameItems.nesting_eq h.2]

theorem SameMembers.nesting_eq : ∀ {ms ns : List (Label × Document)}, SameMembers ms ns →
    nestingMembers ms = nestingMembers ns
  | [], [], _ => rfl
  | (_, _) :: _, (_, _) :: _, h => by
    rw [nestingMembers, nestingMembers, Same.nesting_eq h.2.1, SameMembers.nesting_eq h.2.2]

end

theorem nestingItems_lt_iff {ds : List Document} {n : Nat} :
    nestingItems ds < n ↔ 0 < n ∧ ∀ d ∈ ds, d.nesting < n := by
  induction ds with
  | nil => simp [nestingItems]
  | cons d ds ih =>
    rw [nestingItems, Nat.max_lt, ih, List.forall_mem_cons, and_left_comm]

theorem nestingMembers_lt_iff {ms : List (Label × Document)} {n : Nat} :
    nestingMembers ms < n ↔ 0 < n ∧ ∀ m ∈ ms, m.2.nesting < n := by
  induction ms with
  | nil => simp [nestingMembers]
  | cons m ms ih =>
    rw [nestingMembers, Nat.max_lt, ih, List.forall_mem_cons, and_left_comm]

theorem nesting_list_lt_iff {ds : List Document} {closed : Bool} {n : Nat} :
    (list ds closed).nesting < n ↔ 1 < n ∧ ∀ d ∈ ds, d.nesting < n - 1 := by
  rw [nesting, ← Nat.lt_sub_iff_add_lt, nestingItems_lt_iff, Nat.sub_pos_iff_lt]

theorem nesting_object_lt_iff {ms : List (Label × Document)} {closed : Bool} {n : Nat} :
    (object ms closed).nesting < n ↔ 1 < n ∧ ∀ m ∈ ms, m.2.nesting < n - 1 := by
  rw [nesting, ← Nat.lt_sub_iff_add_lt, nestingMembers_lt_iff, Nat.sub_pos_iff_lt]

end ItemTable.Json.Document
