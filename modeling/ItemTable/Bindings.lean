/-!
Maps from texts, kept in ascending order of the keys.

Equal maps have equal entries, so that equality of maps is equality of what they bind: `ext_get?`.
`get?_insert` says what a later binding does to an earlier one.
-/
namespace ItemTable

/-- Puts a binding at its place among ascending entries; an entry of the same key is replaced. -/
def placeEntry {α : Type} (key : String) (value : α) :
    List (String × α) → List (String × α)
  | [] => [(key, value)]
  | entry :: rest =>
    if key < entry.1 then (key, value) :: entry :: rest
    else if key = entry.1 then (key, value) :: rest
    else entry :: placeEntry key value rest

def lookEntry {α : Type} (key : String) : List (String × α) → Option α
  | [] => none
  | entry :: rest => if key = entry.1 then some entry.2 else lookEntry key rest

/-- Entries in strictly ascending order of their keys. -/
def Ascending {α : Type} (entries : List (String × α)) : Prop :=
  entries.Pairwise fun a b => a.1 < b.1

theorem mem_placeEntry {α : Type} {key : String} {value : α} {entries : List (String × α)}
    {e : String × α} (h : e ∈ placeEntry key value entries) : e = (key, value) ∨ e ∈ entries := by
  induction entries with
  | nil => simpa [placeEntry] using h
  | cons entry rest ih =>
    simp only [placeEntry] at h
    split at h
    · simpa using h
    · split at h
      · rcases List.mem_cons.1 h with rfl | h
        · exact .inl rfl
        · exact .inr (List.mem_cons_of_mem _ h)
      · rcases List.mem_cons.1 h with rfl | h
        · exact .inr List.mem_cons_self
        · exact (ih h).imp_right (List.mem_cons_of_mem _)

theorem lt_of_not_lt_of_ne {a b : String} (hlt : ¬a < b) (hne : a ≠ b) : b < a := by
  exact Decidable.byContradiction fun h => hne (String.le_antisymm h hlt)

theorem ascending_placeEntry {α : Type} (key : String) (value : α) {entries : List (String × α)}
    (h : Ascending entries) : Ascending (placeEntry key value entries) := by
  induction entries with
  | nil => simp [placeEntry, Ascending]
  | cons entry rest ih =>
    obtain ⟨hfirst, hrest⟩ := List.pairwise_cons.1 h
    simp only [placeEntry]
    split
    · next hlt =>
      refine List.pairwise_cons.2 ⟨fun e he => ?_, h⟩
      rcases List.mem_cons.1 he with rfl | he
      · exact hlt
      · exact String.lt_trans hlt (hfirst e he)
    · split
      · next heq => exact List.pairwise_cons.2 ⟨fun e he => by simpa [heq] using hfirst e he, hrest⟩
      · next hlt hne =>
        refine List.pairwise_cons.2 ⟨fun e he => ?_, ih hrest⟩
        rcases mem_placeEntry he with rfl | he
        · exact lt_of_not_lt_of_ne hlt hne
        · exact hfirst e he

theorem lookEntry_placeEntry {α : Type} (key : String) (value : α) (entries : List (String × α))
    (k : String) :
    lookEntry k (placeEntry key value entries) =
      if k = key then some value else lookEntry k entries := by
  induction entries with
  | nil => rfl
  | cons entry rest ih =>
    simp only [placeEntry]
    split
    · rfl
    · split
      · next heq =>
        simp only [lookEntry]
        split <;> simp_all
      · next hne =>
        simp only [lookEntry, ih]
        split <;> split <;> simp_all

/-- A map from texts. -/
structure Bindings (α : Type) where
  entries : List (String × α)
  ascending : Ascending entries
deriving DecidableEq

namespace Bindings

variable {α β : Type}

def empty : Bindings α := ⟨[], List.Pairwise.nil⟩

instance : Inhabited (Bindings α) := ⟨empty⟩

/-- Binds a key, in place of what it was bound to. -/
def insert (m : Bindings α) (key : String) (value : α) : Bindings α :=
  ⟨placeEntry key value m.entries, ascending_placeEntry key value m.ascending⟩

def get? (m : Bindings α) (key : String) : Option α := lookEntry key m.entries

def contains (m : Bindings α) (key : String) : Bool := (m.get? key).isSome

def isEmpty (m : Bindings α) : Bool := m.entries.isEmpty

def size (m : Bindings α) : Nat := m.entries.length

/-- The bound keys, in ascending order. -/
def keys (m : Bindings α) : List String := m.entries.map Prod.fst

def toList (m : Bindings α) : List (String × α) := m.entries

/-- Binds one entry after another; the last binding of a key counts. -/
def ofList (entries : List (String × α)) : Bindings α :=
  entries.foldl (fun m e => m.insert e.1 e.2) empty

theorem get?_empty (key : String) : (empty : Bindings α).get? key = none := rfl

theorem get?_insert (m : Bindings α) (key : String) (value : α) (k : String) :
    (m.insert key value).get? k = if k = key then some value else m.get? k :=
  lookEntry_placeEntry key value m.entries k

theorem contains_iff (m : Bindings α) (key : String) :
    m.contains key = true ↔ key ∈ m.keys := by
  obtain ⟨entries, ascending⟩ := m
  simp only [contains, get?, keys]
  clear ascending
  induction entries with
  | nil => simp [lookEntry]
  | cons entry rest ih =>
    simp only [lookEntry, List.map_cons, List.mem_cons]
    split
    · next h => simp [h]
    · next h => simp [h, ih]

theorem lookEntry_of_lt {entries : List (String × α)} {key : String}
    (h : ∀ e ∈ entries, key < e.1) : lookEntry key entries = none := by
  induction entries with
  | nil => rfl
  | cons entry rest ih =>
    have hne : key ≠ entry.1 := fun heq => by
      have hlt := h entry List.mem_cons_self
      rw [← heq] at hlt
      exact String.lt_irrefl key hlt
    rw [lookEntry, if_neg hne]
    exact ih fun e he => h e (List.mem_cons_of_mem _ he)

theorem entries_eq_of_lookEntry {a b : List (String × α)} (ha : Ascending a) (hb : Ascending b)
    (h : ∀ key, lookEntry key a = lookEntry key b) : a = b := by
  induction a generalizing b with
  | nil =>
    cases b with
    | nil => rfl
    | cons e rest => simpa [lookEntry] using h e.1
  | cons x xs ih =>
    obtain ⟨hx, hxs⟩ := List.pairwise_cons.1 ha
    cases b with
    | nil => simpa [lookEntry] using h x.1
    | cons y ys =>
      obtain ⟨hy, hys⟩ := List.pairwise_cons.1 hb
      have hkey : x.1 = y.1 := by
        apply Decidable.byContradiction
        intro hne
        by_cases hlt : x.1 < y.1
        · have hnone : lookEntry x.1 (y :: ys) = none := lookEntry_of_lt fun e he => by
            rcases List.mem_cons.1 he with rfl | he
            · exact hlt
            · exact String.lt_trans hlt (hy e he)
          rw [← h] at hnone
          simp [lookEntry] at hnone
        · have hgt := lt_of_not_lt_of_ne hlt hne
          have hnone : lookEntry y.1 (x :: xs) = none := lookEntry_of_lt fun e he => by
            rcases List.mem_cons.1 he with rfl | he
            · exact hgt
            · exact String.lt_trans hgt (hx e he)
          rw [h] at hnone
          simp [lookEntry] at hnone
      have hvalue : x.2 = y.2 := by simpa [lookEntry, hkey] using h x.1
      have hentry : x = y := Prod.ext hkey hvalue
      subst hentry
      congr 1
      refine ih hxs hys fun key => ?_
      by_cases hk : key = x.1
      · subst hk
        rw [lookEntry_of_lt hx, lookEntry_of_lt hy]
      · simpa [lookEntry, hk] using h key

/-- Maps that bind every key alike are equal. -/
theorem ext_get? {a b : Bindings α} (h : ∀ key, a.get? key = b.get? key) : a = b := by
  obtain ⟨ea, ha⟩ := a
  obtain ⟨eb, hb⟩ := b
  have := entries_eq_of_lookEntry ha hb h
  subst this
  rfl

/-- The bindings of the first map, then those of the second one, which count where both bind. -/
def insertAll (m : Bindings α) (entries : List (String × α)) : Bindings α :=
  entries.foldl (fun m e => m.insert e.1 e.2) m

end Bindings

end ItemTable
