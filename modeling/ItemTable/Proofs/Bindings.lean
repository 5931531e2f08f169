import ItemTable.Bindings
import Mathlib.Data.List.Induction
import Mathlib.Data.List.Sigma

/-!
# What maps bind

Membership in a map and in its keys, in terms of what its keys are bound to, and the maps that lists
of bindings make. Two maps have a union unless they clash, and then it keeps what each of them
binds: `IsUnion.get?_left`, `IsUnion.get?_right`.
-/
namespace ItemTable.Bindings

variable {α : Type}

theorem get?_eq_some_iff (m : Bindings α) (key : String) (a : α) :
    m.get? key = some a ↔ (key, a) ∈ m.entries := by
  obtain ⟨entries, ascending⟩ := m
  show lookEntry key entries = some a ↔ (key, a) ∈ entries
  induction entries with
  | nil => simp [lookEntry]
  | cons entry rest ih =>
    obtain ⟨hfirst, hrest⟩ := List.pairwise_cons.1 ascending
    rw [lookEntry, List.mem_cons]
    split
    · next heq =>
      have hnot : (key, a) ∉ rest := fun hmem => by
        have hlt := hfirst (key, a) hmem
        rw [← heq] at hlt
        exact String.lt_irrefl key hlt
      constructor
      · intro hsome
        left
        exact Prod.ext heq (Option.some.inj hsome).symm
      · rintro (rfl | hmem)
        · rfl
        · exact absurd hmem hnot
    · next hne =>
      rw [ih hrest]
      constructor
      · exact .inr
      · rintro (rfl | hmem)
        · exact absurd rfl hne
        · exact hmem

theorem mem_keys_iff (m : Bindings α) (key : String) : key ∈ m.keys ↔ ∃ a, m.get? key = some a := by
  rw [← contains_iff, contains, Option.isSome_iff_exists]

theorem mem_keys_insert (m : Bindings α) (key : String) (a : α) (k : String) :
    k ∈ (m.insert key a).keys ↔ k = key ∨ k ∈ m.keys := by
  rw [mem_keys_iff, mem_keys_iff, get?_insert]
  by_cases heq : k = key
  · simp [heq]
  · simp [heq]

theorem length_placeEntry {key : String} (a : α) {entries : List (String × α)}
    (hnew : lookEntry key entries = none) :
    (placeEntry key a entries).length = entries.length + 1 := by
  induction entries with
  | nil => rfl
  | cons entry rest ih =>
    rw [lookEntry] at hnew
    split at hnew
    · cases hnew
    · next hne =>
      rw [placeEntry, if_neg hne]
      split
      · rfl
      · rw [List.length_cons, ih hnew, List.length_cons]

/-- A key that is not bound yet adds one binding. -/
theorem size_insert {m : Bindings α} {key : String} {a : α} (hnew : m.get? key = none) :
    (m.insert key a).size = m.size + 1 :=
  length_placeEntry a hnew

theorem keys_empty : (empty : Bindings α).keys = [] := rfl

theorem ofList_snoc (entries : List (String × α)) (e : String × α) :
    ofList (entries ++ [e]) = (ofList entries).insert e.1 e.2 := by
  rw [ofList, List.foldl_append]
  rfl

theorem mem_keys_ofList (entries : List (String × α)) (key : String) :
    key ∈ (ofList entries).keys ↔ key ∈ entries.map Prod.fst := by
  induction entries using List.reverseRecOn with
  | nil => rfl
  | append_singleton entries e ih =>
    rw [ofList_snoc, mem_keys_insert, ih, List.map_append, List.mem_append, or_comm]
    simp

/-- A list of bindings binds nothing of its own. -/
theorem mem_of_get?_ofList {entries : List (String × α)} {key : String} {a : α}
    (h : (ofList entries).get? key = some a) : (key, a) ∈ entries := by
  induction entries using List.reverseRecOn with
  | nil => cases h
  | append_singleton entries e ih =>
    rw [ofList_snoc, get?_insert] at h
    rw [List.mem_append]
    split at h
    · next heq =>
      cases h
      exact .inr (List.mem_singleton.2 (Prod.ext heq rfl))
    · exact .inl (ih h)

/-- A list that binds no key twice binds each of them to what stands with it. -/
theorem get?_ofList_of_nodup {entries : List (String × α)} (h : (entries.map Prod.fst).Nodup)
    {e : String × α} (he : e ∈ entries) : (ofList entries).get? e.1 = some e.2 := by
  induction entries using List.reverseRecOn with
  | nil => cases he
  | append_singleton entries last ih =>
    rw [List.map_append, List.nodup_append] at h
    obtain ⟨hnodup, -, hdisjoint⟩ := h
    rw [ofList_snoc, get?_insert]
    rcases List.mem_append.1 he with hold | hnew
    · have hne : e.1 ≠ last.1 :=
        hdisjoint e.1 (List.mem_map_of_mem hold) last.1 (List.mem_singleton.2 rfl)
      rw [if_neg hne]
      exact ih hnodup hold
    · rw [List.mem_singleton.1 hnew, if_pos rfl]

/-- What is bound to numbered keys has the number of its place. -/
theorem get?_ofList_zipIdx {numbered : Nat → String} (hinj : ∀ m n, numbered m = numbered n → m = n)
    (as : List α) (key : String) (a : α) :
    (ofList (as.zipIdx.map fun (a, number) => (numbered number, a))).get? key = some a ↔
      ∃ number, key = numbered number ∧ as[number]? = some a := by
  have hnodup : ((as.zipIdx.map fun (a, number) => (numbered number, a)).map Prod.fst).Nodup := by
    have hkeys : Prod.fst ∘ (fun (a, number) => (numbered number, a)) =
        numbered ∘ (Prod.snd : α × Nat → Nat) := rfl
    rw [List.map_map, hkeys, ← List.map_map]
    exact List.Nodup.map (fun m n heq => hinj m n heq) (List.nodup_zipIdx_map_snd as)
  constructor
  · intro hget
    obtain ⟨⟨b, number⟩, hplace, heq⟩ := List.mem_map.1 (mem_of_get?_ofList hget)
    obtain ⟨rfl, rfl⟩ := Prod.mk.inj heq
    exact ⟨number, rfl, List.mem_zipIdx_iff_getElem?.1 hplace⟩
  · rintro ⟨number, rfl, hget⟩
    have hmem : (numbered number, a) ∈ as.zipIdx.map (fun (a, number) => (numbered number, a)) :=
      List.mem_map.2 ⟨(a, number), List.mem_zipIdx_iff_getElem?.2 hget, rfl⟩
    exact get?_ofList_of_nodup hnodup hmem

/-- A map binds what two maps bind, and nothing else. -/
def IsUnion (whole a b : Bindings α) : Prop :=
  ∀ key x, whole.get? key = some x ↔ a.get? key = some x ∨ b.get? key = some x

/-- Two maps bind a key to different things. -/
def ClashAt (a b : Bindings α) (key : String) : Prop :=
  ∃ x y, a.get? key = some x ∧ b.get? key = some y ∧ x ≠ y

namespace IsUnion

variable {whole a b : Bindings α} {key : String}

theorem mem_keys (h : whole.IsUnion a b) : key ∈ whole.keys ↔ key ∈ a.keys ∨ key ∈ b.keys := by
  simp only [mem_keys_iff, h key, exists_or]

theorem get?_left (h : whole.IsUnion a b) (hkey : key ∈ a.keys) : whole.get? key = a.get? key := by
  obtain ⟨x, hx⟩ := (mem_keys_iff a key).1 hkey
  rw [hx, h key x]
  exact .inl hx

theorem get?_right (h : whole.IsUnion a b) (hkey : key ∈ b.keys) : whole.get? key = b.get? key := by
  obtain ⟨x, hx⟩ := (mem_keys_iff b key).1 hkey
  rw [hx, h key x]
  exact .inr hx

/-- A union satisfies what both maps satisfy. -/
theorem keeps {P : String → α → Prop} (h : whole.IsUnion a b)
    (ha : ∀ key x, a.get? key = some x → P key x) (hb : ∀ key x, b.get? key = some x → P key x) :
    ∀ key x, whole.get? key = some x → P key x :=
  fun key x hget => ((h key x).1 hget).elim (ha key x) (hb key x)

theorem not_clashAt (h : whole.IsUnion a b) (key : String) : ¬a.ClashAt b key := by
  rintro ⟨x, y, hx, hy, hne⟩
  have hleft := (h key x).2 (.inl hx)
  have hright := (h key y).2 (.inr hy)
  exact hne (Option.some.inj (hleft.symm.trans hright))

end IsUnion

end ItemTable.Bindings
