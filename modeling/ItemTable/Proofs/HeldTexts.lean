import ItemTable.Value

/-!
# The texts inside a value

A value holds a text as itself, as an element of a set, or inside a list or a map at any depth. The
longest text of a value bounds all of them, and nothing shorter does: `longestText_le_iff`.
-/
namespace ItemTable.AttributeValue

/-- The text stands somewhere in the value. The keys of a map are not counted. -/
inductive Holds : AttributeValue → String → Prop
  | text (s : String) : Holds (.text s) s
  | element {elements : List String} {s : String} (h : s ∈ elements) : Holds (.textSet elements) s
  | item {items : List AttributeValue} {a : AttributeValue} {s : String} (hmem : a ∈ items)
      (h : Holds a s) : Holds (.list items) s
  | entry {entries : List (String × AttributeValue)} {key : String} {a : AttributeValue}
      {s : String} (hmem : (key, a) ∈ entries) (h : Holds a s) : Holds (.map entries) s

theorem foldl_max_le_iff (elements : List String) (start n : Nat) :
    elements.foldl (fun n s => max n s.length) start ≤ n ↔
      start ≤ n ∧ ∀ s ∈ elements, s.length ≤ n := by
  induction elements generalizing start with
  | nil => simp
  | cons s rest ih =>
    rw [List.foldl_cons, ih, Nat.max_le, List.forall_mem_cons, and_assoc]

mutual

/-- A bound on the longest text is one on every text that the value holds. -/
theorem longestText_le_iff (n : Nat) :
    ∀ v : AttributeValue, v.longestText ≤ n ↔ ∀ s, v.Holds s → s.length ≤ n
  | text s => by
    refine ⟨fun h s' hs' => ?_, fun h => h s (.text s)⟩
    cases hs'
    exact h
  | textSet elements => by
    rw [longestText, foldl_max_le_iff]
    refine ⟨fun h s hs => ?_, fun h => ⟨Nat.zero_le n, fun s hs => h s (.element hs)⟩⟩
    cases hs with
    | element hmem => exact h.2 s hmem
  | list items => by
    rw [longestText, longestOfItems_le_iff n items]
    refine ⟨fun h s hs => ?_, fun h a ha s hs => h s (.item ha hs)⟩
    cases hs with
    | item hmem hs => exact h _ hmem s hs
  | map entries => by
    rw [longestText, longestOfEntries_le_iff n entries]
    refine ⟨fun h s hs => ?_, fun h key a ha s hs => h s (.entry ha hs)⟩
    cases hs with
    | entry hmem hs => exact h _ _ hmem s hs
  | number _ | binary _ | numberSet _ | binarySet _ | boolean _ | null _ => by
    refine iff_of_true (Nat.zero_le n) fun s hs => ?_
    cases hs

theorem longestOfItems_le_iff (n : Nat) : ∀ items : List AttributeValue,
    longestOfItems items ≤ n ↔ ∀ a ∈ items, ∀ s, a.Holds s → s.length ≤ n
  | [] => by simp [longestOfItems]
  | a :: rest => by
    rw [longestOfItems, Nat.max_le, longestText_le_iff n a, longestOfItems_le_iff n rest,
      List.forall_mem_cons]

theorem longestOfEntries_le_iff (n : Nat) : ∀ entries : List (String × AttributeValue),
    longestOfEntries entries ≤ n ↔ ∀ key a, (key, a) ∈ entries → ∀ s, a.Holds s → s.length ≤ n
  | [] => by simp [longestOfEntries]
  | (key, a) :: rest => by
    rw [longestOfEntries, Nat.max_le, longestText_le_iff n a, longestOfEntries_le_iff n rest]
    constructor
    · rintro ⟨hfirst, hrest⟩ key' a' hmem
      rcases List.mem_cons.1 hmem with heq | hmem
      · cases heq
        exact hfirst
      · exact hrest key' a' hmem
    · intro h
      exact ⟨h key a List.mem_cons_self,
        fun key' a' hmem => h key' a' (List.mem_cons_of_mem _ hmem)⟩

end

end ItemTable.AttributeValue
