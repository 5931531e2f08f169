import ItemTable.Text.Blank
import Mathlib.Data.List.TakeWhile

/-!
# Spans of a text

What a reader takes from the front of a text as long as a test holds, and what it leaves: the text
is split where the test fails first (`span_append`). Trimming drops such a span of blanks at either
end, so what it leaves of a text is found between blanks (`trim_between`, `exists_trim`).
-/
namespace ItemTable.Text

/-- A test that holds inside and fails right behind splits a list there. -/
theorem span_append {α : Type} {p : α → Bool} {xs rest : List α} (inside : ∀ x ∈ xs, p x = true)
    (behind : ∀ x ∈ rest.head?, p x = false) :
    (xs ++ rest).takeWhile p = xs ∧ (xs ++ rest).dropWhile p = rest := by
  rw [List.takeWhile_append_of_pos inside, List.dropWhile_append_of_pos inside]
  cases rest with
  | nil => exact ⟨List.append_nil _, rfl⟩
  | cons x rest =>
    have hx := behind x rfl
    rw [List.takeWhile_cons, List.dropWhile_cons, hx, if_neg Bool.false_ne_true,
      if_neg Bool.false_ne_true]
    exact ⟨List.append_nil _, rfl⟩

/-- The test fails right behind what it drops. -/
theorem not_of_mem_head?_dropWhile {α : Type} {p : α → Bool} (xs : List α) :
    ∀ x ∈ (xs.dropWhile p).head?, p x = false := by
  intro x hx
  have hnot := List.head?_dropWhile_not p xs
  rwa [Option.mem_def.1 hx] at hnot

/-- White space only, or nothing at all. -/
def AreBlank (cs : List Char) : Prop := ∀ c ∈ cs, isBlank c = true

/-- What is neither empty nor ends in blanks is what is left of it between blanks. -/
theorem trim_between {before cs after : List Char} (hbefore : AreBlank before)
    (hafter : AreBlank after) (hcs : ∀ c ∈ cs, isBlank c = false) (hne : cs ≠ []) :
    trim (before ++ cs ++ after) = cs := by
  have hfirst : ∀ c ∈ (cs ++ after).head?, isBlank c = false := by
    obtain ⟨first, rest, rfl⟩ := List.exists_cons_of_ne_nil hne
    intro c hc
    cases hc
    exact hcs first List.mem_cons_self
  have hlast : ∀ c ∈ cs.reverse.head?, isBlank c = false := fun c hc =>
    hcs c (List.mem_reverse.1 (List.mem_of_mem_head? hc))
  have hafter' : AreBlank after.reverse := fun c hc => hafter c (List.mem_reverse.1 hc)
  rw [trim, List.append_assoc, (span_append hbefore hfirst).2, List.reverse_append,
    (span_append hafter' hlast).2, List.reverse_reverse]

/-- Every text is what trimming leaves of it, between blanks. -/
theorem exists_trim (cs : List Char) :
    ∃ before after, cs = before ++ trim cs ++ after ∧ AreBlank before ∧ AreBlank after := by
  have htake (ds : List Char) : AreBlank (ds.takeWhile isBlank) :=
    List.all_eq_true.1 List.all_takeWhile
  have hfront := List.takeWhile_append_dropWhile (p := isBlank) (l := cs)
  have hback := List.takeWhile_append_dropWhile (p := isBlank) (l := (cs.dropWhile isBlank).reverse)
  refine ⟨cs.takeWhile isBlank, ((cs.dropWhile isBlank).reverse.takeWhile isBlank).reverse, ?_,
    htake cs, fun c hc => htake _ c (List.mem_reverse.1 hc)⟩
  rw [trim, List.append_assoc, ← List.reverse_append, hback, List.reverse_reverse, hfront]

end ItemTable.Text
