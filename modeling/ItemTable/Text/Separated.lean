/-! Texts with a separator: joining parts and splitting at one character. -/
namespace ItemTable.Text

/-- The parts one after another with `separator` between neighbours. -/
def joinWith (separator : String) : List String → String
  | [] => ""
  | [part] => part
  | part :: next :: rest => part ++ separator ++ joinWith separator (next :: rest)

/-- The parts between the separators; a text without separator is one part. -/
def splitAt (separator : Char) : List Char → List (List Char)
  | [] => [[]]
  | c :: rest =>
    if c = separator then [] :: splitAt separator rest
    else
      match splitAt separator rest with
      | [] => [[c]]
      | part :: parts => (c :: part) :: parts

theorem splitAt_ne_nil (separator : Char) (cs : List Char) : splitAt separator cs ≠ [] := by
  cases cs with
  | nil => simp [splitAt]
  | cons c rest =>
    simp only [splitAt]
    split
    · simp
    · split <;> simp

/-- Splitting adds no character. -/
theorem mem_of_mem_splitAt {separator : Char} {cs part : List Char} {c : Char}
    (hpart : part ∈ splitAt separator cs) (hc : c ∈ part) : c ∈ cs := by
  induction cs generalizing part with
  | nil =>
    rw [splitAt, List.mem_singleton] at hpart
    rw [hpart] at hc
    exact hc
  | cons d rest ih =>
    rw [splitAt] at hpart
    split at hpart
    · rcases List.mem_cons.1 hpart with rfl | hpart
      · cases hc
      · exact List.mem_cons_of_mem d (ih hpart hc)
    · split at hpart
      · rw [List.mem_singleton] at hpart
        rw [hpart, List.mem_singleton] at hc
        rw [hc]
        exact List.mem_cons_self
      · next first parts heq =>
        rw [heq] at ih
        rcases List.mem_cons.1 hpart with rfl | hpart
        · rcases List.mem_cons.1 hc with rfl | hc
          · exact List.mem_cons_self
          · exact List.mem_cons_of_mem d (ih List.mem_cons_self hc)
        · exact List.mem_cons_of_mem d (ih (List.mem_cons_of_mem _ hpart) hc)

/-- No part holds the separator. -/
theorem not_mem_of_mem_splitAt {separator : Char} {cs part : List Char}
    (h : part ∈ splitAt separator cs) : separator ∉ part := by
  induction cs generalizing part with
  | nil =>
    rw [splitAt, List.mem_singleton] at h
    rw [h]
    exact List.not_mem_nil
  | cons c rest ih =>
    obtain ⟨first, parts, hparts⟩ := List.exists_cons_of_ne_nil (splitAt_ne_nil separator rest)
    rw [splitAt] at h
    split at h
    · rcases List.mem_cons.1 h with rfl | h
      · exact List.not_mem_nil
      · exact ih h
    · next hne =>
      rw [hparts] at h ih
      rcases List.mem_cons.1 h with rfl | h
      · rw [List.mem_cons, not_or]
        exact ⟨fun heq => hne heq.symm, ih List.mem_cons_self⟩
      · exact ih (List.mem_cons_of_mem _ h)

/-- Splitting loses nothing but separators. -/
theorem exists_mem_splitAt {separator c : Char} (hne : c ≠ separator) {cs : List Char}
    (hc : c ∈ cs) : ∃ part ∈ splitAt separator cs, c ∈ part := by
  induction cs with
  | nil => cases hc
  | cons d rest ih =>
    rw [splitAt]
    split
    · next heq =>
      have hrest : c ∈ rest := (List.mem_cons.1 hc).resolve_left fun h => hne (h.trans heq)
      obtain ⟨part, hpart, hmem⟩ := ih hrest
      exact ⟨part, List.mem_cons_of_mem _ hpart, hmem⟩
    · split
      · next hnil => exact absurd hnil (splitAt_ne_nil separator rest)
      · next first parts heq =>
        rcases List.mem_cons.1 hc with rfl | hrest
        · exact ⟨c :: first, List.mem_cons_self, List.mem_cons_self⟩
        · obtain ⟨part, hpart, hmem⟩ := ih hrest
          rw [heq] at hpart
          rcases List.mem_cons.1 hpart with rfl | hpart
          · exact ⟨d :: part, List.mem_cons_self, List.mem_cons_of_mem d hmem⟩
          · exact ⟨part, List.mem_cons_of_mem _ hpart, hmem⟩

/-- Joining the parts of a text again, character by character, gives the text. -/
theorem intercalate_splitAt {β : Type} (f : Char → β) (separator : Char) (cs : List Char) :
    [f separator].intercalate ((splitAt separator cs).map (List.map f)) = cs.map f := by
  induction cs with
  | nil => rfl
  | cons c rest ih =>
    obtain ⟨part, parts, hparts⟩ := List.exists_cons_of_ne_nil (splitAt_ne_nil separator rest)
    rw [hparts, List.map_cons] at ih
    rw [splitAt, hparts]
    split
    · next heq =>
      rw [List.map_cons, List.map_cons, List.intercalate_cons_cons, ih, heq]
      rfl
    · rw [List.map_cons, List.map_cons, List.map_cons, ← ih]
      cases parts with
      | nil => rfl
      | cons next others =>
        rw [List.map_cons, List.intercalate_cons_cons, List.intercalate_cons_cons]
        rfl

/-- A text without the separator is one part. -/
theorem splitAt_of_not_mem {separator : Char} {cs : List Char} (h : separator ∉ cs) :
    splitAt separator cs = [cs] := by
  induction cs with
  | nil => rfl
  | cons c rest ih =>
    rw [List.mem_cons, not_or] at h
    rw [splitAt, if_neg fun heq => h.1 heq.symm, ih h.2]

/-- A part ends at the first separator. -/
theorem splitAt_append_cons {separator : Char} {cs : List Char} (h : separator ∉ cs)
    (rest : List Char) :
    splitAt separator (cs ++ separator :: rest) = cs :: splitAt separator rest := by
  induction cs with
  | nil => rw [List.nil_append, splitAt, if_pos rfl]
  | cons c cs ih =>
    rw [List.mem_cons, not_or] at h
    rw [List.cons_append, splitAt, if_neg fun heq => h.1 heq.symm, ih h.2]

theorem toList_joinWith (separator : String) (parts : List String) :
    (joinWith separator parts).toList =
      separator.toList.intercalate (parts.map String.toList) := by
  fun_induction joinWith separator parts with
  | case1 => rfl
  | case2 part => simp
  | case3 part next rest ih =>
    rw [String.toList_append, String.toList_append, ih, List.map_cons, List.map_cons, List.map_cons,
      List.intercalate_cons_cons]

theorem joinWith_eq_intercalate (separator : String) (parts : List String) :
    joinWith separator parts = separator.intercalate parts := by
  rw [← String.toList_inj, toList_joinWith, String.toList_intercalate]

/-- What holds of the characters of all parts and of the separator holds of those of the whole. -/
theorem forall_mem_joinWith {p : Char → Prop} {separator : String} {parts : List String}
    (hseparator : ∀ c ∈ separator.toList, p c) (hparts : ∀ part ∈ parts, ∀ c ∈ part.toList, p c) :
    ∀ c ∈ (joinWith separator parts).toList, p c := by
  fun_induction joinWith separator parts with
  | case1 => simp
  | case2 part => exact hparts part List.mem_cons_self
  | case3 part next rest ih =>
    obtain ⟨hpart, hrest⟩ := List.forall_mem_cons.1 hparts
    simp only [String.toList_append, List.forall_mem_append]
    exact ⟨⟨hpart, hseparator⟩, ih hrest⟩

/-- Joining undoes splitting. -/
theorem joinWith_splitAt (separator : Char) (text : String) :
    joinWith (String.ofList [separator]) ((splitAt separator text.toList).map String.ofList) =
      text := by
  have hsame : String.toList ∘ String.ofList = id := funext fun _ => String.toList_ofList
  have hparts := intercalate_splitAt id separator text.toList
  rw [List.map_id_fun, List.map_id] at hparts
  rw [← String.toList_inj, toList_joinWith, List.map_map, hsame, List.map_id, String.toList_ofList]
  exact hparts

/-- Splitting undoes joining, if there is a part and none of them holds the separator. -/
theorem splitAt_joinWith {separator : Char} {parts : List String} (hne : parts ≠ [])
    (h : ∀ part ∈ parts, separator ∉ part.toList) :
    splitAt separator (joinWith (String.ofList [separator]) parts).toList =
      parts.map String.toList := by
  induction parts with
  | nil => exact absurd rfl hne
  | cons part rest ih =>
    have hpart := h part List.mem_cons_self
    cases rest with
    | nil => exact splitAt_of_not_mem hpart
    | cons next rest =>
      have hrest := ih (List.cons_ne_nil next rest) fun p hp => h p (List.mem_cons_of_mem _ hp)
      rw [joinWith, String.toList_append, String.toList_append, String.toList_ofList,
        List.append_assoc, List.singleton_append, splitAt_append_cons hpart, hrest]
      rfl

end ItemTable.Text
