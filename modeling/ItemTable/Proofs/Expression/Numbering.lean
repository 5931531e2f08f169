import ItemTable.Proofs.Expression.AdoptedFilter

/-!
# Names keep their numbers

Whatever is written with a resolver asks for names one after another. `Asks` says which names these
are: each of them gets the next number when it is asked for the first time, and as long as they keep
their numbers the same text is written again and nothing is added. Everything that a resolver writes
is put together from segments and literal names (`Asks.seq`), so that a resolver has numbered the
names in the order of their first use, whatever it has been asked to write: `Resolver.after_eq`.
Paths can be read back from what is written for them, also by a resolver that has gone on:
`Resolver.paths_settled`.
-/
namespace ItemTable.Expression

/-- The names after one more has been asked for. -/
def addName (known : List String) (name : String) : List String :=
  if name ∈ known then known else known ++ [name]

theorem prefix_addName (known : List String) (name : String) : known <+: addName known name := by
  unfold addName
  split
  · exact List.prefix_rfl
  · exact List.prefix_append known [name]

theorem prefix_foldl_addName (names known : List String) : known <+: names.foldl addName known := by
  induction names generalizing known with
  | nil => exact List.prefix_rfl
  | cons name rest ih => exact (prefix_addName known name).trans (ih _)

/-- New names are kept in the order of their first use. -/
theorem foldl_addName_eq (names known : List String) :
    names.foldl addName known = known ++ (names.filter (· ∉ known)).eraseDups := by
  induction names using List.reverseRecOn with
  | nil => exact (List.append_nil known).symm
  | append_singleton names name ih =>
    rw [List.foldl_append, ih, List.foldl_cons, List.foldl_nil, List.filter_append, addName]
    by_cases hknown : name ∈ known
    · simp [hknown]
    · have hone : [name].filter (· ∉ known) = [name] := by simp [hknown]
      rw [hone, List.eraseDups_append]
      by_cases hname : name ∈ names
      · simp [List.removeAll, hname, hknown]
      · simp [List.removeAll, hname, hknown, List.eraseDups_cons]

theorem foldl_addName (names : List String) : names.foldl addName [] = names.eraseDups := by
  simp [foldl_addName_eq]

theorem mem_foldl_addName {names known : List String} {name : String} :
    name ∈ names.foldl addName known ↔ name ∈ known ∨ name ∈ names := by
  rw [foldl_addName_eq, List.mem_append, List.mem_eraseDups, List.mem_filter, decide_eq_true_eq]
  tauto

/-- A name has the same place among more names. -/
theorem idxOf?_of_prefix {known later : List String} (h : known <+: later) {name : String}
    {number : Nat} (hname : known.idxOf? name = some number) : later.idxOf? name = some number := by
  obtain ⟨added, rfl⟩ := h
  obtain ⟨hlt, hget, hfirst⟩ := List.idxOf?_eq_some_iff.1 hname
  refine List.idxOf?_eq_some_iff.2 ⟨?_, ?_, fun j hj => ?_⟩
  · rw [List.length_append]
    omega
  · rw [List.getElem_append_left hlt, hget]
  · rw [List.getElem_append_left (by omega)]
    exact hfirst j hj

/-- A new name has the place behind the others. -/
theorem idxOf?_snoc {known : List String} {name : String} (hnew : name ∉ known) (other : String) :
    (known ++ [name]).idxOf? other =
      if other = name then some known.length else known.idxOf? other := by
  split
  · next heq =>
    subst heq
    refine List.idxOf?_eq_some_iff.2 ⟨by simp, by simp, fun j hj => ?_⟩
    rw [List.getElem_append_left hj]
    exact fun heq => hnew (heq ▸ List.getElem_mem hj)
  · next hne =>
    cases hknown : known.idxOf? other with
    | some number => exact idxOf?_of_prefix (List.prefix_append known [name]) hknown
    | none =>
      rw [List.idxOf?_eq_none_iff] at hknown ⊢
      simp [hknown, hne]

/-- The names that something written with a resolver asks for, in order and as often as they come
up. It adds those that are new, and it is written the same again as long as they keep their
numbers. -/
structure Asks (passthrough : List String) {α : Type} (write : Resolver → α × Resolver)
    (names : List String) : Prop where
  adds : ∀ known,
    (write { passthrough, assigned := known }).2 =
      { passthrough, assigned := names.foldl addName known }
  again : ∀ known later, names.foldl addName known <+: later →
    write { passthrough, assigned := later } =
      ((write { passthrough, assigned := known }).1, { passthrough, assigned := later })

namespace Asks

variable {passthrough : List String} {α β γ : Type} {write : Resolver → α × Resolver}
  {write' : Resolver → β × Resolver} {names names' : List String}

theorem pure (passthrough : List String) (a : α) : Asks passthrough (fun r => (a, r)) [] where
  adds := fun _ => rfl
  again := fun _ _ _ => rfl

theorem map (h : Asks passthrough write names) (f : α → γ) :
    Asks passthrough (fun r => (f (write r).1, (write r).2)) names where
  adds := h.adds
  again := fun known later hlater => by rw [h.again known later hlater]

/-- What is written alike asks for the same names. -/
theorem of_eq {write' : Resolver → α × Resolver} (h : Asks passthrough write names)
    (heq : ∀ known, write' { passthrough, assigned := known } =
      write { passthrough, assigned := known }) : Asks passthrough write' names where
  adds := fun known => by rw [heq, h.adds]
  again := fun known later hlater => by rw [heq, heq, h.again known later hlater]

/-- What asks for known names only adds nothing. -/
theorem of_known (h : Asks passthrough write names) {known : List String}
    (hknown : ∀ name ∈ names, name ∈ known) :
    (write { passthrough, assigned := known }).2 = { passthrough, assigned := known } := by
  have hnone : names.filter (· ∉ known) = [] := by simpa using hknown
  rw [h.adds, foldl_addName_eq, hnone]
  simp

/-- What has been written is written the same by every resolver that has gone on from there. -/
theorem settled (h : Asks passthrough write names) {r : Resolver} {known : List String}
    (hr : r = { passthrough, assigned := known }) {later : List String}
    (hlater : (write r).2.assigned <+: later) :
    (write { passthrough, assigned := later }).1 = (write r).1 := by
  subst hr
  rw [h.adds] at hlater
  rw [h.again known later hlater]

/-- Two things that are written one after the other ask for the names of both. -/
theorem seq (h : Asks passthrough write names) (h' : Asks passthrough write' names')
    (f : α → β → γ) :
    Asks passthrough
      (fun r => (f (write r).1 (write' (write r).2).1, (write' (write r).2).2))
      (names ++ names') where
  adds := fun known => by rw [h.adds, h'.adds, List.foldl_append]
  again := by
    intro known later hlater
    rw [List.foldl_append] at hlater
    have hfirst := h.again known later ((prefix_foldl_addName names' _).trans hlater)
    have hsecond := h'.again (names.foldl addName known) later hlater
    simp only [hfirst, hsecond, h.adds]

end Asks

/-- A segment without the list index at its end. -/
def segmentName (s : List Char) : String := String.ofList (s.takeWhile (· ≠ '['))

/-- The name of a segment, if it is replaced. -/
def segmentNames (passthrough : List String) (s : List Char) : List String :=
  if isLeft passthrough (segmentName s) then [] else [segmentName s]

/-- The names of a path that are replaced. -/
def pathNames (passthrough : List String) (p : String) : List String :=
  (Text.splitAt '.' p.toList).flatMap (segmentNames passthrough)

/-- The name of a token in a free expression, if it is bare and replaced. -/
def tokenNames (passthrough : List String) (t : Token) : List String :=
  if t.kind = .identifier then segmentNames passthrough t.text else []

/-- A literal name, unless it is written bare. -/
def literalNames (passthrough : List String) (name : String) : List String :=
  if isPlainName name && isLeft passthrough name then [] else [name]

namespace Resolver

/-- The placeholder that a name has. -/
def placeholder? (r : Resolver) (name : String) : Option String :=
  (r.assigned.idxOf? name).map namePlaceholder

theorem placeholder_eq_of_known {r : Resolver} {name key : String}
    (h : r.placeholder? name = some key) : r.placeholder name = (key, r) := by
  obtain ⟨number, hnumber, rfl⟩ := Option.map_eq_some_iff.1 h
  simp only [placeholder_def, hnumber]

/-- A name that has been asked for has a placeholder, the one that is written for it. -/
theorem placeholder_addName (passthrough known : List String) (name : String) :
    ∃ number, (addName known name).idxOf? name = some number ∧
      placeholder { passthrough, assigned := known } name =
        (namePlaceholder number, { passthrough, assigned := addName known name }) := by
  rw [placeholder_def, addName]
  cases hknown : known.idxOf? name with
  | some number =>
    have hmem : name ∈ known := by
      obtain ⟨hlt, rfl, -⟩ := List.idxOf?_eq_some_iff.1 hknown
      exact List.getElem_mem hlt
    simp only [if_pos hmem]
    exact ⟨number, hknown, rfl⟩
  | none =>
    have hnew : name ∉ known := List.idxOf?_eq_none_iff.1 hknown
    simp only [if_neg hnew]
    exact ⟨known.length, by rw [idxOf?_snoc hnew, if_pos rfl], rfl⟩

theorem placeholder_asks (passthrough : List String) (name : String) :
    Asks passthrough (fun r => r.placeholder name) [name] := by
  constructor
  case adds =>
    intro known
    obtain ⟨number, -, heq⟩ := placeholder_addName passthrough known name
    rw [heq]
    rfl
  case again =>
    intro known later hlater
    obtain ⟨number, hnumber, heq⟩ := placeholder_addName passthrough known name
    have hlater := idxOf?_of_prefix hlater hnumber
    rw [heq]
    exact placeholder_eq_of_known (by rw [placeholder?, hlater]; rfl)

/-- A segment is written as it stands, or with a placeholder in front of its list index. -/
theorem segment_eq {σ : Type} [NameStore σ] (r : Resolver σ) (s : List Char) :
    r.segment s = if isLeft r.passthrough (segmentName s) = true then (s, r)
      else ((r.placeholder (segmentName s)).1.toList ++ s.dropWhile (· ≠ '['),
        (r.placeholder (segmentName s)).2) := by
  -- the empty name needs no placeholder, so that the test for it changes nothing
  have hempty (name : String) (h : name.isEmpty = true) : needsPlaceholder name = false := by
    rw [String.isEmpty_iff.1 h]
    decide +kernel
  unfold segment isLeft segmentName
  generalize String.ofList (s.takeWhile (· ≠ '[')) = name
  by_cases h : name.isEmpty = true
  · simp [h, hempty name h]
  · simp [h]

theorem segment_asks (passthrough : List String) (s : List Char) :
    Asks passthrough (fun r => r.segment s) (segmentNames passthrough s) := by
  unfold segmentNames
  by_cases hleft : isLeft passthrough (segmentName s) = true
  · rw [if_pos hleft]
    exact (Asks.pure passthrough s).of_eq fun known => by rw [segment_eq, if_pos hleft]
  · rw [if_neg hleft]
    have hname := (placeholder_asks passthrough (segmentName s)).map
      fun text => text.toList ++ s.dropWhile (· ≠ '[')
    exact hname.of_eq fun known => by rw [segment_eq, if_neg hleft]

theorem segments_asks (passthrough : List String) (ss : List (List Char)) :
    Asks passthrough (fun r => r.segments ss) (ss.flatMap (segmentNames passthrough)) := by
  induction ss with
  | nil => exact .pure passthrough []
  | cons s rest ih =>
    exact (segment_asks passthrough s).seq ih fun text texts => String.ofList text :: texts

theorem path_asks (passthrough : List String) (p : String) :
    Asks passthrough (fun r => r.path p) (pathNames passthrough p) :=
  (segments_asks passthrough (Text.splitAt '.' p.toList)).map (Text.joinWith ".")

theorem paths_asks (passthrough ps : List String) :
    Asks passthrough (fun r => r.paths ps) (ps.flatMap (pathNames passthrough)) := by
  induction ps with
  | nil => exact .pure passthrough []
  | cons p rest ih => exact (path_asks passthrough p).seq ih List.cons

theorem projection_asks (passthrough fields : List String) :
    Asks passthrough (fun r => r.projection fields) (fields.flatMap (pathNames passthrough)) :=
  (paths_asks passthrough fields).map (Text.joinWith ", ")

theorem tokenTexts_asks (passthrough : List String) (ts : List Token) :
    Asks passthrough (fun r => r.tokenTexts ts) (ts.flatMap (tokenNames passthrough)) := by
  induction ts with
  | nil => exact .pure passthrough []
  | cons t rest ih =>
    have hfirst : Asks passthrough
        (fun r => if t.kind = .identifier then r.segment t.text else (t.text, r))
        (tokenNames passthrough t) := by
      unfold tokenNames
      by_cases hkind : t.kind = .identifier
      · simp only [if_pos hkind]
        exact segment_asks passthrough t.text
      · simp only [if_neg hkind]
        exact .pure passthrough t.text
    exact hfirst.seq ih List.cons

theorem expression_asks (passthrough : List String) (text : String) :
    Asks passthrough (fun r => r.expression text)
      ((tokensOf text).flatMap (tokenNames passthrough)) :=
  (tokenTexts_asks passthrough (tokensOf text)).map fun texts => String.ofList texts.flatten

theorem literal_asks (passthrough : List String) (name : String) :
    Asks passthrough (fun r => r.literal name) (literalNames passthrough name) := by
  unfold literalNames
  by_cases hbare : (isPlainName name && isLeft passthrough name) = true
  · rw [if_pos hbare]
    exact (Asks.pure passthrough name.toList).of_eq fun known => by rw [literal_eq, if_pos hbare]
  · rw [if_neg hbare]
    refine ((placeholder_asks passthrough name).map String.toList).of_eq fun known => ?_
    rw [literal_eq, if_neg hbare]

end Resolver

/-- What may be written with a resolver. -/
inductive ResolverCall where
  | path (p : String)
  | projection (fields : List String)
  | expression (text : String)
  | literal (name : String)
  | segment (s : String)

namespace ResolverCall

/-- The text of a call, and the resolver after it. -/
def write {σ : Type} [NameStore σ] : ResolverCall → Resolver σ → String × Resolver σ
  | path p, r => r.path p
  | projection fields, r => r.projection fields
  | expression text, r => r.expression text
  | literal name, r => (String.ofList (r.literal name).1, (r.literal name).2)
  | segment s, r => (String.ofList (r.segment s.toList).1, (r.segment s.toList).2)

/-- The names that a call needs placeholders for, in order and as often as they come up. -/
def replaced (passthrough : List String) : ResolverCall → List String
  | path p => pathNames passthrough p
  | projection fields => fields.flatMap (pathNames passthrough)
  | expression text => (tokensOf text).flatMap (tokenNames passthrough)
  | literal name => literalNames passthrough name
  | segment s => segmentNames passthrough s.toList

/-- The paths of a call that are written with `", "` between them. -/
def paths? : ResolverCall → Option (List String)
  | path p => some [p]
  | projection fields => some fields
  | expression _ | literal _ | segment _ => none

theorem asks (passthrough : List String) (call : ResolverCall) :
    Asks passthrough call.write (call.replaced passthrough) := by
  cases call with
  | path p => exact Resolver.path_asks passthrough p
  | projection fields => exact Resolver.projection_asks passthrough fields
  | expression text => exact Resolver.expression_asks passthrough text
  | literal name => exact (Resolver.literal_asks passthrough name).map String.ofList
  | segment s => exact (Resolver.segment_asks passthrough s.toList).map String.ofList

end ResolverCall

/-- The resolver after calls, with names that are never replaced. -/
def Resolver.after (passthrough : List String) (calls : List ResolverCall)
    (σ : Type := List String) [NameStore σ] : Resolver σ :=
  calls.foldl (fun r call => (call.write r).2) { passthrough }

/-- The names that calls need placeholders for, in the order of their first use. -/
def firstUses (passthrough : List String) (calls : List ResolverCall) : List String :=
  (calls.flatMap (ResolverCall.replaced passthrough)).eraseDups

namespace Resolver

variable {passthrough : List String} {calls : List ResolverCall}

theorem foldl_write (passthrough known : List String) (calls : List ResolverCall) :
    calls.foldl (fun r call => (call.write r).2) { passthrough, assigned := known } =
      { passthrough
        assigned := (calls.flatMap (ResolverCall.replaced passthrough)).foldl addName known } := by
  induction calls generalizing known with
  | nil => rfl
  | cons call rest ih =>
    rw [List.foldl_cons, (call.asks passthrough).adds, ih, List.flatMap_cons, List.foldl_append]

theorem after_eq (passthrough : List String) (calls : List ResolverCall) :
    after passthrough calls = { passthrough, assigned := firstUses passthrough calls } := by
  rw [after, NameStore.empty_list, foldl_write, firstUses, foldl_addName]

/-- The names before a call and those of the call are the first ones of all calls. -/
theorem prefix_firstUses (passthrough : List String) (earlier : List ResolverCall)
    (call : ResolverCall) (later : List ResolverCall) :
    (call.replaced passthrough).foldl addName (firstUses passthrough earlier) <+:
      firstUses passthrough (earlier ++ call :: later) := by
  rw [firstUses, firstUses, ← foldl_addName, ← foldl_addName, List.flatMap_append,
    List.foldl_append, List.flatMap_cons, List.foldl_append]
  exact prefix_foldl_addName _ _

/-- What has been written before is written the same again, and nothing is added. -/
theorem write_again (passthrough : List String) (earlier : List ResolverCall) (call : ResolverCall)
    (later : List ResolverCall) :
    call.write (after passthrough (earlier ++ call :: later)) =
      ((call.write (after passthrough earlier)).1,
        after passthrough (earlier ++ call :: later)) := by
  rw [after_eq, after_eq]
  exact (call.asks passthrough).again _ _ (prefix_firstUses passthrough earlier call later)

theorem write_after {call : ResolverCall} (h : call ∈ calls) :
    (call.write (after passthrough calls)).2 = after passthrough calls := by
  obtain ⟨earlier, later, rfl⟩ := List.append_of_mem h
  exact congrArg Prod.snd (write_again passthrough earlier call later)

theorem after_extends (passthrough : List String) (earlier later : List ResolverCall) :
    (after passthrough earlier).Extends (after passthrough (earlier ++ later)) := by
  rw [Extends, after_eq, after_eq, firstUses, firstUses, ← foldl_addName, ← foldl_addName,
    List.flatMap_append, List.foldl_append]
  exact prefix_foldl_addName _ _

theorem not_mem_namePlaceholder {c : Char} (hc : isWordChar c = false) (hne : c ≠ '#')
    (number : Nat) : c ∉ (namePlaceholder number).toList := by
  rw [toList_namePlaceholder]
  intro hmem
  rcases List.mem_cons.1 hmem with heq | hmem
  · exact hne heq
  · rw [isWordChar_of_mem_numbered hmem] at hc
    cases hc

end Resolver

/-- A segment with a name in place of the placeholder in front of its list index. -/
def restoreSegment (names : Bindings String) (s : List Char) : List Char :=
  match names.get? (segmentName s) with
  | some name => name.toList ++ s.dropWhile (· ≠ '[')
  | none => s

/-- A path with names in place of their placeholders. -/
def restore (names : Bindings String) (text : String) : String :=
  Text.joinWith "."
    ((Text.splitAt '.' text.toList).map fun s => String.ofList (restoreSegment names s))

namespace Resolver

/-- What stands in front of a list index can be told from it. -/
theorem takeWhile_indexed {name : List Char} (hname : '[' ∉ name) (s : List Char) :
    (name ++ s.dropWhile (· ≠ '[')).takeWhile (· ≠ '[') = name ∧
      (name ++ s.dropWhile (· ≠ '[')).dropWhile (· ≠ '[') = s.dropWhile (· ≠ '[') := by
  have hall : ∀ c ∈ name, decide (c ≠ '[') = true := by
    intro c hc
    have hne : c ≠ '[' := fun heq => hname (heq ▸ hc)
    simpa using hne
  exact Text.span_append hall (Text.not_of_mem_head?_dropWhile s)

/-- A segment can be read back, as long as its name keeps its number. -/
theorem segment_restored {r r' : Resolver} {s : List Char} (hhash : '#' ∉ s)
    (h : (r.segment s).2.Extends r') : restoreSegment r'.names (r.segment s).1 = s := by
  rw [segment_eq] at h ⊢
  split
  · -- a name without the sign is no placeholder
    have hnone : r'.names.get? (segmentName s) = none := by
      rw [Option.eq_none_iff_forall_ne_some]
      intro name hname
      obtain ⟨number, hkey, -⟩ := (get?_names_eq_some_iff _ _ _).1 hname
      have hsign : '#' ∈ (segmentName s).toList := by
        rw [hkey, toList_namePlaceholder]
        exact List.mem_cons_self
      rw [segmentName, String.toList_ofList] at hsign
      exact hhash ((List.takeWhile_sublist _).subset hsign)
    simp only [restoreSegment, hnone]
  · next hleft =>
    rw [if_neg hleft] at h
    obtain ⟨-, number, htext, hnumber⟩ := r.placeholder_eq (segmentName s)
    have hbound : r'.names.get? (namePlaceholder number) = some (segmentName s) :=
      h.get?_names ((get?_names_eq_some_iff _ _ _).2 ⟨number, rfl, hnumber⟩)
    obtain ⟨htake, hdrop⟩ :=
      takeWhile_indexed (not_mem_namePlaceholder (by decide) (by decide) number) s
    have hname : segmentName ((namePlaceholder number).toList ++ s.dropWhile (· ≠ '[')) =
        namePlaceholder number := by
      rw [segmentName, htake, String.ofList_toList]
    simp only [restoreSegment, htext, hname, hbound, hdrop]
    rw [segmentName, String.toList_ofList, List.takeWhile_append_dropWhile]

/-- Writing a segment adds no punctuation to it. -/
theorem not_mem_segment (r : Resolver) {s : List Char} {c : Char} (hc : isWordChar c = false)
    (hne : c ≠ '#') (h : c ∉ s) : c ∉ (r.segment s).1 := by
  rw [segment_eq]
  split
  · exact h
  · obtain ⟨-, number, htext, -⟩ := r.placeholder_eq (segmentName s)
    rw [htext, List.mem_append, not_or]
    exact ⟨not_mem_namePlaceholder hc hne number,
      fun hmem => h ((List.dropWhile_sublist _).subset hmem)⟩

theorem segments_restored {passthrough known : List String} {r' : Resolver} {ss : List (List Char)}
    (hhash : ∀ s ∈ ss, '#' ∉ s) (hpoint : ∀ s ∈ ss, '.' ∉ s)
    (h : (ss.flatMap (segmentNames passthrough)).foldl addName known <+: r'.assigned) :
    (∀ text ∈ (segments { passthrough, assigned := known } ss).1, '.' ∉ text.toList) ∧
      (segments { passthrough, assigned := known } ss).1.map
        (fun text => restoreSegment r'.names text.toList) = ss := by
  induction ss generalizing known with
  | nil => exact ⟨fun _ htext => absurd htext List.not_mem_nil, rfl⟩
  | cons s rest ih =>
    rw [List.forall_mem_cons] at hhash hpoint
    rw [List.flatMap_cons, List.foldl_append] at h
    have hadds := (segment_asks passthrough s).adds known
    obtain ⟨hpoints, hrestored⟩ := ih hhash.2 hpoint.2 h
    have hextends : (segment { passthrough, assigned := known } s).2.Extends r' := by
      rw [Extends, hadds]
      exact (prefix_foldl_addName _ _).trans h
    simp only [segments, hadds, List.forall_mem_cons, List.map_cons, String.toList_ofList]
    exact ⟨⟨not_mem_segment _ (by decide) (by decide) hpoint.1, hpoints⟩,
      congrArg₂ List.cons (segment_restored hhash.1 hextends) hrestored⟩

/-- A path can be read back, as long as its names keep their numbers. -/
theorem path_restored {passthrough known : List String} {r' : Resolver} {p : String}
    (hhash : '#' ∉ p.toList)
    (h : (pathNames passthrough p).foldl addName known <+: r'.assigned) :
    restore r'.names (path { passthrough, assigned := known } p).1 = p := by
  obtain ⟨hpoints, hrestored⟩ := segments_restored
    (fun s hs hmem => hhash (Text.mem_of_mem_splitAt hs hmem))
    (fun s hs => Text.not_mem_of_mem_splitAt hs) h
  have hne : (segments { passthrough, assigned := known } (Text.splitAt '.' p.toList)).1 ≠ [] := by
    intro hnil
    rw [hnil] at hrestored
    exact Text.splitAt_ne_nil '.' p.toList hrestored.symm
  have hsplit := Text.splitAt_joinWith hne hpoints
  calc
    restore r'.names (path { passthrough, assigned := known } p).1
    _ = Text.joinWith "." ((segments { passthrough, assigned := known }
          (Text.splitAt '.' p.toList)).1.map
            fun text => String.ofList (restoreSegment r'.names text.toList)) := by
      rw [restore, path]
      exact congrArg (Text.joinWith ".") (by rw [hsplit, List.map_map]; rfl)
    _ = Text.joinWith "." ((Text.splitAt '.' p.toList).map String.ofList) := by
      rw [← hrestored, List.map_map, hrestored]
      rfl
    _ = p := Text.joinWith_splitAt '.' p

/-- Each of several paths is written the same again and can be read back, as long as their names
keep their numbers. -/
theorem paths_settled {passthrough known : List String} {r' : Resolver}
    (hpass : r'.passthrough = passthrough) {ps : List String}
    (h : (ps.flatMap (pathNames passthrough)).foldl addName known <+: r'.assigned) :
    List.Forall₂
      (fun p text => r'.path p = (text, r') ∧ ('#' ∉ p.toList → restore r'.names text = p))
      ps (paths { passthrough, assigned := known } ps).1 := by
  induction ps generalizing known with
  | nil => exact .nil
  | cons p rest ih =>
    rw [List.flatMap_cons, List.foldl_append] at h
    have hfirst := (prefix_foldl_addName _ _).trans h
    have hadds := (path_asks passthrough p).adds known
    have hagain := (path_asks passthrough p).again known r'.assigned hfirst
    subst hpass
    simp only [paths, hadds]
    exact .cons ⟨hagain, fun hhash => path_restored hhash hfirst⟩ (ih h)

end Resolver

/-- A call with paths writes them one after another. -/
theorem ResolverCall.of_paths? {call : ResolverCall} {fields : List String}
    (h : call.paths? = some fields) :
    (∀ r : Resolver, (call.write r).1 = Text.joinWith ", " (r.paths fields).1) ∧
      ∀ passthrough, call.replaced passthrough = fields.flatMap (pathNames passthrough) := by
  cases call with
  | path p =>
    cases h
    exact ⟨fun _ => rfl, fun _ => (List.flatMap_singleton _ _).symm⟩
  | projection fields =>
    cases h
    exact ⟨fun _ => rfl, fun _ => rfl⟩
  | expression text | literal name | segment s => cases h

/-- The paths of a call are written the same again and can be read back. -/
theorem Resolver.paths_again (passthrough : List String) (earlier : List ResolverCall)
    {call : ResolverCall} (later : List ResolverCall) {fields : List String}
    (hpaths : call.paths? = some fields) :
    ∃ texts, (call.write (after passthrough earlier)).1 = Text.joinWith ", " texts ∧
      List.Forall₂
        (fun p text => (after passthrough (earlier ++ call :: later)).path p =
            (text, after passthrough (earlier ++ call :: later)) ∧
          ('#' ∉ p.toList →
            restore (after passthrough (earlier ++ call :: later)).names text = p))
        fields texts := by
  obtain ⟨hwrite, hreplaced⟩ := call.of_paths? hpaths
  have hprefix := prefix_firstUses passthrough earlier call later
  rw [hreplaced] at hprefix
  rw [after_eq, after_eq]
  exact ⟨_, hwrite _, paths_settled rfl hprefix⟩

end ItemTable.Expression
