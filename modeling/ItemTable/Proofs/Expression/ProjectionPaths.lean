import ItemTable.Proofs.Expression.GrammaticalReferences
import ItemTable.Proofs.Expression.SeparatedTokens

/-!
# Paths that a projection can address

A projection is a list of document paths: segments with points between them, each of them a
reference to its name with list indexes behind it (`IsProjection`). A path passes its check for what
its segments do not hold, while a name is replaced for what it holds. Between the two there are
names that are written bare though the grammar does not take them, and what stands behind a bracket
is not checked at all. The tokens of a projection are those of document paths just if no such
segment is in it (`isAddressable`): `projection_addressable_iff`, `accentedName_not_addressable`.
-/
namespace ItemTable.Expression

/-- List indexes, one after another. -/
def areIndexes : List Token → Bool
  | [] => true
  | opening :: number :: closing :: rest =>
    opening = mark '[' &&
      (number.kind = .other && !number.text.isEmpty && number.text.all Char.isDigit) &&
      closing = mark ']' && areIndexes rest
  | _ => false

/-- A bare name that is not reserved, or a placeholder that is bound to the name. -/
def IsNameToken (names : Bindings String) (name : String) (t : Token) : Prop :=
  (t = ⟨.identifier, name.toList⟩ ∧ isReserved name = false) ∨
    (t.kind = .nameRef ∧ names.get? (String.ofList t.text) = some name)

/-- A reference to the name of a segment, with list indexes behind it. -/
def IsSegment (names : Bindings String) (s : List Char) (ts : List Token) : Prop :=
  ∃ head indexes, ts = head :: indexes ∧ IsNameToken names (segmentName s) head ∧
    areIndexes indexes = true

/-- The segments of a path with points between them. -/
def IsDocumentPath (names : Bindings String) (path : String) (ts : List Token) : Prop :=
  ∃ segments, List.Forall₂ (IsSegment names) (Text.splitAt '.' path.toList) segments ∧
    ts = [mark '.'].intercalate segments

/-- Document paths, one for each path. -/
def IsProjection (names : Bindings String) (paths : List String) (ts : List Token) : Prop :=
  ∃ parts, List.Forall₂ (IsDocumentPath names) paths parts ∧
    ts = [mark ',', mark ' '].intercalate parts

/-- A segment whose name is replaced or is taken as it stands, and that ends in list indexes. -/
def isAddressableSegment (s : List Char) : Bool :=
  (needsPlaceholder (segmentName s) ||
      (isPlainName (segmentName s) && !isGrammarWord (segmentName s).toList)) &&
    areIndexes (tokens (s.dropWhile (· ≠ '[')))

def isAddressable (path : String) : Bool := (Text.splitAt '.' path.toList).all isAddressableSegment

/-- Bindings of the placeholders that a resolver gives out. -/
def AreNumbered (names : Bindings String) : Prop :=
  ∀ key name, names.get? key = some name → ∃ number, key = namePlaceholder number

theorem Resolver.areNumbered_names (r : Resolver) : AreNumbered r.names := by
  intro key name hget
  obtain ⟨number, hkey, -⟩ := (get?_names_eq_some_iff _ _ _).1 hget
  exact ⟨number, hkey⟩

/-- What list indexes consist of. -/
theorem mem_areIndexes {ts : List Token} (h : areIndexes ts = true) {c : Char}
    (hc : c ∈ (ts.map Token.text).flatten) : c = '[' ∨ c = ']' ∨ c.isDigit = true := by
  fun_induction areIndexes ts with
  | case1 => cases hc
  | case2 opening number closing rest ih =>
    simp only [Bool.and_eq_true, decide_eq_true_eq, List.all_eq_true] at h
    obtain ⟨⟨⟨rfl, -, hdigits⟩, rfl⟩, hrest⟩ := h
    simp only [List.map_cons, List.flatten_cons, List.mem_append, mark, List.mem_singleton] at hc
    rcases hc with rfl | hc | rfl | hc
    · exact .inl rfl
    · exact .inr (.inr (hdigits c hc))
    · exact .inr (.inl rfl)
    · exact ih hrest hc
  | case3 => cases h

/-- List indexes end with a bracket. -/
theorem getLast?_areIndexes {ts : List Token} (h : areIndexes ts = true) :
    ∀ t ∈ ts.getLast?, t = mark ']' := by
  fun_induction areIndexes ts with
  | case1 => exact fun t ht => by cases ht
  | case2 opening number closing rest ih =>
    simp only [Bool.and_eq_true, decide_eq_true_eq] at h
    obtain ⟨⟨-, rfl⟩, hrest⟩ := h
    intro t ht
    cases rest with
    | nil =>
      cases ht
      rfl
    | cons next rest =>
      refine ih hrest t ?_
      simpa [List.getLast?_cons_cons] using ht
  | case3 => cases h

section Segment

variable {names : Bindings String} {s : List Char} {ts : List Token}

theorem IsNameToken.kind_ne_other {name : String} {t : Token} (h : IsNameToken names name t) :
    t.kind ≠ .other := by
  rcases h with ⟨rfl, -⟩ | ⟨hkind, -⟩
  · exact fun h => by cases h
  · rw [hkind]
    exact fun h => by cases h

/-- A segment that is written for the grammar stands by itself. -/
theorem IsSegment.stands {cs : List Char} (h : IsSegment names s (tokens cs)) : Stands cs := by
  obtain ⟨head, indexes, htokens, hname, hindexes⟩ := h
  have hlexed := areLexed_tokens cs
  rw [htokens] at hlexed
  have hwhole := hlexed.whole head List.mem_cons_self
  constructor
  case starts =>
    obtain ⟨c, word, htext, hblank, -⟩ := hwhole.goesOn hname.kind_ne_other
    have hflat := flatten_tokens cs
    rw [htokens, List.map_cons, List.flatten_cons, htext] at hflat
    exact ⟨c, _, hflat.symm, hblank⟩
  case ends =>
    intro ds hds
    refine tokens_append fun t ht => ?_
    rw [htokens] at ht
    cases indexes with
    | nil =>
      cases ht
      exact hwhole.stopsAt hname.kind_ne_other hds
    | cons next rest =>
      rw [List.getLast?_cons_cons] at ht
      rw [getLast?_areIndexes hindexes t ht]
      intro takes htakes c _
      cases htakes
      rfl

/-- What names, list indexes and placeholders do not hold is not in a segment. -/
theorem IsSegment.not_mem (h : IsSegment names s ts)
    (hkeys : AreNumbered names) {c : Char}
    (hword : isWordChar c = false) (hsign : c ≠ '#') (hopening : c ≠ '[') (hclosing : c ≠ ']')
    (hc : c ∉ s) : c ∉ (ts.map Token.text).flatten := by
  obtain ⟨head, indexes, rfl, hname, hindexes⟩ := h
  rw [List.map_cons, List.flatten_cons, List.mem_append, not_or]
  constructor
  · rcases hname with ⟨rfl, -⟩ | ⟨-, hget⟩
    · rw [segmentName, String.toList_ofList]
      exact fun hmem => hc ((List.takeWhile_sublist _).subset hmem)
    · obtain ⟨number, hkey⟩ := hkeys _ _ hget
      have htext : head.text = (namePlaceholder number).toList := by
        rw [← hkey, String.toList_ofList]
      rw [htext]
      exact Resolver.not_mem_namePlaceholder hword hsign number
  · intro hmem
    rcases mem_areIndexes hindexes hmem with rfl | rfl | hdigit
    · exact hopening rfl
    · exact hclosing rfl
    · rw [isWordChar_of_isDigit hdigit] at hword
      cases hword

/-- A list index is no part of the token in front of it. -/
theorem tokens_indexed {name : List Char} {t : Token} (hname : tokens name = [t])
    (hkind : t.kind ≠ .other) (s : List Char) :
    tokens (name ++ s.dropWhile (· ≠ '[')) = t :: tokens (s.dropWhile (· ≠ '[')) := by
  have hwhole : t.IsWhole :=
    (areLexed_tokens name).whole t (by rw [hname]; exact List.mem_cons_self)
  have hstops : t.StopsAt (s.dropWhile (· ≠ '[')) :=
    hwhole.stopsAt hkind (Resolver.isApart_dropWhile s)
  rw [tokens_append, hname]
  · rfl
  · intro last hlast
    rw [hname] at hlast
    cases hlast
    exact hstops

/-- A segment that is written bare is one just if its name is a plain name and no word of the
grammar. -/
theorem isSegment_bare_iff (hkeys : AreNumbered names)
    (hhash : '#' ∉ s) (hbare : needsPlaceholder (segmentName s) = false) :
    IsSegment names s (tokens s) ↔ isAddressableSegment s = true := by
  have hsplit : (segmentName s).toList ++ s.dropWhile (· ≠ '[') = s := by
    rw [segmentName, String.toList_ofList, List.takeWhile_append_dropWhile]
  have hreserved : isReserved (segmentName s) = false := (Bool.or_eq_false_iff.1 hbare).1
  have hindexed (hname : isPlainName (segmentName s) = true ∧
      isGrammarWord (segmentName s).toList = false) :
      tokens s = ⟨.identifier, (segmentName s).toList⟩ :: tokens (s.dropWhile (· ≠ '[')) := by
    have hone := (tokensOf_eq_identifier_iff (segmentName s)).2 hname
    have htokens := tokens_indexed hone (by simp) s
    rwa [hsplit] at htokens
  unfold isAddressableSegment
  rw [hbare, Bool.false_or, Bool.and_eq_true, Bool.and_eq_true, Bool.not_eq_true']
  constructor
  · rintro ⟨head, indexes, htokens, hname, hindexes⟩
    have hwhole := (areLexed_tokens s).whole head (by rw [htokens]; exact List.mem_cons_self)
    rcases hname with ⟨rfl, -⟩ | ⟨-, hget⟩
    · have hplain := (tokensOf_eq_identifier_iff (segmentName s)).1 hwhole
      rw [hindexed hplain, List.cons.injEq] at htokens
      rw [htokens.2]
      exact ⟨hplain, hindexes⟩
    · -- a segment has no placeholder of its own
      obtain ⟨number, hkey⟩ := hkeys _ _ hget
      have hflat := flatten_tokens s
      have htext : head.text = (namePlaceholder number).toList := by
        rw [← hkey, String.toList_ofList]
      rw [htokens, List.map_cons, List.flatten_cons, htext, toList_namePlaceholder] at hflat
      rw [← hflat] at hhash
      exact absurd List.mem_cons_self hhash
  · rintro ⟨hplain, hindexes⟩
    exact ⟨_, _, hindexed hplain, .inl ⟨rfl, hreserved⟩, hindexes⟩

/-- A segment whose name is replaced is one just if list indexes follow the name. -/
theorem isSegment_placeholder_iff {number : Nat}
    (hreplaced : needsPlaceholder (segmentName s) = true)
    (hget : names.get? (namePlaceholder number) = some (segmentName s)) :
    IsSegment names s (tokens ((namePlaceholder number).toList ++ s.dropWhile (· ≠ '['))) ↔
      isAddressableSegment s = true := by
  have htokens := tokens_indexed (tokensOf_namePlaceholder number) (by simp) s
  unfold isAddressableSegment
  rw [hreplaced, Bool.true_or, Bool.true_and, htokens]
  constructor
  · rintro ⟨head, indexes, heq, -, hindexes⟩
    rw [(List.cons.inj heq).2]
    exact hindexes
  · intro hindexes
    refine ⟨_, _, rfl, .inr ⟨rfl, ?_⟩, hindexes⟩
    rwa [String.ofList_toList]

end Segment

theorem separates_point : Separates ['.'] [mark '.'] where
  apart := fun ds c hc => by
    cases hc
    rfl
  tokens := fun c rest _ => tokens_mark (by decide) (by decide) (by decide) (c :: rest)

theorem separates_comma : Separates [',', ' '] [mark ',', mark ' '] where
  apart := fun ds c hc => by
    cases hc
    rfl
  tokens := by
    intro c rest hc
    have hblank : tokens (' ' :: c :: rest) = mark ' ' :: tokens (c :: rest) := by
      have hgoes : goesOnWith ' ' = Text.isBlank := by
        rw [goesOnWith, if_neg (by decide), if_pos (by decide)]
      have htake : (c :: rest).takeWhile Text.isBlank = [] := by simp [hc]
      have hdrop : (c :: rest).dropWhile Text.isBlank = c :: rest := by simp [hc]
      rw [tokens_cons_eq, hgoes, htake, hdrop]
      rfl
    have hcomma := tokens_mark (c := ',') (by decide) (by decide) (by decide) (' ' :: c :: rest)
    rw [hblank] at hcomma
    exact hcomma

theorem mem_of_mem_intercalate {sep : List Char} {parts : List (List Char)} {c : Char}
    (hc : c ∈ sep.intercalate parts) : c ∈ sep ∨ ∃ part ∈ parts, c ∈ part := by
  induction parts with
  | nil => cases hc
  | cons part rest ih =>
    cases rest with
    | nil =>
      rw [List.intercalate_singleton] at hc
      exact .inr ⟨part, List.mem_cons_self, hc⟩
    | cons next rest =>
      rw [List.intercalate_cons_cons, List.mem_append, List.mem_append] at hc
      rcases hc with (hc | hc) | hc
      · exact .inr ⟨part, List.mem_cons_self, hc⟩
      · exact .inl hc
      · refine (ih hc).imp_right ?_
        rintro ⟨other, hother, hc⟩
        exact ⟨other, List.mem_cons_of_mem _ hother, hc⟩

namespace Resolver

/-- A resolver that has placeholders for all names in paths that need one. -/
def KnowsPaths (r : Resolver) (paths : List String) : Prop :=
  ∀ name ∈ paths.flatMap (pathNames r.passthrough), name ∈ r.assigned

variable {r : Resolver}

theorem KnowsPaths.of_mem {ps : List String} (h : r.KnowsPaths ps) {p : String} (hp : p ∈ ps) :
    ∀ name ∈ pathNames r.passthrough p, name ∈ r.assigned :=
  fun name hname => h name (List.mem_flatMap.2 ⟨p, hp, hname⟩)

/-- Segments of known names are written one by one. -/
theorem segments_of_known {ss : List (List Char)}
    (hknown : ∀ name ∈ ss.flatMap (segmentNames r.passthrough), name ∈ r.assigned) :
    r.segments ss = (ss.map fun s => String.ofList (r.segment s).1, r) := by
  induction ss with
  | nil => rfl
  | cons s rest ih =>
    rw [List.flatMap_cons, List.forall_mem_append] at hknown
    have hsame : (r.segment s).2 = r := (segment_asks r.passthrough s).of_known hknown.1
    simp only [segments, hsame, ih hknown.2, List.map_cons]

theorem path_of_known {p : String}
    (hknown : ∀ name ∈ pathNames r.passthrough p, name ∈ r.assigned) :
    r.path p = (Text.joinWith "." ((Text.splitAt '.' p.toList).map
      fun s => String.ofList (r.segment s).1), r) := by
  rw [path, segments_of_known hknown]

theorem paths_of_known {ps : List String}
    (hknown : r.KnowsPaths ps) :
    r.paths ps = (ps.map fun p => (r.path p).1, r) := by
  induction ps with
  | nil => rfl
  | cons p rest ih =>
    rw [KnowsPaths, List.flatMap_cons, List.forall_mem_append] at hknown
    have hsame : (r.path p).2 = r := (path_asks r.passthrough p).of_known hknown.1
    simp only [paths, hsame, ih hknown.2, List.map_cons]

theorem toList_path_of_known {p : String}
    (hknown : ∀ name ∈ pathNames r.passthrough p, name ∈ r.assigned) :
    (r.path p).1.toList =
      ['.'].intercalate ((Text.splitAt '.' p.toList).map fun s => (r.segment s).1) := by
  rw [path_of_known hknown, Text.toList_joinWith, List.map_map]
  exact congrArg _ (List.map_congr_left fun s _ => String.toList_ofList)

theorem toList_projection_of_known {ps : List String}
    (hknown : r.KnowsPaths ps) :
    (r.projection ps).1.toList = [',', ' '].intercalate (ps.map fun p => (r.path p).1.toList) := by
  rw [projection, paths_of_known hknown, Text.toList_joinWith, List.map_map]
  rfl

/-- A projection refers to what its segments refer to. -/
theorem mem_nameRefs_projection {ps : List String}
    (hknown : r.KnowsPaths ps) {p : String}
    (hp : p ∈ ps) {s : List Char} (hs : s ∈ Text.splitAt '.' p.toList) {key : String}
    (hkey : key ∈ refs '#' (String.ofList (r.segment s).1)) :
    key ∈ nameRefs (r.projection ps).1 := by
  rw [nameRefs_eq, projection, paths_of_known hknown, refs_joinWith (.inl rfl) (by decide)]
  refine List.mem_flatMap.2 ⟨_, List.mem_map_of_mem hp, ?_⟩
  rw [path_of_known (hknown.of_mem hp), refs_joinWith (.inl rfl) (by decide)]
  exact List.mem_flatMap.2 ⟨_, List.mem_map_of_mem hs, hkey⟩

section Settled

variable {names : Bindings String} {fields : List String}

theorem isSegment_segment_iff (hpass : r.passthrough = []) {s : List Char}
    (hsettled : (r.segment s).2 = r) (hnone : HasNoSign s)
    (hkeys : AreNumbered names)
    (hnames : ∀ key name, r.names.get? key = some name →
      key ∈ refs '#' (String.ofList (r.segment s).1) → names.get? key = some name) :
    IsSegment names s (tokens (r.segment s).1) ↔ isAddressableSegment s = true := by
  have hleft : isLeft r.passthrough (segmentName s) = !needsPlaceholder (segmentName s) := by
    rw [hpass, isLeft, List.contains_nil, Bool.or_false]
  rw [segment_eq] at hsettled hnames ⊢
  rw [hleft] at hsettled hnames ⊢
  cases hreplaced : needsPlaceholder (segmentName s) with
  | false => exact isSegment_bare_iff hkeys (hnone.not_mem (.inl rfl)) hreplaced
  | true =>
    rw [hreplaced] at hsettled hnames
    obtain ⟨-, number, htext, hnumber⟩ := r.placeholder_eq (segmentName s)
    have hsame : (r.placeholder (segmentName s)).2 = r := hsettled
    have htail : HasNoSign (s.dropWhile (· ≠ '[')) := fun c hc =>
      hnone c ((List.dropWhile_sublist _).subset hc)
    obtain ⟨hrefs, -⟩ := r.refs_placeholder (segmentName s) htail (isApart_dropWhile s)
    rw [hsame] at hnumber
    have hbound := hnames (namePlaceholder number) (segmentName s)
      ((get?_names_eq_some_iff _ _ _).2 ⟨number, rfl, hnumber⟩)
      (by rw [← htext]; exact hrefs ▸ List.mem_cons_self)
    simp only [Bool.not_true, Bool.false_eq_true, if_false, htext]
    exact isSegment_placeholder_iff hreplaced hbound

/-- The segments of a path are read one by one. -/
theorem isDocumentPath_iff_segments {p : String}
    (hknown : ∀ name ∈ pathNames r.passthrough p, name ∈ r.assigned)
    (hkeys : AreNumbered names) :
    IsDocumentPath names p (tokensOf (r.path p).1) ↔
      ∀ s ∈ Text.splitAt '.' p.toList, IsSegment names s (tokens (r.segment s).1) := by
  rw [tokensOf, toList_path_of_known hknown]
  refine separated_tokens_iff separates_point (fun s hs => ?_) (fun s hs ts h => ?_)
    fun s _ h => h.stands
  · exact not_mem_segment r (by decide) (by decide) (Text.not_mem_of_mem_splitAt hs)
  · exact h.not_mem hkeys (by decide) (by decide) (by decide) (by decide)
      (Text.not_mem_of_mem_splitAt hs)

theorem stands_path {p : String} (hknown : ∀ name ∈ pathNames r.passthrough p, name ∈ r.assigned)
    (hsegments : ∀ s ∈ Text.splitAt '.' p.toList, IsSegment names s (tokens (r.segment s).1)) :
    Stands (r.path p).1.toList := by
  rw [toList_path_of_known hknown]
  obtain ⟨first, rest, hsplit⟩ := List.exists_cons_of_ne_nil (Text.splitAt_ne_nil '.' p.toList)
  rw [hsplit] at hsegments ⊢
  have hall : ∀ text ∈ (first :: rest).map fun s => (r.segment s).1, Stands text :=
    List.forall_mem_map.2 fun s hs => (hsegments s hs).stands
  exact (separates_point.stands_intercalate hall).1

/-- The paths of a projection are read one by one. -/
theorem isProjection_iff_paths
    (hknown : r.KnowsPaths fields)
    (hchecked : ∀ path ∈ fields, checkPath path = .ok ())
    (hkeys : AreNumbered names) :
    IsProjection names fields (tokensOf (r.projection fields).1) ↔
      ∀ path ∈ fields, IsDocumentPath names path (tokensOf (r.path path).1) := by
  have hcomma (path : String) (hpath : path ∈ fields) (s : List Char)
      (hs : s ∈ Text.splitAt '.' path.toList) : ',' ∉ s := fun hmem =>
    not_mem_of_checkPath (hchecked path hpath) (by decide) (by decide)
      (Text.mem_of_mem_splitAt hs hmem)
  rw [tokensOf, toList_projection_of_known hknown]
  refine separated_tokens_iff separates_comma (fun path hmem => ?_) (fun path hmem ts h => ?_)
    fun path hmem h => ?_
  · rw [toList_path_of_known (hknown.of_mem hmem)]
    intro hin
    rcases mem_of_mem_intercalate hin with hin | ⟨text, htext, hin⟩
    · exact absurd hin (by decide)
    · obtain ⟨s, hs, rfl⟩ := List.mem_map.1 htext
      exact not_mem_segment r (by decide) (by decide) (hcomma path hmem s hs) hin
  · obtain ⟨segments, hsegments, rfl⟩ := h
    obtain ⟨hlength, heach⟩ := List.forall₂_iff_get.1 hsegments
    rw [flatten_intercalate]
    intro hin
    rcases mem_of_mem_intercalate hin with hin | ⟨text, htext, hin⟩
    · exact absurd hin (by decide)
    · obtain ⟨segment, hsegment, rfl⟩ := List.mem_map.1 htext
      obtain ⟨place, hplace, rfl⟩ := List.getElem_of_mem hsegment
      have hplace' : place < (Text.splitAt '.' path.toList).length := hlength ▸ hplace
      exact (heach place hplace' hplace).not_mem hkeys (by decide) (by decide) (by decide)
        (by decide)
        (hcomma path hmem _ (List.getElem_mem hplace')) hin
  · have hsegments := (isDocumentPath_iff_segments (hknown.of_mem hmem) hkeys).1 h
    exact stands_path (hknown.of_mem hmem) hsegments

/-- The projection of a resolver that knows its names is one of document paths just if the paths are
addressable. -/
theorem isProjection_iff (hpass : r.passthrough = [])
    (hknown : r.KnowsPaths fields)
    (hchecked : ∀ path ∈ fields, checkPath path = .ok ())
    (hkeys : AreNumbered names)
    (hnames : ∀ key name, r.names.get? key = some name → key ∈ nameRefs (r.projection fields).1 →
      names.get? key = some name) :
    IsProjection names fields (tokensOf (r.projection fields).1) ↔
      ∀ path ∈ fields, isAddressable path = true := by
  rw [isProjection_iff_paths hknown hchecked hkeys]
  refine forall₂_congr fun path hpath => ?_
  have hnone := hasNoSign_of_checkPath (hchecked path hpath)
  have hpathNames := hknown.of_mem hpath
  rw [isDocumentPath_iff_segments hpathNames hkeys, isAddressable, List.all_eq_true]
  refine forall₂_congr fun s hs => ?_
  have hsettled : (r.segment s).2 = r := (segment_asks r.passthrough s).of_known fun name hname =>
    hpathNames name (List.mem_flatMap.2 ⟨s, hs, hname⟩)
  refine isSegment_segment_iff hpass hsettled
    (fun c hc => hnone c (Text.mem_of_mem_splitAt hs hc)) hkeys
    fun key name hget hkey => hnames key name hget ?_
  exact mem_nameRefs_projection hknown hpath hs hkey

end Settled

/-- A projection is written again by the resolver that has written it, which then knows its
names. -/
theorem projection_again (r : Resolver) (fields : List String) :
    (r.projection fields).2.projection fields = r.projection fields ∧
      (r.projection fields).2.passthrough = r.passthrough ∧
      (r.projection fields).2.KnowsPaths fields := by
  have hasks := projection_asks r.passthrough fields
  have hadds : (r.projection fields).2 =
      { r with assigned := (fields.flatMap (pathNames r.passthrough)).foldl addName r.assigned } :=
    hasks.adds r.assigned
  have hagain := hasks.again r.assigned _ List.prefix_rfl
  refine ⟨?_, by rw [hadds], ?_⟩
  · rw [hadds, hagain, ← hadds]
  · rw [hadds]
    exact fun name hname => mem_foldl_addName.2 (.inr hname)

/-- The projection of a resolver, with the names that it has afterwards or just those of the
text. -/
theorem isProjection_projection_iff {r : Resolver} {names : Bindings String} {fields : List String}
    (hpass : r.passthrough = []) (hchecked : ∀ path ∈ fields, checkPath path = .ok ())
    (hbound : ∀ key name, names.get? key = some name →
      (r.projection fields).2.names.get? key = some name)
    (hnames : ∀ key name, (r.projection fields).2.names.get? key = some name →
      key ∈ nameRefs (r.projection fields).1 → names.get? key = some name) :
    IsProjection names fields (tokensOf (r.projection fields).1) ↔
      ∀ path ∈ fields, isAddressable path = true := by
  obtain ⟨hagain, hsame, hknown⟩ := r.projection_again fields
  have hkeys : AreNumbered names := fun key name hget =>
    (r.projection fields).2.areNumbered_names key name (hbound key name hget)
  rw [← congrArg Prod.fst hagain] at hnames ⊢
  exact isProjection_iff (hsame.trans hpass) hknown hchecked hkeys hnames

end Resolver

/-- The key condition and the filter leave the names that are never replaced as they are. -/
theorem passthrough_compileFilter {key : Condition} {r r' : Resolver} {keyCondition : Compiled}
    (h : compileKey key r = .ok (keyCondition, r')) (rest : List Condition) :
    (compileFilter rest r').2.passthrough = r.passthrough := by
  rw [compileKey_eq (isKeyOperator_of_compileKey h)] at h
  cases h
  have hkey : (r.path key.field).2.passthrough = r.passthrough := by
    have hadds := (Resolver.path_asks r.passthrough key.field).adds r.assigned
    rw [hadds]
  unfold compileFilter
  split
  · exact hkey
  · have hstem : filterBinder.stem = ":value" := rfl
    exact (congrArg Resolver.passthrough (renderAll_settled hstem List.prefix_rfl).2).trans hkey

theorem Query.projection_addressable {calls : List QueryCall} {q : Query} {plan : QueryPlan}
    {fields : List String} (hcalls : Query.built calls = .ok q) (hpass : q.passthrough = [])
    (hplan : q.plan = .ok plan) (hfields : q.read.fields = some fields) :
    ∃ projection, plan.projection = some projection ∧
      (IsProjection projection.names fields (tokensOf projection.text) ↔
        ∀ path ∈ fields, isAddressable path = true) := by
  obtain ⟨key, rest, keyCondition, r, -, hkey, -, -, hprojection⟩ := plan_eq hplan
  rw [hfields] at hprojection
  have hlast := passthrough_compileFilter hkey rest
  refine ⟨_, hprojection, Resolver.isProjection_projection_iff (hlast.trans hpass)
    ((built_isChecked hcalls).paths fields hfields) ?_ ?_⟩
  · intro key name hget
    exact ((Compiled.get?_ofResolver_iff _ _ _ _ _).1 hget).1
  · intro key name hget hrefers
    exact (Compiled.get?_ofResolver_iff _ _ _ _ _).2 ⟨hget, hrefers⟩

theorem Scan.projection_addressable {calls : List ScanCall} {s : Scan} {fields : List String}
    (hcalls : Scan.built [] calls = .ok s) (hfields : s.read.fields = some fields) :
    ∃ text, s.plan.projection = some text ∧
      (IsProjection s.plan.names fields (tokensOf text) ↔
        ∀ path ∈ fields, isAddressable path = true) := by
  have hpass : s.resolver.passthrough = [] := by
    rw [(built_follows hcalls).resolver, Resolver.after_eq]
  have hplan : s.plan.projection = some (s.resolver.projection fields).1 ∧
      s.plan.names = (s.resolver.projection fields).2.names := by
    unfold plan
    rw [hfields]
    exact ⟨rfl, rfl⟩
  rw [hplan.2]
  exact ⟨_, hplan.1, Resolver.isProjection_projection_iff hpass
    (built_isChecked hcalls fields hfields) (fun _ _ hget => hget) fun _ _ hget _ => hget⟩

/-- **A projection consists of document paths just if its paths are addressable.** This holds in
queries and in scans that replace all reserved names, whatever else they have been asked for. -/
theorem projection_addressable_iff (queryCalls : List QueryCall) (scanCalls : List ScanCall)
    (fields : List String) :
    (∀ (q : Query) (plan : QueryPlan), Query.built queryCalls = .ok q → q.passthrough = [] →
      q.plan = .ok plan → q.read.fields = some fields →
        ∃ projection, plan.projection = some projection ∧
          (IsProjection projection.names fields (tokensOf projection.text) ↔
            ∀ path ∈ fields, isAddressable path = true)) ∧
    (∀ s : Scan, Scan.built [] scanCalls = .ok s → s.read.fields = some fields →
      ∃ text, s.plan.projection = some text ∧
        (IsProjection s.plan.names fields (tokensOf text) ↔
          ∀ path ∈ fields, isAddressable path = true)) :=
  ⟨fun _ _ => Query.projection_addressable, fun _ => Scan.projection_addressable⟩

/-- Paths with nested indexes, and names that are replaced for a hyphen, a blank or a reserved
word. -/
def nestedPaths : List String := ["profile.name[0][12].first-name", "café au lait[3]", "name"]

theorem nestedPaths_projection :
    (∃ q plan projection,
      Query.built [.condition "name" .equals (.single (.text "x")), .selectFields nestedPaths] =
        .ok q ∧
      q.plan = .ok plan ∧ plan.projection = some projection ∧
      projection.text = "profile.#n0[0][12].#n1, #n2[3], #n0" ∧
      IsProjection projection.names nestedPaths (tokensOf projection.text)) ∧
    ∃ s text, Scan.built [] [.selectFields nestedPaths] = .ok s ∧ s.plan.projection = some text ∧
      IsProjection s.plan.names nestedPaths (tokensOf text) := by
  have haddressable : ∀ path ∈ nestedPaths, isAddressable path = true := by decide +kernel
  obtain ⟨hquery, hscan⟩ := projection_addressable_iff
    [.condition "name" .equals (.single (.text "x")), .selectFields nestedPaths]
    [.selectFields nestedPaths] nestedPaths
  constructor
  · have hplan : ((Query.built [.condition "name" .equals (.single (.text "x")),
        .selectFields nestedPaths]).toOption.map fun q => (q.passthrough, q.read.fields,
          q.plan.toOption.map fun plan => plan.projection.map Compiled.text)) =
        some ([], some nestedPaths, some (some "profile.#n0[0][12].#n1, #n2[3], #n0")) := by
      decide +kernel
    obtain ⟨q, hbuilt, hplan⟩ := toOption_map_eq_some.1 hplan
    obtain ⟨hpass, hplan⟩ := Prod.mk.inj hplan
    obtain ⟨hfields, hplan⟩ := Prod.mk.inj hplan
    obtain ⟨plan, hplan, htext⟩ := toOption_map_eq_some.1 hplan
    obtain ⟨projection, hprojection, hiff⟩ := hquery q plan hbuilt hpass hplan hfields
    rw [hprojection] at htext
    exact ⟨q, plan, projection, hbuilt, hplan, hprojection, Option.some.inj htext,
      hiff.2 haddressable⟩
  · have hfields :
        ((Scan.built [] [.selectFields nestedPaths]).toOption.map fun s => s.read.fields) =
        some (some nestedPaths) := by decide +kernel
    obtain ⟨s, hbuilt, hfields⟩ := toOption_map_eq_some.1 hfields
    obtain ⟨text, htext, hiff⟩ := hscan s hbuilt hfields
    exact ⟨s, text, hbuilt, htext, hiff.2 haddressable⟩

/-- A letter outside ASCII is no part of a bare name, and a name with one is written bare all the
same. -/
theorem accentedName_not_addressable :
    ∃ s, Scan.built [] [.selectFields ["café"]] = .ok s ∧ s.plan.projection = some "café" ∧
      tokensOf "café" = [⟨.identifier, "caf".toList⟩, mark 'é'] ∧
      ¬IsProjection s.plan.names ["café"] (tokensOf "café") := by
  have hview : ((Scan.built [] [.selectFields ["café"]]).toOption.map
      fun s => (s.read.fields, s.plan.projection)) = some (some ["café"], some "café") := by
    decide +kernel
  obtain ⟨s, hbuilt, hview⟩ := toOption_map_eq_some.1 hview
  obtain ⟨hfields, hprojection⟩ := Prod.mk.inj hview
  obtain ⟨text, htext, hiff⟩ := Scan.projection_addressable hbuilt hfields
  rw [hprojection, Option.some.injEq] at htext
  subst htext
  refine ⟨s, hbuilt, hprojection, by decide +kernel, ?_⟩
  rw [hiff]
  decide +kernel

end ItemTable.Expression
