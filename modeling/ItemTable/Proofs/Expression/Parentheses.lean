import ItemTable.Proofs.Expression.FilterAdoption
import ItemTable.Proofs.Expression.Lexing
import Mathlib.Data.List.Infix

/-!
# Parentheses around a filter

A filter that is taken over keeps its parentheses, since names and values are written as words, with
a sign or without. So the pair that is put around it encloses it just if its own parentheses are
well nested (`Scan.addFilter_encloses_iff`). Nothing checks that they are: a filter may close the
parenthesis in front of it, and then an alternative in it stands beside the other conditions of the
scan.
-/
namespace ItemTable.Expression

def isParenthesis (c : Char) : Bool := c = '(' || c = ')'

def parentheses (cs : List Char) : List Char := cs.filter isParenthesis

/-- How many parentheses a text opens more than it closes. -/
def depth (cs : List Char) : Int := cs.count '(' - cs.count ')'

/-- Every parenthesis that a text closes has been opened in it, and all of them are closed. -/
structure IsWellNested (cs : List Char) : Prop where
  opened : ∀ front, front <+: cs → 0 ≤ depth front
  closed : depth cs = 0

/-- A parenthesis is opened in front of a text, and it is closed at the very end. -/
structure IsEnclosed (cs : List Char) : Prop where
  inside : ∀ front, front <+: cs → front ≠ [] → front ≠ cs → 0 < depth front
  closed : depth cs = 0

instance (cs : List Char) : Decidable (IsWellNested cs) :=
  decidable_of_iff ((∀ front ∈ cs.inits, 0 ≤ depth front) ∧ depth cs = 0)
    ⟨fun h => ⟨fun front hfront => h.1 front ((List.mem_inits front cs).2 hfront), h.2⟩,
      fun h => ⟨fun front hfront => h.opened front ((List.mem_inits front cs).1 hfront), h.closed⟩⟩

instance (cs : List Char) : Decidable (IsEnclosed cs) :=
  decidable_of_iff
    ((∀ front ∈ cs.inits, front ≠ [] → front ≠ cs → 0 < depth front) ∧ depth cs = 0)
    ⟨fun h => ⟨fun front hfront => h.1 front ((List.mem_inits front cs).2 hfront), h.2⟩,
      fun h => ⟨fun front hfront => h.inside front ((List.mem_inits front cs).1 hfront), h.closed⟩⟩

theorem depth_append (cs ds : List Char) : depth (cs ++ ds) = depth cs + depth ds := by
  simp only [depth, List.count_append]
  omega

theorem depth_parentheses (cs : List Char) : depth (parentheses cs) = depth cs := by
  rw [depth, parentheses, List.count_filter rfl, List.count_filter rfl, depth]

theorem isWellNested_parentheses_iff (cs : List Char) :
    IsWellNested (parentheses cs) ↔ IsWellNested cs := by
  constructor
  · rintro ⟨hopened, hclosed⟩
    refine ⟨fun front hfront => ?_, by rwa [depth_parentheses] at hclosed⟩
    rw [← depth_parentheses]
    exact hopened _ (hfront.filter isParenthesis)
  · rintro ⟨hopened, hclosed⟩
    refine ⟨fun front hfront => ?_, by rwa [depth_parentheses]⟩
    obtain ⟨front, hprefix, rfl⟩ := List.prefix_filter_iff.1 hfront
    rw [← parentheses, depth_parentheses]
    exact hopened front hprefix

/-- Whether a text is well nested is told by its parentheses. -/
theorem isWellNested_congr {cs ds : List Char} (h : parentheses cs = parentheses ds) :
    IsWellNested cs ↔ IsWellNested ds := by
  rw [← isWellNested_parentheses_iff, h, isWellNested_parentheses_iff]

/-- Parentheses around a text enclose it just if it is well nested. -/
theorem isEnclosed_wrapped_iff (cs : List Char) :
    IsEnclosed ('(' :: (cs ++ [')'])) ↔ IsWellNested cs := by
  have hopen (ds : List Char) : depth ('(' :: ds) = 1 + depth ds := depth_append ['('] ds
  have hwhole : depth ('(' :: (cs ++ [')'])) = depth cs := by
    have hclose : depth [')'] = -1 := rfl
    rw [hopen, depth_append, hclose]
    omega
  -- the prefixes of the text are the proper prefixes of the whole without their first parenthesis
  constructor
  · rintro ⟨hinside, hclosed⟩
    refine ⟨fun front hfront => ?_, hwhole ▸ hclosed⟩
    have hproper : '(' :: front ≠ '(' :: (cs ++ [')']) := by
      intro heq
      have hlength := congrArg List.length heq
      have hle := hfront.length_le
      simp only [List.length_cons, List.length_append, List.length_nil] at hlength
      omega
    have hprefix : '(' :: front <+: '(' :: (cs ++ [')']) :=
      (List.prefix_cons_inj '(').2 (hfront.trans (List.prefix_append cs [')']))
    have hpos := hinside _ hprefix (List.cons_ne_nil '(' front) hproper
    rw [hopen] at hpos
    omega
  · rintro ⟨hopened, hclosed⟩
    refine ⟨fun front hfront hne hproper => ?_, hwhole.trans hclosed⟩
    obtain hnil | ⟨rest, rfl, hrest⟩ := List.prefix_cons_iff.1 hfront
    · exact absurd hnil hne
    · obtain rfl | hinner := List.prefix_concat_iff.1 hrest
      · exact absurd rfl hproper
      · have hdepth := hopened rest hinner
        rw [hopen]
        omega

/-- Words have no parentheses, with a sign or without. -/
theorem parentheses_of_isWord {cs : List Char} (h : ∀ c ∈ cs, IsSign c ∨ isWordChar c = true) :
    parentheses cs = [] := by
  refine List.filter_eq_nil_iff.2 fun c hc hparenthesis => ?_
  have hchar := h c hc
  simp only [isParenthesis, Bool.or_eq_true, decide_eq_true_eq] at hparenthesis
  rcases hparenthesis with rfl | rfl <;> exact absurd hchar (by decide)

theorem parentheses_ref {sign : Char} (hsign : IsSign sign) {word : List Char}
    (hword : ∀ c ∈ word, isWordChar c = true) : parentheses (sign :: word) = [] :=
  parentheses_of_isWord (List.forall_mem_cons.2 ⟨.inl hsign, fun c hc => .inr (hword c hc)⟩)

theorem parentheses_placeholder (r : Resolver) (name : String) :
    parentheses (r.placeholder name).1.toList = [] := by
  obtain ⟨-, number, htext, -⟩ := r.placeholder_eq name
  rw [htext, toList_namePlaceholder]
  exact parentheses_ref (.inl rfl) fun _ => isWordChar_of_mem_numbered

theorem parentheses_valuePlaceholder (number : Nat) :
    parentheses (valuePlaceholder number).toList = [] := by
  have hstem : Binder.IsStem ":value" := by decide
  obtain ⟨hhead, -, hword⟩ := Binder.isValueRef_numbered hstem number
  obtain ⟨word, htext⟩ := List.head?_eq_some_iff.1 hhead
  rw [htext, List.tail_cons, List.all_eq_true] at hword
  rw [valuePlaceholder, htext]
  exact parentheses_ref (.inr rfl) hword

namespace Token

variable {t : Token}

theorem IsWhole.parentheses_eq_nil (h : t.IsWhole) (hkind : t.kind ≠ .other) :
    parentheses t.text = [] := by
  obtain ⟨c, word, rfl, hword⟩ := isWhole_iff.1 h
  refine parentheses_of_isWord (List.forall_mem_cons.2 ?_)
  rcases isSign_or_isWordStart_of_kindOf hkind with hsign | hstart
  · rw [goesOnWith_of_isSign hsign] at hword
    exact ⟨.inl hsign, fun d hd => .inr (hword d hd)⟩
  · have hc : isWordChar c = true := by rw [isWordChar_eq, hstart, Bool.true_or]
    rw [goesOnWith_of_isWordChar hc] at hword
    exact ⟨.inr hc, fun d hd => .inr (hword d hd)⟩

/-- A token that is renamed keeps its parentheses. -/
theorem IsWhole.parentheses_renamed (h : t.IsWhole) (r : Resolver) (names : Bindings String)
    (first : Nat) (values : List String) :
    parentheses (t.renamed r names first values) = parentheses t.text := by
  unfold renamed reference?
  -- references are words before and after, and all other tokens stay as they are
  cases hkind : t.kind with
  | nameRef =>
    cases names.get? (String.ofList t.text) with
    | none => rfl
    | some name =>
      rw [h.parentheses_eq_nil (by rw [hkind]; decide)]
      simp only [Option.map_some, ResolverCall.write, String.toList_ofList, r.literal_eq]
      split
      · next hplain =>
        rw [Bool.and_eq_true] at hplain
        exact parentheses_of_isWord fun c hc =>
          .inr ((Resolver.isWord_of_isPlainName hplain.1).2 c hc)
      · exact parentheses_placeholder r name
  | identifier =>
    obtain ⟨hne, hword⟩ := h.isWord hkind
    rw [h.parentheses_eq_nil (by rw [hkind]; decide)]
    simp only [ResolverCall.write, String.toList_ofList, r.segment_of_isWord hne hword]
    split
    · exact parentheses_of_isWord fun c hc => .inr (hword c hc)
    · exact parentheses_placeholder r _
  | valueRef =>
    rw [h.parentheses_eq_nil (by rw [hkind]; decide)]
    exact parentheses_valuePlaceholder _
  | keyword | other => rfl

end Token

/-- A filter that is taken over keeps its parentheses. -/
theorem parentheses_renamed (r : Resolver) (names : Bindings String) (first : Nat)
    (values : List String) (cs : List Char) :
    parentheses ((tokens cs).flatMap (Token.renamed r names first values)) = parentheses cs := by
  calc
    parentheses ((tokens cs).flatMap (Token.renamed r names first values))
      = (tokens cs).flatMap fun t => parentheses (t.renamed r names first values) :=
        List.filter_flatMap
    _ = (tokens cs).flatMap fun t => parentheses t.text :=
        List.flatMap_congr fun t ht => ((areLexed_tokens cs).whole t ht).parentheses_renamed ..
    _ = parentheses ((tokens cs).flatMap Token.text) := List.filter_flatMap.symm
    _ = parentheses cs := by rw [List.flatMap_def, flatten_tokens]

theorem isEnclosed_renamedFilter_iff (r : Resolver) (first : Nat) (expression : String)
    (names : List (String × String)) :
    IsEnclosed (renamedFilter r first expression names).toList ↔
      IsWellNested expression.toList := by
  rw [renamedFilter, ← ofList_wrapped, String.toList_ofList, isEnclosed_wrapped_iff]
  exact isWellNested_congr (parentheses_renamed ..)

/-- **A filter stays within its parentheses just if its own are well nested.** Whatever a scan
accepts as a filter, the fragment that it adds is enclosed by the parentheses around it if and only
if the filter closes no parenthesis that it has not opened, and closes all that it has. -/
theorem Scan.addFilter_encloses_iff {passthrough : List String} {calls : List ScanCall}
    {s s' : Scan} (h : built passthrough calls = .ok s) {expression : String}
    {names : List (String × String)} {values : List (String × AttributeValue)}
    (hadd : s.addFilter expression names values = .ok s') :
    ∃ fragment, s'.fragments = s.fragments ++ [fragment] ∧
      (IsEnclosed fragment.toList ↔ IsWellNested expression.toList) := by
  have hadopts := adopts_of_addFilter h hadd
  refine ⟨renamedFilter s'.resolver s.binder.next expression names, ?_,
    isEnclosed_renamedFilter_iff ..⟩
  rw [hadopts.same]

end ItemTable.Expression

namespace ItemTable

open Expression

/-- A filter with parentheses of its own, inside one another and behind a function. -/
def nestedFilter : String := "(:low = :high OR (size(tags) > :low)) AND :low < :high"

theorem nestedFilter_enclosed :
    ∃ s s' fragment, Scan.built [] [.condition "status" .equals (.single (.text "x"))] = .ok s ∧
      s.addFilter nestedFilter [] [(":low", .number "1"), (":high", .number "3")] = .ok s' ∧
      s'.fragments = s.fragments ++ [fragment] ∧
      s'.plan.filter = some ("#n0 = :value0 AND " ++
        "((:value1 = :value2 OR (size(tags) > :value1)) AND :value1 < :value2)") ∧
      IsWellNested nestedFilter.toList ∧ IsEnclosed fragment.toList := by
  have hview :
      ((Scan.built [] [.condition "status" .equals (.single (.text "x"))]).toOption.map fun s =>
      (s.addFilter nestedFilter [] [(":low", .number "1"), (":high", .number "3")]).toOption.map
        fun s' => s'.plan.filter) =
      some (some (some ("#n0 = :value0 AND " ++
        "((:value1 = :value2 OR (size(tags) > :value1)) AND :value1 < :value2)"))) := by
    decide +kernel
  have hnested : IsWellNested nestedFilter.toList := by decide +kernel
  obtain ⟨s, hbuilt, hview⟩ := toOption_map_eq_some.1 hview
  obtain ⟨s', hadd, hfilter⟩ := toOption_map_eq_some.1 hview
  obtain ⟨fragment, hfragments, hencloses⟩ := Scan.addFilter_encloses_iff hbuilt hadd
  exact ⟨s, s', fragment, hbuilt, hadd, hfragments, hfilter, hnested, hencloses.2 hnested⟩

/-- A filter that closes the parenthesis in front of it. -/
def escapingFilter : String := "a = :x) OR (b = :y"

/-- What follows `OR` stands outside of the conjunction: items are found whatever their status
is. -/
theorem escapingFilter_not_enclosed :
    ∃ s s' fragment, Scan.built [] [.condition "status" .equals (.single (.text "x"))] = .ok s ∧
      s.addFilter escapingFilter [] [(":x", .number "1"), (":y", .number "2")] = .ok s' ∧
      s'.fragments = s.fragments ++ [fragment] ∧
      s'.plan.filter = some "#n0 = :value0 AND (a = :value1) OR (b = :value2)" ∧
      ¬IsEnclosed fragment.toList := by
  have hview :
      ((Scan.built [] [.condition "status" .equals (.single (.text "x"))]).toOption.map fun s =>
      (s.addFilter escapingFilter [] [(":x", .number "1"), (":y", .number "2")]).toOption.map
        fun s' => (s'.fragments, s.fragments, s'.plan.filter)) =
      some (some (["#n0 = :value0", "(a = :value1) OR (b = :value2)"], ["#n0 = :value0"],
        some "#n0 = :value0 AND (a = :value1) OR (b = :value2)")) := by
    decide +kernel
  obtain ⟨s, hbuilt, hview⟩ := toOption_map_eq_some.1 hview
  obtain ⟨s', hadd, hview⟩ := toOption_map_eq_some.1 hview
  obtain ⟨hfragments', hview⟩ := Prod.mk.inj hview
  obtain ⟨hfragments, hfilter⟩ := Prod.mk.inj hview
  refine ⟨s, s', "(a = :value1) OR (b = :value2)", hbuilt, hadd, ?_, hfilter, by decide +kernel⟩
  rw [hfragments', hfragments]
  rfl

end ItemTable
