import ItemTable.Proofs.Expression.ScanConditions

/-!
# Fragments can be read back

A fragment starts with a reference or with the name of a function, and what stands behind that tells
the two apart: a function is called, a comparison goes on with a blank. So a field may be spelled
like a function or like a word of the grammar. `readFragment` reads one fragment off the start of a
text and leaves what follows it; the blank and the word between the operands of a range are read
with the range, so that they are not taken for what joins two fragments.
-/
namespace ItemTable.Expression

/-- A character of a reference. -/
def isRefChar (c : Char) : Bool := isWordChar c || c = '#' || c = ':'

/-- The reference at the start of a text. -/
def refAt (cs : List Char) : String := String.ofList (cs.takeWhile isRefChar)

/-- What follows the reference at the start of a text. -/
def behindRef (cs : List Char) : List Char := cs.dropWhile isRefChar

/-- What a fragment says of its attribute. -/
inductive Head where
  | test (operator : Operator)
  | presence (presence : Presence)
deriving DecidableEq, Repr

/-- A fragment by its parts, which are references. -/
structure Reading where
  head : Head
  name : String
  operands : List String := []
deriving DecidableEq, Repr

/-- A comparison with one operand, which ends behind it. -/
def readOperand (operator : Operator) (name : String) (cs : List Char) :
    Option (Reading × List Char) :=
  some (⟨.test operator, name, [refAt cs]⟩, behindRef cs)

/-- Two operands with a word between them. -/
def readRange (name : String) (cs : List Char) : Option (Reading × List Char) :=
  match behindRef cs with
  | ' ' :: 'A' :: 'N' :: 'D' :: ' ' :: rest =>
    some (⟨.test .between, name, [refAt cs, refAt rest]⟩, behindRef rest)
  | _ => none

/-- Operands up to a closing parenthesis. -/
def readList (name : String) (cs : List Char) : Option (Reading × List Char) :=
  some (⟨.test .oneOf, name, valueRefs (String.ofList (cs.takeWhile (· ≠ ')')))⟩,
    (cs.dropWhile (· ≠ ')')).drop 1)

/-- A comparison of a name, from the blank behind the name on. -/
def readComparison (name : String) : List Char → Option (Reading × List Char)
  | ' ' :: '=' :: ' ' :: rest => readOperand .equals name rest
  | ' ' :: '<' :: '>' :: ' ' :: rest => readOperand .notEquals name rest
  | ' ' :: '>' :: ' ' :: rest => readOperand .greaterThan name rest
  | ' ' :: '<' :: ' ' :: rest => readOperand .lessThan name rest
  | ' ' :: 'I' :: 'N' :: ' ' :: '(' :: rest => readList name rest
  | ' ' :: 'B' :: 'E' :: 'T' :: 'W' :: 'E' :: 'E' :: 'N' :: ' ' :: rest => readRange name rest
  | _ => none

/-- The functions and what they say of their attribute. -/
def functions : List (String × Head) :=
  [("contains", .test .contains), ("begins_with", .test .beginsWith),
    (Presence.present.name, .presence .present), (Presence.absent.name, .presence .absent)]

/-- The arguments of a function, from the opening parenthesis on. -/
def readArguments (head : Head) (cs : List Char) : Option (Reading × List Char) :=
  match head, behindRef cs with
  | .presence _, ')' :: rest => some (⟨head, refAt cs, []⟩, rest)
  | .test _, ',' :: ' ' :: operand =>
    match behindRef operand with
    | ')' :: rest => some (⟨head, refAt cs, [refAt operand]⟩, rest)
    | _ => none
  | _, _ => none

/-- The fragment at the start of a text, and what follows it. -/
def readFragment (cs : List Char) : Option (Reading × List Char) :=
  match behindRef cs with
  | '(' :: rest => do
    let head ← functions.lookup (refAt cs)
    readArguments head rest
  | rest => readComparison (refAt cs) rest

section Read

/-- A text that is one reference, or a word. -/
abbrev IsRefText (text : String) : Prop := ∀ c ∈ text.toList, isRefChar c = true

/-- What may follow a reference. -/
def EndsRef (rest : List Char) : Prop := ∀ c, rest.head? = some c → isRefChar c = false

theorem refAt_append {text : String} (h : IsRefText text) {rest : List Char}
    (hrest : EndsRef rest) :
    refAt (text.toList ++ rest) = text ∧ behindRef (text.toList ++ rest) = rest := by
  obtain ⟨htake, hdrop⟩ := Text.span_append h hrest
  rw [refAt, behindRef, htake, hdrop, String.ofList_toList]
  exact ⟨rfl, rfl⟩

theorem endsRef_cons {c : Char} (h : isRefChar c = false) (rest : List Char) :
    EndsRef (c :: rest) := by
  intro d hd
  cases hd
  exact h

variable {name : String} {rest : List Char}

/-- A name with a blank behind it is that of a comparison. -/
theorem readFragment_of_comparison (hname : IsRefText name) (cs : List Char) :
    readFragment (name.toList ++ ' ' :: cs) = readComparison name (' ' :: cs) := by
  obtain ⟨hat, hbehind⟩ := refAt_append hname (endsRef_cons (c := ' ') (by decide) cs)
  rw [readFragment, hat, hbehind]
  rfl

theorem readFragment_of_function {function : String} {head : Head}
    (hfunction : functions.lookup function = some head) (hword : IsRefText function)
    (cs : List Char) :
    readFragment (function.toList ++ '(' :: cs) = readArguments head cs := by
  obtain ⟨hat, hbehind⟩ := refAt_append hword (endsRef_cons (c := '(') (by decide) cs)
  rw [readFragment, hbehind, hat, hfunction]
  rfl

/-- A comparison with one operand is read up to the end of the operand. -/
theorem readFragment_of_operand (hname : IsRefText name) {operator : Operator} {cs : List Char}
    (hread : ∀ cs', readComparison name (' ' :: cs ++ cs') = readOperand operator name cs')
    {operand : String} (hoperand : IsRefText operand) (hrest : EndsRef rest) :
    readFragment (name.toList ++ (' ' :: cs ++ (operand.toList ++ rest))) =
      some (⟨.test operator, name, [operand]⟩, rest) := by
  obtain ⟨hat, hbehind⟩ := refAt_append hoperand hrest
  rw [List.cons_append, readFragment_of_comparison hname, ← List.cons_append, hread,
    readOperand, hat, hbehind]

/-- A function of an attribute and an operand is read up to its parenthesis. -/
theorem readArguments_of_operand (hname : IsRefText name) (operator : Operator) {operand : String}
    (hoperand : IsRefText operand) (rest : List Char) :
    readArguments (.test operator) (name.toList ++ ',' :: ' ' :: (operand.toList ++ ')' :: rest)) =
      some (⟨.test operator, name, [operand]⟩, rest) := by
  obtain ⟨hat, hbehind⟩ := refAt_append hname
    (endsRef_cons (c := ',') (by decide) (' ' :: (operand.toList ++ ')' :: rest)))
  obtain ⟨hat', hbehind'⟩ := refAt_append hoperand (endsRef_cons (c := ')') (by decide) rest)
  simp only [readArguments, hbehind, hbehind', hat, hat']

theorem readFragment_of_call (function : String) {opening : String} {operator : Operator}
    (hopening : opening.toList = function.toList ++ ['('])
    (hfunction : functions.lookup function = some (.test operator)) (hword : IsRefText function)
    (hname : IsRefText name) {operand : String} (hoperand : IsRefText operand) (rest : List Char) :
    readFragment (opening.toList ++
        (name.toList ++ (", ".toList ++ (operand.toList ++ (")".toList ++ rest))))) =
      some (⟨.test operator, name, [operand]⟩, rest) := by
  rw [hopening, List.append_assoc, List.singleton_append, readFragment_of_function hfunction hword]
  exact readArguments_of_operand hname operator hoperand rest

theorem readArguments_of_presence (hname : IsRefText name) (presence : Presence)
    (rest : List Char) :
    readArguments (.presence presence) (name.toList ++ ')' :: rest) =
      some (⟨.presence presence, name, []⟩, rest) := by
  obtain ⟨hat, hbehind⟩ := refAt_append hname (endsRef_cons (c := ')') (by decide) rest)
  simp only [readArguments, hbehind, hat]

theorem isRefText_of_isValueRef {key : String} (h : IsValueRef key) : IsRefText key := by
  obtain ⟨hhead, -, hword⟩ := h
  obtain ⟨word, htext⟩ := List.head?_eq_some_iff.1 hhead
  rw [htext, List.tail_cons, List.all_eq_true] at hword
  intro c hc
  rw [htext] at hc
  rcases List.mem_cons.1 hc with rfl | hc
  · decide
  · simp [isRefChar, hword c hc]

/-- Operands with commas between them are read off the text between the parentheses. -/
theorem readList_append {operands : List String} (h : ∀ operand ∈ operands, IsValueRef operand)
    (rest : List Char) :
    readList name ((Text.joinWith ", " operands).toList ++ ')' :: rest) =
      some (⟨.test .oneOf, name, operands⟩, rest) := by
  have hinside : ∀ c ∈ (Text.joinWith ", " operands).toList, decide (c ≠ ')') = true := by
    refine Text.forall_mem_joinWith (List.all_eq_true.1 rfl) fun operand hmem c hc => ?_
    have hchar := isRefText_of_isValueRef (h operand hmem) c hc
    rw [decide_eq_true_eq]
    rintro rfl
    cases hchar
  have hrefs : refs ':' (Text.joinWith ", " operands) = operands := by
    rw [refs_joinWith (.inr rfl) (by decide), List.flatMap_congr fun operand hmem =>
      (refs_valueRef (h operand hmem)).1, List.flatMap_singleton']
  rw [readList, List.takeWhile_append_of_pos hinside, List.dropWhile_append_of_pos hinside]
  simp [valueRefs_eq, hrefs]

/-- The word between two operands belongs to them. -/
theorem readRange_append {first last : String} (hfirst : IsRefText first) (hlast : IsRefText last)
    (hrest : EndsRef rest) :
    readRange name (first.toList ++ (" AND ".toList ++ (last.toList ++ rest))) =
      some (⟨.test .between, name, [first, last]⟩, rest) := by
  obtain ⟨hat, hbehind⟩ := refAt_append hfirst
    (endsRef_cons (c := ' ') (by decide) ("AND ".toList ++ (last.toList ++ rest)))
  obtain ⟨hat', hbehind'⟩ := refAt_append hlast hrest
  have hjoined : " AND ".toList ++ (last.toList ++ rest) =
      ' ' :: ("AND ".toList ++ (last.toList ++ rest)) := rfl
  rw [readRange, hjoined, hbehind, hat]
  show some ((⟨.test .between, name, [first, refAt (last.toList ++ rest)]⟩ : Reading),
    behindRef (last.toList ++ rest)) = _
  rw [hat', hbehind']

/-- The fragment of a condition is read back, whatever follows it. -/
theorem readFragment_fragment (test : Test) (hname : IsRefText name) {operands : List String}
    (hlength : operands.length = (Condition.operands test).length)
    (hoperands : ∀ operand ∈ operands, IsValueRef operand) (hrest : EndsRef rest) :
    readFragment ((Condition.fragment test name operands).toList ++ rest) =
      some (⟨.test test.operator, name, operands⟩, rest) := by
  cases test with
  | equals v | notEquals v | greaterThan v | lessThan v =>
    obtain ⟨operand, rfl⟩ := List.length_eq_one_iff.1 hlength
    have htext := isRefText_of_isValueRef (hoperands operand List.mem_cons_self)
    simp only [Condition.fragment, String.toList_append, List.append_assoc, List.headD_cons]
    exact readFragment_of_operand hname (fun _ => rfl) htext hrest
  | contains v =>
    obtain ⟨operand, rfl⟩ := List.length_eq_one_iff.1 hlength
    have htext := isRefText_of_isValueRef (hoperands operand List.mem_cons_self)
    simp only [Condition.fragment, String.toList_append, List.append_assoc, List.headD_cons]
    exact readFragment_of_call "contains" rfl rfl (List.all_eq_true.1 rfl) hname htext rest
  | beginsWith v =>
    obtain ⟨operand, rfl⟩ := List.length_eq_one_iff.1 hlength
    have htext := isRefText_of_isValueRef (hoperands operand List.mem_cons_self)
    simp only [Condition.fragment, String.toList_append, List.append_assoc, List.headD_cons]
    exact readFragment_of_call "begins_with" rfl rfl (List.all_eq_true.1 rfl) hname htext rest
  | oneOf vs =>
    simp only [Condition.fragment, String.toList_append, List.append_assoc]
    exact (readFragment_of_comparison hname _).trans (readList_append hoperands rest)
  | between low high =>
    obtain ⟨first, last, rfl⟩ := List.length_eq_two.1 hlength
    obtain ⟨hfirst, hlast⟩ := List.forall_mem_cons.1 hoperands
    have hfirst := isRefText_of_isValueRef hfirst
    have hlast := isRefText_of_isValueRef (hlast last List.mem_cons_self)
    simp only [Condition.fragment, String.toList_append, List.append_assoc, List.headD_cons,
      List.getLastD_cons, List.getLastD_nil]
    exact (readFragment_of_comparison hname _).trans (readRange_append hfirst hlast hrest)

theorem readFragment_presence (presence : Presence) (hname : IsRefText name) (rest : List Char) :
    readFragment ((presence.name ++ "(" ++ name ++ ")").toList ++ rest) =
      some (⟨.presence presence, name, []⟩, rest) := by
  have hlookup : functions.lookup presence.name = some (.presence presence) := by
    cases presence <;> rfl
  have hword : IsRefText presence.name := by cases presence <;> exact List.all_eq_true.1 rfl
  simp only [String.toList_append, List.append_assoc]
  exact (readFragment_of_function hlookup hword _).trans
    (readArguments_of_presence hname presence rest)

end Read

end ItemTable.Expression
