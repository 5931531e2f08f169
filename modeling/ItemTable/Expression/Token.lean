import ItemTable.Text.Blank

/-!
Tokens of an expression text.

Every text is a sequence of tokens: nothing is refused, and nothing is lost (`flatten_tokens`).
Words are taken as long as they reach, so that a token is never followed by one that would lengthen
it.
-/
namespace ItemTable.Expression

/-- What a token is. -/
inductive TokenKind where
  /-- A bare attribute name. -/
  | identifier
  /-- A word of the grammar. -/
  | keyword
  /-- A placeholder of an attribute name. -/
  | nameRef
  /-- A placeholder of a value. -/
  | valueRef
  /-- White space, punctuation and numbers. -/
  | other
deriving DecidableEq, Repr

/-- A part of an expression text. -/
structure Token where
  kind : TokenKind
  text : List Char
deriving DecidableEq, Repr

/-- A letter or an underscore, in ASCII. -/
def isWordStart (c : Char) : Bool := c.isAlpha || c = '_'

/-- A letter, a digit or an underscore, in ASCII. -/
def isWordChar (c : Char) : Bool := c.isAlphanum || c = '_'

/-- Operators and functions that are written as words. -/
def grammarWords : List String :=
  ["and", "or", "not", "between", "in", "set", "remove", "add", "delete", "attribute_exists",
    "attribute_not_exists", "attribute_type", "begins_with", "contains", "size", "if_not_exists",
    "list_append"]

/-- A word of the grammar, in any case of its letters. -/
def isGrammarWord (word : List Char) : Bool :=
  grammarWords.any fun w => w.toList = word.map Char.toLower

/-- The token at the start of a text, and what follows it. -/
def firstToken (c : Char) (rest : List Char) : Token × List Char :=
  let word := rest.takeWhile isWordChar
  let after := rest.dropWhile isWordChar
  if c = '#' ∨ c = ':' then
    if word.isEmpty then (⟨.other, [c]⟩, rest)
    else (⟨if c = '#' then .nameRef else .valueRef, c :: word⟩, after)
  else if isWordStart c then
    (⟨if isGrammarWord (c :: word) then .keyword else .identifier, c :: word⟩, after)
  else if c.isDigit then (⟨.other, c :: word⟩, after)
  else if Text.isBlank c then
    (⟨.other, c :: rest.takeWhile Text.isBlank⟩, rest.dropWhile Text.isBlank)
  else (⟨.other, [c]⟩, rest)

/-- A token and what follows it make up the text. -/
theorem firstToken_append (c : Char) (rest : List Char) :
    (firstToken c rest).1.text ++ (firstToken c rest).2 = c :: rest := by
  simp only [firstToken]
  by_cases h : (rest.takeWhile isWordChar).isEmpty
  · simp only [h, ↓reduceIte]
    repeat' split
    all_goals simp [List.takeWhile_append_dropWhile]
  · simp only [h]
    repeat' split
    all_goals simp_all [List.takeWhile_append_dropWhile]

theorem length_firstToken_lt (c : Char) (rest : List Char) :
    (firstToken c rest).2.length < (c :: rest).length := by
  have bound (p : Char → Bool) : (rest.dropWhile p).length < rest.length + 1 :=
    Nat.lt_succ_of_le (List.dropWhile_sublist p).length_le
  simp only [firstToken, List.length_cons]
  by_cases h : (rest.takeWhile isWordChar).isEmpty
  · simp only [h, ↓reduceIte]
    repeat' split
    all_goals simp [bound]
  · simp only [h]
    repeat' split
    all_goals simp_all

def tokens : List Char → List Token
  | [] => []
  | c :: rest => (firstToken c rest).1 :: tokens (firstToken c rest).2
termination_by cs => cs.length
decreasing_by exact length_firstToken_lt c rest

theorem tokens_nil : tokens [] = [] := by rw [tokens]

theorem tokens_cons (c : Char) (rest : List Char) :
    tokens (c :: rest) = (firstToken c rest).1 :: tokens (firstToken c rest).2 := by rw [tokens]

/-- The tokens of a text make it up. -/
theorem flatten_tokens (cs : List Char) : ((tokens cs).map Token.text).flatten = cs := by
  fun_induction tokens cs with
  | case1 => rfl
  | case2 c rest ih => rw [List.map_cons, List.flatten_cons, ih, firstToken_append]

def tokensOf (expression : String) : List Token := tokens expression.toList

/-- The placeholders of names in an expression, in order and as often as they occur. -/
def nameRefs (expression : String) : List String :=
  ((tokensOf expression).filter (·.kind = .nameRef)).map fun t => String.ofList t.text

/-- The placeholders of values in an expression, in order and as often as they occur. -/
def valueRefs (expression : String) : List String :=
  ((tokensOf expression).filter (·.kind = .valueRef)).map fun t => String.ofList t.text

end ItemTable.Expression
