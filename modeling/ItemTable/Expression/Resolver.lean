import ItemTable.Bindings
import ItemTable.Expression.Reserved
import ItemTable.Expression.Token
import ItemTable.Text.Separated

/-!
Attribute names in expressions.

A name that the grammar would not take as it stands is replaced by a placeholder; the first one gets
number 0, a later one the number of names before it, and a name that comes up again keeps its
placeholder. What is written with a resolver does not depend on how it keeps the names
(`NameStore`). Two maps give the placeholder of a name and the name of a placeholder (`NameMaps`);
the list of the names in the order of their first use says the same.
-/
namespace ItemTable.Expression

def namePlaceholder (number : Nat) : String := "#n" ++ toString number

/-- A name that the grammar does not take as it stands. -/
def needsPlaceholder (name : String) : Bool :=
  isReserved name || name.toList.any fun c => c = '-' || c = ' '

/-- A name that is a word and does not start with a digit. -/
def isPlainName (name : String) : Bool :=
  match name.toList with
  | [] => false
  | c :: rest => isWordStart c && (c :: rest).all isWordChar

/-- A way to keep the names that have placeholders. -/
class NameStore (σ : Type) where
  /-- No names. -/
  empty : σ
  /-- The placeholder of a name, new or known. -/
  placeholder : σ → String → String × σ
  /-- The attribute names by placeholder. -/
  names : σ → Bindings String

/-- The names in the order of their first use; the name at place `k` has the placeholder of number
`k`. -/
instance : NameStore (List String) where
  empty := []
  placeholder assigned name :=
    match assigned.idxOf? name with
    | some number => (namePlaceholder number, assigned)
    | none => (namePlaceholder assigned.length, assigned ++ [name])
  names assigned :=
    .ofList (assigned.zipIdx.map fun (name, number) => (namePlaceholder number, name))

/-- The placeholders by name and the names by placeholder. -/
structure NameMaps where
  byName : Bindings String := .empty
  names : Bindings String := .empty
deriving DecidableEq

/-- A new name is put into both maps, with the number of the names that are there. -/
instance : NameStore NameMaps where
  empty := {}
  placeholder maps name :=
    match maps.byName.get? name with
    | some known => (known, maps)
    | none =>
      let fresh := namePlaceholder maps.names.size
      (fresh, { byName := maps.byName.insert name fresh, names := maps.names.insert fresh name })
  names maps := maps.names

/-- Attribute names that have placeholders, and names that are never replaced. -/
structure Resolver (σ : Type := List String) [NameStore σ] where
  passthrough : List String := []
  assigned : σ := NameStore.empty
deriving DecidableEq

namespace Resolver

variable {σ : Type} [NameStore σ]

/-- The attribute names by placeholder. -/
def names (r : Resolver σ) : Bindings String := NameStore.names r.assigned

/-- The placeholder of a name, new or known. -/
def placeholder (r : Resolver σ) (name : String) : String × Resolver σ :=
  let (placeholder, assigned) := NameStore.placeholder r.assigned name
  (placeholder, { r with assigned })

/-- One segment of a path. A list index at its end belongs to the grammar and not to the name. -/
def segment (r : Resolver σ) (s : List Char) : List Char × Resolver σ :=
  let name := String.ofList (s.takeWhile (· ≠ '['))
  if name.isEmpty || !needsPlaceholder name || r.passthrough.contains name then (s, r)
  else
    let (placeholder, r) := r.placeholder name
    (placeholder.toList ++ s.dropWhile (· ≠ '['), r)

def segments (r : Resolver σ) : List (List Char) → List String × Resolver σ
  | [] => ([], r)
  | s :: rest =>
    let (text, r) := r.segment s
    let (texts, r) := r.segments rest
    (String.ofList text :: texts, r)

/-- A path of segments with points between them. -/
def path (r : Resolver σ) (p : String) : String × Resolver σ :=
  let (texts, r) := r.segments (Text.splitAt '.' p.toList)
  (Text.joinWith "." texts, r)

def paths (r : Resolver σ) : List String → List String × Resolver σ
  | [] => ([], r)
  | p :: rest =>
    let (text, r) := r.path p
    let (texts, r) := r.paths rest
    (text :: texts, r)

def projection (r : Resolver σ) (fields : List String) : String × Resolver σ :=
  let (texts, r) := r.paths fields
  (Text.joinWith ", " texts, r)

/-- The texts of tokens, bare names replaced by their references. -/
def tokenTexts (r : Resolver σ) : List Token → List (List Char) × Resolver σ
  | [] => ([], r)
  | t :: rest =>
    let (text, r) := if t.kind = .identifier then r.segment t.text else (t.text, r)
    let (texts, r) := r.tokenTexts rest
    (text :: texts, r)

/-- Replaces the bare names of a free expression and leaves all else as it is. -/
def expression (r : Resolver σ) (text : String) : String × Resolver σ :=
  let (texts, r) := r.tokenTexts (tokensOf text)
  (String.ofList texts.flatten, r)

/-- A name taken as it is and not as a path. -/
def literal (r : Resolver σ) (name : String) : List Char × Resolver σ :=
  if isPlainName name then r.segment name.toList
  else
    let (placeholder, r) := r.placeholder name
    (placeholder.toList, r)

end Resolver

end ItemTable.Expression
