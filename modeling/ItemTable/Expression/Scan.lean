import ItemTable.Expression.Condition
import ItemTable.Expression.Filter
import ItemTable.Expression.Query
import ItemTable.Expression.ReadOptions

/-!
Scans.

The fragments of a scan's filter are compiled when they are added. All of them share one resolver
and one binder, so that no placeholder is used twice.
-/
namespace ItemTable.Expression

def maxSegments : Nat := 1000000

/-- One of the segments of a parallel scan. -/
structure Segment where
  number : Nat
  total : Nat
deriving DecidableEq, Repr

/-- A test for the presence of an attribute. -/
inductive Presence where
  | present
  | absent
deriving DecidableEq, Repr

def Presence.name : Presence → String
  | .present => "attribute_exists"
  | .absent => "attribute_not_exists"

/-- A scan as it is put together. -/
structure Scan where
  conditions : List Condition := []
  fragments : List String := []
  resolver : Resolver := {}
  binder : Binder := filterBinder
  read : ReadOptions := {}
  segment : Option Segment := none
deriving DecidableEq

/-- A scan whose expressions are compiled. -/
structure ScanPlan where
  conditions : List Condition := []
  filter : Option String := none
  names : Bindings String := .empty
  values : Bindings AttributeValue := .empty
  projection : Option String := none
  read : ReadOptions := {}
  segment : Option Nat := none
  totalSegments : Option Nat := none
deriving DecidableEq

namespace Scan

/-- Refuses when the scan is full. -/
def checkRoom (s : Scan) : Except Error Unit :=
  if maxConditions ≤ s.fragments.length then .error (.tooManyConditions maxConditions) else .ok ()

def add (s : Scan) (field : String) (operator : Operator) (operand : Operand) :
    Except Error Scan := do
  s.checkRoom
  let c ← Condition.of field operator operand
  let (fragment, resolver, binder) := c.render s.resolver s.binder
  return { s with
    conditions := s.conditions ++ [c], fragments := s.fragments ++ [fragment], resolver, binder }

def addPresence (s : Scan) (presence : Presence) (field : String) : Except Error Scan := do
  s.checkRoom
  checkFieldName field
  let (name, resolver) := s.resolver.path field
  return { s with
    fragments := s.fragments ++ [presence.name ++ "(" ++ name ++ ")"], resolver }

/-- Adds a filter written by hand with the bindings of its placeholders. -/
def addFilter (s : Scan) (expression : String) (names : List (String × String))
    (values : List (String × AttributeValue)) : Except Error Scan := do
  s.checkRoom
  let (fragment, resolver, binder) ← adoptFilter s.resolver s.binder expression names values
  return { s with fragments := s.fragments ++ [fragment], resolver, binder }

/-- Reads one segment of a parallel scan. -/
def inParallel (s : Scan) (total number : Nat) : Except Error Scan :=
  if total = 0 ∨ maxSegments < total ∨ total ≤ number then .error (.invalidSegment number total)
  else .ok { s with segment := some { number, total } }

/-- Joins the fragments and compiles the projection. -/
def plan (s : Scan) : ScanPlan :=
  let (projection, r) := match s.read.fields with
    | none => (none, s.resolver)
    | some fields =>
      let (text, r) := s.resolver.projection fields
      (some text, r)
  { conditions := s.conditions
    filter := if s.fragments.isEmpty then none else some (joinFragments s.fragments)
    names := r.names
    values := s.binder.values
    projection
    read := s.read
    segment := s.segment.map (·.number)
    totalSegments := s.segment.map (·.total) }

end Scan

def ScanPlan.request (p : ScanPlan) (table : String) : ScanRequest where
  table := table
  index := p.read.index
  filter := p.filter
  projection := p.projection
  names := p.names
  values := p.values
  limit := p.read.limit.bind fitInt32
  startKey := p.read.startKey.getD .empty
  segment := p.segment.bind fitInt32
  totalSegments := p.totalSegments.bind fitInt32
  selection := p.read.selection
  consistent := p.read.consistent

end ItemTable.Expression
