import ItemTable.Bindings
import ItemTable.Number.Numeral

/-!
Attribute values: what one attribute of an item holds.

A value carries exactly one of ten payloads, told apart by its tag. Numbers are kept as the text
they were written in. The entries of a map stand in ascending order of their keys in every value
that this library makes; `AttributeValue.Ordered` says so at all depths.
-/
namespace ItemTable

/-- The ten kinds of attribute value. -/
inductive ValueTag where
  | text
  | number
  | binary
  | textSet
  | numberSet
  | binarySet
  | boolean
  | null
  | list
  | map
deriving DecidableEq, Repr

namespace ValueTag

/-- The tag as it is written in the wire form. -/
def name : ValueTag → String
  | text => "S"
  | number => "N"
  | binary => "B"
  | textSet => "SS"
  | numberSet => "NS"
  | binarySet => "BS"
  | boolean => "BOOL"
  | null => "NULL"
  | list => "L"
  | map => "M"

/-- All tags, in the order in which they are listed to a reader. -/
def all : List ValueTag :=
  [text, number, binary, textSet, numberSet, binarySet, boolean, null, list, map]

def ofName? (s : String) : Option ValueTag := all.find? (·.name = s)

theorem mem_all (t : ValueTag) : t ∈ all := by cases t <;> decide

theorem ofName?_name (t : ValueTag) : ofName? t.name = some t := by cases t <;> decide

end ValueTag

/-- An attribute value. -/
inductive AttributeValue where
  | text (s : String)
  | number (n : String)
  | binary (bytes : List UInt8)
  | textSet (elements : List String)
  | numberSet (elements : List String)
  | binarySet (elements : List (List UInt8))
  | boolean (b : Bool)
  | null (b : Bool)
  | list (items : List AttributeValue)
  | map (entries : List (String × AttributeValue))
deriving Inhabited, Repr

namespace AttributeValue

mutual

/-- Whether two values are the same at every depth. -/
def same : AttributeValue → AttributeValue → Bool
  | text a, text b => a == b
  | number a, number b => a == b
  | binary a, binary b => a == b
  | textSet a, textSet b => a == b
  | numberSet a, numberSet b => a == b
  | binarySet a, binarySet b => a == b
  | boolean a, boolean b => a == b
  | null a, null b => a == b
  | list a, list b => sameItems a b
  | map a, map b => sameEntries a b
  | _, _ => false

def sameItems : List AttributeValue → List AttributeValue → Bool
  | [], [] => true
  | a :: as, b :: bs => same a b && sameItems as bs
  | _, _ => false

def sameEntries : List (String × AttributeValue) → List (String × AttributeValue) → Bool
  | [], [] => true
  | (k, a) :: as, (l, b) :: bs => k == l && (same a b && sameEntries as bs)
  | _, _ => false

end

mutual

theorem same_iff : ∀ a b : AttributeValue, same a b = true ↔ a = b
  | list a, list b => by simp [same, sameItems_iff a b]
  | map a, map b => by simp [same, sameEntries_iff a b]
  | text _, b | number _, b | binary _, b | textSet _, b | numberSet _, b | binarySet _, b
  | boolean _, b | null _, b => by cases b <;> simp [same]
  | list _, text _ | list _, number _ | list _, binary _ | list _, textSet _
  | list _, numberSet _ | list _, binarySet _ | list _, boolean _ | list _, null _
  | list _, map _ => by simp [same]
  | map _, text _ | map _, number _ | map _, binary _ | map _, textSet _
  | map _, numberSet _ | map _, binarySet _ | map _, boolean _ | map _, null _
  | map _, list _ => by simp [same]

theorem sameItems_iff : ∀ as bs : List AttributeValue, sameItems as bs = true ↔ as = bs
  | [], [] => by simp [sameItems]
  | [], _ :: _ => by simp [sameItems]
  | _ :: _, [] => by simp [sameItems]
  | a :: as, b :: bs => by simp [sameItems, same_iff a b, sameItems_iff as bs]

theorem sameEntries_iff :
    ∀ as bs : List (String × AttributeValue), sameEntries as bs = true ↔ as = bs
  | [], [] => by simp [sameEntries]
  | [], _ :: _ => by simp [sameEntries]
  | _ :: _, [] => by simp [sameEntries]
  | (k, a) :: as, (l, b) :: bs => by
    simp [sameEntries, same_iff a b, sameEntries_iff as bs, and_assoc]

end

instance : DecidableEq AttributeValue := fun a b => decidable_of_iff _ (same_iff a b)

def tag : AttributeValue → ValueTag
  | text _ => .text
  | number _ => .number
  | binary _ => .binary
  | textSet _ => .textSet
  | numberSet _ => .numberSet
  | binarySet _ => .binarySet
  | boolean _ => .boolean
  | null _ => .null
  | list _ => .list
  | map _ => .map

def ofBindings (m : Bindings AttributeValue) : AttributeValue := map m.entries

mutual

/-- Every map inside the value has its entries in ascending order of the keys. -/
def Ordered : AttributeValue → Prop
  | list items => OrderedItems items
  | map entries => Ascending entries ∧ OrderedEntries entries
  | _ => True

def OrderedItems : List AttributeValue → Prop
  | [] => True
  | a :: as => Ordered a ∧ OrderedItems as

def OrderedEntries : List (String × AttributeValue) → Prop
  | [] => True
  | (_, a) :: as => Ordered a ∧ OrderedEntries as

end

def asText? : AttributeValue → Option String
  | text s => some s
  | _ => none

def asNumber? : AttributeValue → Option String
  | number n => some n
  | _ => none

def asList? : AttributeValue → Option (List AttributeValue)
  | list items => some items
  | _ => none

def asMap? : AttributeValue → Option (List (String × AttributeValue))
  | map entries => some entries
  | _ => none

/-- The null value proper; a null payload may also say false. -/
def isNull : AttributeValue → Bool
  | null b => b
  | _ => false

/-- One of the three kinds of set. -/
def isSet : AttributeValue → Bool
  | textSet _ | numberSet _ | binarySet _ => true
  | _ => false

/-- The binary64 number nearest to a number value, if its text is a number and the result finite. -/
def finiteNumber? (v : AttributeValue) : Option Number.Double :=
  (v.asNumber?.bind Number.Numeral.ofText?).map Number.Numeral.toDouble |>.filter (·.isFinite)

mutual

/-- The length in characters of the longest text in the value: texts, elements of text sets, and
what lists and maps hold, without the keys. -/
def longestText : AttributeValue → Nat
  | text s => s.length
  | textSet elements => elements.foldl (fun n s => max n s.length) 0
  | list items => longestOfItems items
  | map entries => longestOfEntries entries
  | _ => 0

def longestOfItems : List AttributeValue → Nat
  | [] => 0
  | a :: as => max (longestText a) (longestOfItems as)

def longestOfEntries : List (String × AttributeValue) → Nat
  | [] => 0
  | (_, a) :: as => max (longestText a) (longestOfEntries as)

end

end AttributeValue

/-- An item: attribute values by attribute name. -/
abbrev Item := Bindings AttributeValue

end ItemTable
