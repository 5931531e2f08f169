import ItemTable.Request

/-! What a table answers: a page of items, or the attributes that an update returns. -/
namespace ItemTable

open ItemTable.Json

/-- One page of a query or a scan. -/
structure ItemPage where
  items : List Item
  lastKey : Option Item
  count : Option Nat
  scannedCount : Option Nat
deriving DecidableEq

namespace ItemPage

/-- A page without items that says nothing of its counts. -/
def empty : ItemPage := ⟨[], none, none, none⟩

/-- Another page follows if the table says after which key. -/
def hasMore (p : ItemPage) : Bool := (p.lastKey.map fun key => !key.isEmpty).getD false

def toDocument (p : ItemPage) : Document :=
  .ofPresent [
    .always "items" (.ofList (p.items.map Item.toDocument)),
    .optional "lastKey" (p.lastKey.map Item.toDocument),
    .optional "count" (p.count.map .ofNat),
    .optional "scannedCount" (p.scannedCount.map .ofNat)]

def reader : RecordReader ItemPage :=
  ((RecordReader.defaulted "items" (Decoder.list Item.decode) []).map mk)
    |>.and (.defaulted "lastKey" Item.decode.orNull none)
    |>.and (.defaulted "count" Decoder.size.orNull none)
    |>.and (.defaulted "scannedCount" Decoder.size.orNull none)

def decode : Decoder ItemPage := reader.decoder "ItemPage"

end ItemPage

/-- What an update returns. -/
structure UpdateOutcome where
  attributes : Item
deriving DecidableEq

namespace UpdateOutcome

def toDocument (u : UpdateOutcome) : Document :=
  .ofPresent [itemMember "attributes" u.attributes]

def reader : RecordReader UpdateOutcome :=
  (RecordReader.defaulted "attributes" Item.decode .empty).map mk

def decode : Decoder UpdateOutcome := reader.decoder "UpdateItemOutput"

end UpdateOutcome

end ItemTable
