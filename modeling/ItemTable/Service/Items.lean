import ItemTable.Reply
import ItemTable.Service.Arguments
import ItemTable.Service.Exchange
import ItemTable.Text.Blank

/-!
The item operations of the service.

The body of a request is what the client writes of the members that are set. A page is handed on
with all its items or not at all.
-/
namespace ItemTable.Service

open ItemTable.Json

/-- The operations on items, by the name that a request is addressed with. -/
def itemTarget (operation : String) : String := "DynamoDB_20120810." ++ operation

/-- The numbers that 32 signed bits hold. -/
def countOf? : Document → Option Int := wholeOf? (-0x80000000) 0x7FFFFFFF

/-- A page as the service sends it. A count that is missing counts as zero. -/
structure SentPage where
  items : List Fields
  lastKey : Option Fields
  count : Int
  scannedCount : Int

namespace SentPage

def read? : Document → Option SentPage := objectOf? fun d => do
  let items ← member? "Items" (listOf? Fields.read?) d
  let lastKey ← member? "LastEvaluatedKey" Fields.read? d
  let count ← member? "Count" countOf? d
  let scannedCount ← member? "ScannedCount" countOf? d
  return {
    items := items.getD [], lastKey, count := count.getD 0, scannedCount := scannedCount.getD 0 }

/-- A count that is not negative. -/
def size? (n : Int) : Option Nat := if 0 ≤ n then some n.toNat else none

/-- The page, if no value is unknown. Negative counts say nothing. -/
def toPage? (p : SentPage) : Option ItemPage := do
  let items ← p.items.mapM Fields.toItem?
  let lastKey ← match p.lastKey with
    | some key => some <$> Fields.toItem? key
    | none => some none
  return { items, lastKey, count := size? p.count, scannedCount := size? p.scannedCount }

end SentPage

/-- Reads the attributes that an update returns. -/
def readAttributes? : Document → Option (Option Fields) :=
  objectOf? (member? "Attributes" Fields.read?)

/-- What an update returns, if no value is unknown. -/
def toOutcome? : Option Fields → Option UpdateOutcome
  | some fields => UpdateOutcome.mk <$> fields.toItem?
  | none => some ⟨.empty⟩

/-- Sends a request on a table. A blank name says no table, and then nothing is sent. -/
def onTable {α : Type} (table : String) (request : Sent) (read? : Document → Option α)
    (x : Exchange) : Except Failure α × Exchange :=
  if Text.allBlank table then (.error .unaddressed, x) else x.call request read?

def queryWith (client : Client) (q : QueryRequest) (x : Exchange) :
    Except Failure ItemPage × Exchange :=
  let (page, x) :=
    onTable q.table ⟨itemTarget "Query", client.queryBody (.ofRequest q)⟩ SentPage.read? x
  (page >>= fun p => known p.toPage?, x)

def scanWith (client : Client) (s : ScanRequest) (x : Exchange) :
    Except Failure ItemPage × Exchange :=
  let (page, x) :=
    onTable s.table ⟨itemTarget "Scan", client.scanBody (.ofRequest s)⟩ SentPage.read? x
  (page >>= fun p => known p.toPage?, x)

def updateWith (client : Client) (u : UpdateRequest) (x : Exchange) :
    Except Failure UpdateOutcome × Exchange :=
  let (fields, x) :=
    onTable u.table ⟨itemTarget "UpdateItem", client.updateBody (.ofRequest u)⟩ readAttributes? x
  (fields >>= fun f => known (toOutcome? f), x)

def query : QueryRequest → Exchange → Except Failure ItemPage × Exchange := queryWith .standard

def scan : ScanRequest → Exchange → Except Failure ItemPage × Exchange := scanWith .standard

def update : UpdateRequest → Exchange → Except Failure UpdateOutcome × Exchange :=
  updateWith .standard

end ItemTable.Service
