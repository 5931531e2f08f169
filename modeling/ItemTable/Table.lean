import ItemTable.Expression.Query
import ItemTable.Expression.Scan
import ItemTable.Expression.Update
import ItemTable.Fault
import ItemTable.Reply

/-!
A table and the engine behind it.

Expressions are compiled before anything is sent, so that an invalid one never reaches the engine.
-/
namespace ItemTable

/-- What answers requests on items. The state of the world behind it is handed on from call to
call. -/
structure ItemEngine (World : Type) where
  query : QueryRequest → World → Except Fault ItemPage × World
  scan : ScanRequest → World → Except Fault ItemPage × World
  update : UpdateRequest → World → Except Fault UpdateOutcome × World

/-- A request on items. -/
inductive ItemRequest where
  | query (q : QueryRequest)
  | scan (s : ScanRequest)
  | update (u : UpdateRequest)
deriving DecidableEq

namespace ItemRequest

def operation : ItemRequest → String
  | query _ => "query"
  | scan _ => "scan"
  | update _ => "update_item"

def toDocument : ItemRequest → Json.Document
  | query q => q.toDocument
  | scan s => s.toDocument
  | update u => u.toDocument

end ItemRequest

/-- An engine that answers every request alike and keeps the ones that it has seen. -/
def ItemEngine.scripted (page : Except Fault ItemPage) (outcome : Except Fault UpdateOutcome) :
    ItemEngine (List ItemRequest) where
  query q seen := (page, seen ++ [.query q])
  scan s seen := (page, seen ++ [.scan s])
  update u seen := (outcome, seen ++ [.update u])

/-- Why a table gives no answer. -/
inductive TableError where
  /-- The expression is invalid; nothing has been sent. -/
  | expression (e : Expression.Error)
  /-- The engine has failed. -/
  | engine (f : Fault)

namespace TableError

def name : TableError → String
  | expression e => e.name
  | engine _ => "Engine"

def fault? : TableError → Option Fault
  | expression _ => none
  | engine f => some f

def message : TableError → String
  | expression e => e.message
  | engine f => f.display

/-- Whether the same call may succeed later. -/
def isRetryable : TableError → Bool
  | expression _ => false
  | engine f => f.isRetryable

end TableError

/-- A table by its name, with its engine. -/
structure Table (World : Type) where
  engine : ItemEngine World
  name : String

namespace Table

variable {World α β : Type}

/-- Sends a request if there is one. -/
def send (request : Except Expression.Error α) (call : α → World → Except Fault β × World)
    (w : World) : Except TableError β × World :=
  match request with
  | .error e => (.error (.expression e), w)
  | .ok request =>
    let (answer, w) := call request w
    (answer.mapError .engine, w)

def query (t : Table World) (q : Expression.Query) : World → Except TableError ItemPage × World :=
  send (q.plan >>= fun plan => plan.request t.name) t.engine.query

def scan (t : Table World) (s : Expression.Scan) : World → Except TableError ItemPage × World :=
  send (.ok (s.plan.request t.name)) t.engine.scan

/-- Compiles updates, under a condition if there is one, and applies them to the item of a key. -/
def update (t : Table World) (key : Item) (u : Expression.Update)
    (condition : Option Expression.Compiled) (returnValues : Option ReturnValues) :
    World → Except TableError UpdateOutcome × World :=
  let plan := match condition with
    | some condition => u.planWithCondition condition
    | none => u.plan
  send ((fun plan => plan.request t.name key returnValues) <$> plan) t.engine.update

end Table

end ItemTable
