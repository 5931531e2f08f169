import ItemTable.Fault
import ItemTable.Json.Document
import ItemTable.Number.Digits
import ItemTable.Service.Value

/-!
Requests to the service and what comes back.

An exchange holds the replies that are still to come and the requests that have been sent. When no
reply is left the service answers with an empty object.
-/
namespace ItemTable.Service

open ItemTable.Json

/-- A request as it is sent: the operation and its argument. -/
structure Sent where
  target : String
  body : Document

/-- What a request meets. -/
inductive Reply where
  /-- An answer with its status and headers. -/
  | answer (status : Nat) (headers : List (String × String)) (body : Document)
  /-- No answer: the connection failed or the time ran out. -/
  | lost

/-- The state of a connection. -/
structure Exchange where
  replies : List Reply
  sent : List Sent := []

/-- An answer in which the service declares a failure. -/
structure Refusal where
  status : Nat
  requestId : Option String
  code : Option String
  /-- What the service says; nothing without a code. -/
  text : Option String
deriving DecidableEq, Repr

/-- Why an operation has no result. -/
inductive Failure where
  | refused (r : Refusal)
  /-- No answer came. -/
  | lost
  /-- The request lacks what it is addressed by and has not been sent. -/
  | unaddressed
  /-- The answer is not of the expected form. -/
  | unreadable (requestId : Option String)
  /-- A value of the answer has a type that is not known here. -/
  | unknownValue
deriving DecidableEq, Repr

/-- The code of a failure without one. -/
def unnamedCode : String := "UnknownError"

namespace Failure

def fault : Failure → Fault
  | refused r =>
    let code := r.code.getD unnamedCode
    let text := r.text.getD code
    { Fault.ofCode code text with
      status := some r.status, requestId := r.requestId, cause := some (code ++ ": " ++ text) }
  | lost => { kind := .network, message := "the service did not answer" }
  | unaddressed => { kind := .unknown, message := "the request names no table" }
  | unreadable requestId => { kind := .unknown, message := "the answer cannot be read", requestId }
  | unknownValue =>
    { kind := .unknown, message := "engine returned an attribute value of unknown type" }

/-- Whether the wording of the fault says what the service or its values are at fault for. Otherwise
it is about the transport. -/
def isWorded : Failure → Bool
  | refused _ | unknownValue => true
  | lost | unaddressed | unreadable _ => false

end Failure

/-- The headers that may name a request, the first one preferred. -/
def requestIdHeaders : List String := ["x-amzn-requestid", "x-amz-request-id"]

/-- A header by its name, in any case of its letters. -/
def header? (headers : List (String × String)) (name : String) : Option String :=
  (headers.find? fun h => h.1.toList.map Char.toLower = name.toList).map Prod.snd

/-- The id that the service has given to a request. -/
def requestIdOf (headers : List (String × String)) : Option String :=
  requestIdHeaders.findSome? (header? headers)

/-- A code without what qualifies it: a colon and what follows, and what stands before a number
sign. -/
def plainCode (code : String) : String :=
  let named := code.toList.takeWhile (· ≠ ':')
  String.ofList (if named.contains '#' then (named.dropWhile (· ≠ '#')).drop 1 else named)

/-- The last text member that has one of some names. -/
def lastText? (names : List String) : Document → Option String
  | .object members _ =>
    (members.filterMap fun m =>
      match m with
      | (some name, .text s) => if names.contains name then some s else none
      | _ => none).getLast?
  | _ => none

/-- The code of a failing answer: that of the headers before that of the body. -/
def codeOf (headers : List (String × String)) (body : Document) : Option String :=
  let code := (header? headers "x-amzn-errortype").or
    ((lastText? ["code"] body).or (lastText? ["__type"] body))
  code.map plainCode

/-- What a failing answer says. -/
def refusalOf (status : Nat) (headers : List (String × String)) (body : Document) : Refusal :=
  let code := codeOf headers body
  { status, code
    requestId := requestIdOf headers
    text := code.bind fun _ => lastText? ["message", "Message", "errorMessage"] body }

/-- The result of a reply. -/
def Reply.result {α : Type} (read? : Document → Option α) : Reply → Except Failure α
  | .lost => .error .lost
  | .answer status headers body =>
    if 200 ≤ status ∧ status < 300 then
      match read? body with
      | some a => .ok a
      | none => .error (.unreadable (requestIdOf headers))
    else .error (.refused (refusalOf status headers body))

/-- The answer when no reply is left. -/
def emptyReply : Reply := .answer 200 [] (.ofMembers [])

/-- The result of a value that must not be unknown. -/
def known {α : Type} : Option α → Except Failure α
  | some a => .ok a
  | none => .error .unknownValue

namespace Exchange

/-- Sends a request and reads the reply. -/
def call {α : Type} (request : Sent) (read? : Document → Option α) (x : Exchange) :
    Except Failure α × Exchange :=
  let sent := x.sent ++ [request]
  match x.replies with
  | [] => (emptyReply.result read?, { replies := [], sent })
  | reply :: replies => (reply.result read?, { replies, sent })

end Exchange

/-- A member of a reply; one that is absent or null counts as nothing. The outer option says whether
the member can be read. -/
def member? {α : Type} (name : String) (read? : Document → Option α) (d : Document) :
    Option (Option α) :=
  match d.member? name with
  | none | some .null => some none
  | some d => some <$> read? d

/-- A whole number between bounds. -/
def wholeOf? (low high : Int) : Document → Option Int
  | .number n =>
    match n.fraction.isEmpty && n.exponent.isNone with
    | true =>
      let size : Int := Number.decimalValue n.whole
      let value := if n.negative then -size else size
      if low ≤ value ∧ value ≤ high then some value else none
    | false => none
  | _ => none

/-- A list whose items are read. -/
def listOf? {α : Type} (read? : Document → Option α) (d : Document) : Option (List α) :=
  (itemsOf? d).bind (·.mapM read?)

/-- Members of an object. -/
def objectOf? {α : Type} (read? : Document → Option α) (d : Document) : Option α :=
  match d with
  | .object _ _ => read? d
  | _ => none

end ItemTable.Service
