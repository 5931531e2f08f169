/-! Failures of the service behind a table or a change log. -/
namespace ItemTable

/-- The kinds of failure. -/
inductive FaultKind where
  | validation
  | conditionalCheckFailed
  | resourceNotFound
  | resourceInUse
  | throughputExceeded
  | throttling
  | accessDenied
  | network
  | internal
  | unknown
deriving DecidableEq, Repr

namespace FaultKind

def name : FaultKind → String
  | validation => "ValidationError"
  | conditionalCheckFailed => "ConditionalCheckFailed"
  | resourceNotFound => "ResourceNotFound"
  | resourceInUse => "ResourceInUse"
  | throughputExceeded => "ThroughputExceeded"
  | throttling => "ThrottlingError"
  | accessDenied => "AccessDenied"
  | network => "NetworkError"
  | internal => "InternalError"
  | unknown => "UnknownError"

def all : List FaultKind :=
  [validation, conditionalCheckFailed, resourceNotFound, resourceInUse, throughputExceeded,
    throttling, accessDenied, network, internal, unknown]

/-- The kind of a failure of which nothing is known. -/
def default : FaultKind := unknown

def ofName? (s : String) : Option FaultKind := all.find? (·.name = s)

/-- The codes that the service gives, with the kinds they stand for. -/
def codes : List (String × FaultKind) :=
  [("ValidationException", validation), ("SerializationException", validation),
    ("MissingAction", validation), ("ConditionalCheckFailedException", conditionalCheckFailed),
    ("ResourceNotFoundException", resourceNotFound),
    ("TrimmedDataAccessException", resourceNotFound), ("ResourceInUseException", resourceInUse),
    ("ProvisionedThroughputExceededException", throughputExceeded),
    ("RequestLimitExceeded", throughputExceeded), ("ThrottlingException", throttling),
    ("LimitExceededException", throttling), ("AccessDeniedException", accessDenied),
    ("UnrecognizedClientException", accessDenied), ("InvalidSignatureException", accessDenied),
    ("ExpiredTokenException", accessDenied), ("InternalServerError", internal),
    ("InternalFailure", internal), ("ServiceUnavailable", internal)]

/-- What follows the last number sign of a code, which may be qualified by a namespace. -/
def shortCode (code : List Char) : List Char := (code.reverse.takeWhile (· ≠ '#')).reverse

def ofCode (code : String) : FaultKind :=
  ((codes.find? (·.1.toList = shortCode code.toList)).map Prod.snd).getD unknown

/-- Failures that may go away when the same request is made again. -/
def isRetryable : FaultKind → Bool
  | throughputExceeded | throttling | network | internal => true
  | _ => false

theorem mem_all (k : FaultKind) : k ∈ all := by cases k <;> decide

end FaultKind

/-- A failure of the service. `cause` is the display of the failure underneath, if there is one. -/
structure Fault where
  kind : FaultKind
  message : String
  status : Option Nat := none
  requestId : Option String := none
  cause : Option String := none
deriving DecidableEq, Repr

namespace Fault

/-- A failure with a code of the service. -/
def ofCode (code message : String) : Fault := { kind := .ofCode code, message }

def isRetryable (f : Fault) : Bool := f.kind.isRetryable

/-- The kind and the message, then status and request if they are known. -/
def display (f : Fault) : String :=
  "EngineError(" ++ f.kind.name ++ "): " ++ f.message ++
    (match f.status with
      | some status => " [status " ++ toString status ++ "]"
      | none => "") ++
    match f.requestId with
      | some id => " [request " ++ id ++ "]"
      | none => ""

end Fault

end ItemTable
