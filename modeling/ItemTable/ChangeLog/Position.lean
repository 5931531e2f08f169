/-! Places in a change log: where a shard is entered, and the cursors that lead through it. -/
namespace ItemTable.ChangeLog

/-- Where reading a shard starts. -/
inductive Position where
  | latest
  | trimHorizon
  | atSequence (number : String)
  | afterSequence (number : String)
deriving DecidableEq, Repr

namespace Position

/-- The oldest record that is still kept. -/
def default : Position := trimHorizon

/-- The name of the way a shard is entered. -/
def mode : Position → String
  | latest => "LATEST"
  | trimHorizon => "TRIM_HORIZON"
  | atSequence _ => "AT_SEQUENCE_NUMBER"
  | afterSequence _ => "AFTER_SEQUENCE_NUMBER"

/-- The sequence number that the position refers to. -/
def sequence? : Position → Option String
  | latest | trimHorizon => none
  | atSequence number | afterSequence number => some number

/-- The position of a mode; the sequence number is used where the mode needs one. -/
def ofMode? (mode number : String) : Option Position :=
  [latest, trimHorizon, atSequence number, afterSequence number].find? (·.mode = mode)

end Position

/-- An opaque mark in a shard, issued by the service. -/
structure Cursor where
  token : String
deriving DecidableEq, Repr

/-- Tokens are long: sixteen characters of one are shown. -/
def Cursor.display (c : Cursor) : String :=
  let shown := c.token.toList.take 16
  if shown.length < c.token.length then String.ofList (shown ++ ['…']) else c.token

end ItemTable.ChangeLog
