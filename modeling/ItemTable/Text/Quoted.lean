import ItemTable.Text.Hidden
import ItemTable.Text.Separated

/-! Quoted texts: how messages and displays show a text so that its ends and its odd characters are
seen. -/
namespace ItemTable.Text

/-- One character inside quotation marks. -/
def quotedChar (c : Char) : List Char :=
  if c = '"' ∨ c = '\\' then ['\\', c]
  else if c = '\n' then ['\\', 'n']
  else if c = '\r' then ['\\', 'r']
  else if c = '\t' then ['\\', 't']
  else if c = '\x00' then ['\\', '0']
  else if isHidden c then '\\' :: 'u' :: '\x7b' :: (Nat.toDigits 16 c.toNat ++ ['\x7d'])
  else [c]

def quoted (s : String) : String :=
  String.ofList ('"' :: (s.toList.flatMap quotedChar ++ ['"']))

/-- A list of texts, each in quotation marks, in square brackets. -/
def quotedList (elements : List String) : String :=
  "[" ++ joinWith ", " (elements.map quoted) ++ "]"

end ItemTable.Text
