import ItemTable.Value
import ItemTable.Number.Shortest
import ItemTable.Text.Quoted

/-! The short display of an attribute value, and the values that plain data become. -/
namespace ItemTable.AttributeValue

/-- What the display shows of the payload: texts and flags in full, of the larger payloads their
size. -/
def displayPayload : AttributeValue → String
  | text s => s
  | number n => n
  | binary bytes => toString bytes.length ++ " bytes"
  | textSet elements => Text.quotedList elements
  | numberSet elements => Text.quotedList elements
  | binarySet elements => toString elements.length ++ " items"
  | boolean b => toString b
  | null b => toString b
  | list items => toString items.length ++ " items"
  | map entries => toString entries.length ++ " keys"

/-- The tag and the payload in braces. -/
def display (v : AttributeValue) : String :=
  "\x7b" ++ v.tag.name ++ ": " ++ v.displayPayload ++ "\x7d"

def ofInt (n : Int) : AttributeValue := number (toString n)

/-- The number value of a binary64 number; the infinities and no-number keep their words. -/
def ofDouble (d : Number.Double) : AttributeValue := number d.inFull

/-- The number value of the binary64 number that a text writes. -/
def ofDoubleText? (text : String) : Option AttributeValue :=
  (Number.Numeral.ofText? text).map fun n => ofDouble n.toDouble

end ItemTable.AttributeValue
