import ItemTable.Expression.Operator
import ItemTable.Value

/-! Why an expression cannot be built. -/
namespace ItemTable.Expression

/-- What is wrong with a value. -/
inductive ValueFlaw where
  | isNull
  | notFiniteNumber
  | notText
  | notSet
  | notNumberOrSet
  | operandShape (operator : Operator)
  | tooManyOperands (limit : Nat)
  | blankFilter
  | emptyAttributeName
  | unreferenced

def ValueFlaw.message : ValueFlaw → String
  | isNull => "value must not be null"
  | notFiniteNumber => "expected a finite number"
  | notText => "expected a string"
  | notSet => "expected a set"
  | notNumberOrSet => "ADD expects a number or a set"
  | operandShape operator => "operand shape does not fit " ++ operator.name
  | tooManyOperands limit => "IN accepts at most " ++ toString limit ++ " values"
  | blankFilter => "expression must not be empty"
  | emptyAttributeName => "attribute name must not be empty"
  | unreferenced => "supplied placeholder is not referenced by the filter"

/-- What is wrong with a range. -/
inductive RangeFlaw where
  | mixedTypes (low high : ValueTag)
  | descending

def RangeFlaw.message : RangeFlaw → String
  | mixedTypes low high =>
    "bounds must share one of the types S, N or B, got " ++ low.name ++ " and " ++ high.name
  | descending => "start must not be greater than end"

/-- The errors of building an expression. -/
inductive Error where
  | invalidFieldName (field : String)
  | invalidProjection (path : String)
  | invalidValue (field : String) (flaw : ValueFlaw)
  | valueTooLarge (field : String) (limit : Nat)
  | tooManyConditions (limit : Nat)
  | tooManyUpdates (limit : Nat)
  | invalidRange (field : String) (flaw : RangeFlaw)
  | emptyList (field : String)
  | noConditions
  | noUpdates
  | overlappingUpdate (field : String)
  | invalidLimit (limit maximum : Nat)
  | invalidSegment (segment total : Nat)
  | unsupportedKeyCondition (operator : Operator)
  | placeholderConflict (placeholder : String)
  | missingValue (placeholder : String)
  | missingName (placeholder : String)

def Error.name : Error → String
  | invalidFieldName _ => "InvalidFieldName"
  | invalidProjection _ => "InvalidProjection"
  | invalidValue _ _ => "InvalidValue"
  | valueTooLarge _ _ => "ValueTooLarge"
  | tooManyConditions _ => "TooManyConditions"
  | tooManyUpdates _ => "TooManyUpdates"
  | invalidRange _ _ => "InvalidRange"
  | emptyList _ => "EmptyList"
  | noConditions => "NoConditions"
  | noUpdates => "NoUpdates"
  | overlappingUpdate _ => "OverlappingUpdate"
  | invalidLimit _ _ => "InvalidLimit"
  | invalidSegment _ _ => "InvalidSegment"
  | unsupportedKeyCondition _ => "UnsupportedKeyCondition"
  | placeholderConflict _ => "PlaceholderConflict"
  | missingValue _ => "MissingValue"
  | missingName _ => "MissingName"

def Error.message : Error → String
  | invalidFieldName field =>
    "Invalid field name '" ++ field ++ "': only letters, digits and underscores are allowed"
  | invalidProjection path => "Invalid projection path '" ++ path ++ "'"
  | invalidValue field flaw => "Invalid value for '" ++ field ++ "': " ++ flaw.message
  | valueTooLarge field limit =>
    "Value for '" ++ field ++ "' exceeds " ++ toString limit ++ " characters"
  | tooManyConditions limit =>
    "Too many conditions: at most " ++ toString limit ++ " may be added"
  | tooManyUpdates limit => "Too many updates: at most " ++ toString limit ++ " may be added"
  | invalidRange field flaw => "Invalid range for '" ++ field ++ "': " ++ flaw.message
  | emptyList field => "'" ++ field ++ "' requires a non-empty list"
  | noConditions => "Query requires at least one condition; no conditions were added"
  | noUpdates => "Update requires at least one operation; no updates were added"
  | overlappingUpdate field => "Field '" ++ field ++ "' is updated more than once"
  | invalidLimit limit maximum =>
    "Invalid limit " ++ toString limit ++ ": must be between 1 and " ++ toString maximum
  | invalidSegment segment total =>
    "Invalid parallel scan: segment " ++ toString segment ++ " of " ++ toString total
  | unsupportedKeyCondition operator =>
    operator.name ++ " cannot be used in a key condition"
  | placeholderConflict placeholder =>
    "Placeholder " ++ placeholder ++ " is already bound to a different value"
  | missingValue placeholder =>
    "Expression references " ++ placeholder ++ " but no value was supplied for it"
  | missingName placeholder =>
    "Expression references " ++ placeholder ++ " but no attribute name was supplied for it"

end ItemTable.Expression
