import FeatureSieve.Json.Record

/-! # Operators

The operators that a field offers depend on the kind of its values. An operator has
one spelling, its symbol; a kind may be given by either of two names and is written
by the first.
-/

namespace FeatureSieve

inductive ValueKind where
  | numeric
  | text
deriving DecidableEq

inductive Operator where
  | equals
  | lessThan
  | greaterThan
  | between
  | oneOf
deriving DecidableEq

namespace ValueKind

def name : ValueKind → String
  | numeric => "number"
  | text => "text"

def ofName? : String → Option ValueKind
  | "number" => some numeric
  | "numeric" => some numeric
  | "text" => some text
  | "string" => some text
  | _ => none

def toJson (kind : ValueKind) : Json := .string kind.name

def ofWritten? (w : Json.Written) : Option ValueKind := w.variant?.bind ofName?

def read? (text : String) : Option ValueKind := (Json.Written.read? text).bind ofWritten?

/-- The operators offered, in the order of presentation. -/
def operators : ValueKind → List Operator
  | numeric => [.equals, .lessThan, .greaterThan, .between]
  | text => [.equals, .oneOf]

@[simp] theorem ofName?_name (kind : ValueKind) : ofName? kind.name = some kind := by
  cases kind <;> rfl

end ValueKind

namespace Operator

def label : Operator → String
  | equals => "Equal To"
  | lessThan => "Less Than"
  | greaterThan => "Greater Than"
  | between => "Between"
  | oneOf => "In"

def symbol : Operator → String
  | equals => "=="
  | lessThan => "<"
  | greaterThan => ">"
  | between => "between"
  | oneOf => "in"

def ofSymbol? : String → Option Operator
  | "==" => some equals
  | "<" => some lessThan
  | ">" => some greaterThan
  | "between" => some between
  | "in" => some oneOf
  | _ => none

instance : ToString Operator := ⟨symbol⟩

def all : List Operator := [equals, lessThan, greaterThan, between, oneOf]

/-- The name of an operator in JSON. -/
def wireName : Operator → String
  | equals => "=="
  | lessThan => "<"
  | greaterThan => ">"
  | between => "between"
  | oneOf => "in"

def ofWireName? (name : String) : Option Operator := all.find? (·.wireName = name)

def toJson (operator : Operator) : Json := .string operator.wireName

def ofWritten? (w : Json.Written) : Option Operator := w.variant?.bind ofWireName?

def read? (text : String) : Option Operator := (Json.Written.read? text).bind ofWritten?

@[simp] theorem ofSymbol?_symbol (operator : Operator) : ofSymbol? operator.symbol = some operator := by
  cases operator <;> rfl

end Operator

/-- A text that is no operator's symbol. -/
structure UnknownOperator where
  text : String
deriving DecidableEq

def UnknownOperator.message (e : UnknownOperator) : String :=
  s!"Invalid filter operator: {e.text}"

def Operator.parse (text : String) : Except UnknownOperator Operator :=
  match ofSymbol? text with
  | some operator => .ok operator
  | none => .error ⟨text⟩

end FeatureSieve
