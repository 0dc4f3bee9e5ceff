import FeatureSieve.Json.Printer
import FeatureSieve.Json.Written
import FeatureSieve.Predicate.Basic
import FeatureSieve.Text.Place

/-! # Expression syntax

The JSON form of a predicate is an expression array headed by its operator, such as
`[">", ["to-number", ["get", "pop"]], 10.0]`. Reading also accepts `true` for an
empty `all` and a bare name for a `get`; writing uses neither.
-/

namespace FeatureSieve

namespace Comparator

def symbol : Comparator → String
  | equal => "=="
  | less => "<"
  | greater => ">"

def ofSymbol? : String → Option Comparator
  | "==" => some equal
  | "<" => some less
  | ">" => some greater
  | _ => none

@[simp] theorem ofSymbol?_symbol (c : Comparator) : ofSymbol? c.symbol = some c := by
  cases c <;> rfl

end Comparator

/-- What is wrong with an expression, and in which part of it. -/
inductive Malformed where
  | notAnExpression (found : Json)
  | noOperator (whole : Json)
  | comparisonArguments (operator : String) (whole : Json)
  | operand (found : Json)
  | nestedCast (found : Json)
  | accessor (found : Json)
  | membershipField (whole : Json)
  | member (found : Json)
  | negationArguments (whole : Json)
  | unknownOperator (operator : String)

def Malformed.detail : Malformed → String
  | notAnExpression found => s!"expected an expression array, found {found.text}"
  | noOperator whole => s!"expression has no operator: {whole.text}"
  | comparisonArguments operator whole => s!"{operator} takes two arguments: {whole.text}"
  | operand found => s!"unsupported literal: {found.text}"
  | nestedCast found => s!"nested to-number: {found.text}"
  | accessor found => s!"unsupported attribute accessor: {found.text}"
  | membershipField whole => s!"in expects a property name: {whole.text}"
  | member found => s!"in expects string members, found {found.text}"
  | negationArguments whole => s!"! takes one argument: {whole.text}"
  | unknownOperator operator => s!"unsupported operator {operator}"

def Malformed.message (m : Malformed) : String := "Invalid expression: " ++ m.detail

/-- The message for an expression that was read from a text; it may end with a place there. -/
def Malformed.textMessage (m : Malformed) : String := Text.Place.settle m.message

namespace Accessor

def toJson : Accessor → Json
  | raw field => .array [.string "get", .string field]
  | numeric field => .array [.string "to-number", .array [.string "get", .string field]]

def ofJson : Json → Except Malformed Accessor
  | .string field => .ok (raw field)
  | .array [.string operator, inner] =>
    if operator = "get" then
      match inner with
      | .string field => .ok (raw field)
      | _ => .error (.accessor (.array [.string operator, inner]))
    else if operator = "to-number" then
      match ofJson inner with
      | .ok (raw field) => .ok (numeric field)
      | .ok (numeric _) => .error (.nestedCast (.array [.string operator, inner]))
      | .error m => .error m
    else .error (.accessor (.array [.string operator, inner]))
  | v => .error (.accessor v)

end Accessor

namespace Operand

def toJson : Operand → Json
  | number x => .ofDouble x
  | text s => .string s

def ofJson : Json → Except Malformed Operand
  | .number n => .ok (number (.finite n.toDouble))
  | .string s => .ok (text s)
  | v => .error (.operand v)

end Operand

namespace Predicate

mutual

def toJson : Predicate → Json
  | comparison c accessor operand => .array [.string c.symbol, accessor.toJson, operand.toJson]
  | membership field members => .array (.string "in" :: .string field :: members.map .string)
  | all children => .array (.string "all" :: toJsonEach children)
  | any children => .array (.string "any" :: toJsonEach children)
  | not child => .array [.string "!", child.toJson]
  | nothing => .bool false

def toJsonEach : List Predicate → List Json
  | [] => []
  | p :: rest => p.toJson :: toJsonEach rest

end

def comparisonOfJson (c : Comparator) : List Json → Except Malformed Predicate
  | [accessor, operand] => do
    let l ← Operand.ofJson operand
    return comparison c (← Accessor.ofJson accessor) l
  | args => .error (.comparisonArguments c.symbol (.array (.string c.symbol :: args)))

def memberOfJson : Json → Except Malformed String
  | .string s => .ok s
  | v => .error (.member v)

def membershipOfJson : List Json → Except Malformed Predicate
  | .string field :: members => (members.mapM memberOfJson).map (membership field)
  | args => .error (.membershipField (.array (.string "in" :: args)))

mutual

def ofJson : Json → Except Malformed Predicate
  | .bool true => .ok (all [])
  | .bool false => .ok nothing
  | .array (.string head :: args) =>
    match Comparator.ofSymbol? head with
    | some c => comparisonOfJson c args
    | none =>
      if head = "in" then membershipOfJson args
      else if head = "all" then (ofJsonEach args).map all
      else if head = "any" then (ofJsonEach args).map any
      else if head = "!" then
        match args with
        | [child] => (ofJson child).map not
        | _ => .error (.negationArguments (.array (.string head :: args)))
      else .error (.unknownOperator head)
  | .array elements => .error (.noOperator (.array elements))
  | v => .error (.notAnExpression v)

/-- The first expression that is malformed decides the error. -/
def ofJsonEach : List Json → Except Malformed (List Predicate)
  | [] => .ok []
  | v :: rest => do return (← ofJson v) :: (← ofJsonEach rest)

end

/-- The text of a predicate is the compact text of its expression. -/
def text (p : Predicate) : String := p.toJson.text

/-- Why a text gives no predicate. -/
inductive ReadFailure where
  | notJson
  | malformed (cause : Malformed)

/-- Reads the text of an expression. What is wrong with the value at the front is found before
anything that follows it. -/
def read [Json.DoubleReader] (text : String) : Except ReadFailure Predicate :=
  match Json.readFront? text with
  | none => .error .notJson
  | some (v, rest) =>
    match ofJson v with
    | .error cause => .error (.malformed cause)
    | .ok p => if Json.Written.isEnd rest then .ok p else .error .notJson

end Predicate

end FeatureSieve
