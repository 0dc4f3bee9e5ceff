import FeatureSieve.Json.Numeral
import FeatureSieve.Json.Quoted

/-! # Compact JSON text

A value is written without blanks, members in their order.
-/

namespace FeatureSieve.Json

def separated : List (List Char) → List Char := List.intercalate [',']

mutual

def chars : Json → List Char
  | .null => "null".toList
  | .bool b => if b then "true".toList else "false".toList
  | .number n => n.numeral.chars
  | .string s => quote s.toList
  | .array elements => '[' :: separated (elementChars elements) ++ [']']
  | .object members => '\x7b' :: separated (memberChars members) ++ ['\x7d']

def elementChars : List Json → List (List Char)
  | [] => []
  | v :: rest => v.chars :: elementChars rest

def memberChars : List (String × Json) → List (List Char)
  | [] => []
  | (key, v) :: rest => (quote key.toList ++ ':' :: v.chars) :: memberChars rest

end

def text (v : Json) : String := String.ofList v.chars

end FeatureSieve.Json
