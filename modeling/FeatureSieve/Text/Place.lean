/-! # Places in messages

A message about a text may end with the place it means, as in ` at line 3 column 7`.
Lines count from one, so line zero stands for no place and is not written. The last
such ending alone is a place; anything else is part of the message.
-/

namespace FeatureSieve.Text

structure Place where
  line : Nat
  column : Nat
deriving DecidableEq

/-- What stands before the last occurrence of a mark, and what follows it. -/
def cutLast? (mark : List Char) : List Char → Option (List Char × List Char)
  | [] => none
  | c :: rest =>
    match cutLast? mark rest with
    | some (before, after) => some (c :: before, after)
    | none =>
      if mark.isPrefixOf (c :: rest) then some ([], (c :: rest).drop mark.length) else none

namespace Place

def lineMark : List Char := " at line ".toList

def columnMark : List Char := " column ".toList

/-- A number of at most 64 bits, with any number of leading zeros. -/
def number? (digits : List Char) : Option Nat :=
  let n := Nat.ofDigitChars 10 digits 0
  if digits ≠ [] ∧ digits.all Char.isDigit ∧ n < 0x10000000000000000 then some n else none

/-- Reads what follows the line mark. -/
def read? (cs : List Char) : Option Place :=
  let rest := cs.dropWhile Char.isDigit
  if columnMark.isPrefixOf rest then do
    return ⟨← number? (cs.takeWhile Char.isDigit), ← number? (rest.drop columnMark.length)⟩
  else none

/-- The message without its place, and the place it ends with. -/
def split? (message : List Char) : Option (List Char × Place) := do
  let (body, ending) ← cutLast? lineMark message
  return (body, ← read? ending)

def chars (place : Place) : List Char :=
  if place.line = 0 then []
  else lineMark ++ Nat.toDigits 10 place.line ++ columnMark ++ Nat.toDigits 10 place.column

/-- Writes the place of a message in its plain form. -/
def settle (message : String) : String :=
  match split? message.toList with
  | some (body, place) => String.ofList (body ++ place.chars)
  | none => message

end Place

end FeatureSieve.Text
