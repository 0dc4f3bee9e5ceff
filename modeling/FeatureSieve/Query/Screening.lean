import FeatureSieve.History.Entry
import FeatureSieve.Number.Numeral
import FeatureSieve.Query.Basic
import FeatureSieve.Text.Blank
import FeatureSieve.Text.Comma

/-! # Screening of typed texts

The checks that a text has to pass for an operator, and the one that keeps a layer to
one active filter. The first rule that is broken gives the rejection.
-/

namespace FeatureSieve

inductive Rejection where
  | empty
  | layerAlreadyFiltered
  | notANumber
  | boundsWithoutComma
  | boundsWithBlank
  | boundsCount
  | boundsNotNumeric
  | membersCount
  | membersWithSpaceAtComma
deriving DecidableEq

def Rejection.message : Rejection → String
  | empty => "No input value, please enter a valid value."
  | layerAlreadyFiltered =>
    "Currently selected layer is already filtered. Please remove its active filter first."
  | notANumber => "The value entered is not a valid number, check for spaces or letters."
  | boundsWithoutComma => "Input does not contain two values separated by a comma (,)."
  | boundsWithBlank =>
    "Input value contains a space, please remove any spaces between values or commas."
  | boundsCount =>
    "Two numbers not included in input, please enter two numbers separated by a comma."
  | boundsNotNumeric => "One of the values either side of the comma is empty or not a number."
  | membersCount => "Input does not contain two values separated by a comma (,)."
  | membersWithSpaceAtComma =>
    "Input value contains a space next to a comma, please remove spaces such as ' ,' or ', '."

def isNumeric (text : String) : Bool := (FiniteDouble.ofText? text).isSome

namespace Operator

/-- Two numbers with a comma between them, and no blank anywhere. -/
def screenBounds (cs : List Char) : Except Rejection Unit :=
  if ',' ∉ cs then .error .boundsWithoutComma
  else if cs.any Text.isBlank then .error .boundsWithBlank
  else if (Text.segments cs).length ≠ 2 then .error .boundsCount
  else if !(Text.segments cs).all (fun s => isNumeric (String.ofList s)) then
    .error .boundsNotNumeric
  else .ok ()

/-- Exactly two members, and no space next to the comma. -/
def screenMembers (cs : List Char) : Except Rejection Unit :=
  if (Text.segments cs).length ≠ 2 then .error .membersCount
  else if Text.hasSpaceAtComma cs then .error .membersWithSpaceAtComma
  else .ok ()

/-- The rules of each operator for a text that is not empty. -/
def screenText (operator : Operator) (text : String) : Except Rejection Unit :=
  match operator with
  | equals => .ok ()
  | lessThan | greaterThan => if isNumeric text then .ok () else .error .notANumber
  | between => screenBounds text.toList
  | oneOf => screenMembers text.toList

/-- With a layer and the active entries at hand, a layer that one of them concerns is refused. -/
def screen (operator : Operator) (text : String) (layer : Option String)
    (active : Option (List Entry)) : Except Rejection Unit :=
  if text.isEmpty then .error .empty
  else if layer.any fun name => active.any fun entries => entries.any (·.concerns name) then
    .error .layerAlreadyFiltered
  else operator.screenText text

end Operator

end FeatureSieve
