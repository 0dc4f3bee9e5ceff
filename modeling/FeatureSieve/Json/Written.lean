import FeatureSieve.Json.Numeral
import FeatureSieve.Json.Token

/-! # JSON as written

The tree that a text spells, before its numerals and strings are given a value and
before repeated members are merged. Every well-formed text has such a tree, however
deep; parts of it that nobody asks for are never valued, so an overflowing numeral
or a lone surrogate there does no harm.
-/

namespace FeatureSieve

namespace Json

inductive Written where
  | null
  | bool (b : Bool)
  | numeral (n : Numeral)
  | quoted (units : List CodeUnit)
  | array (elements : List Written)
  | object (members : List (List CodeUnit × Written))

namespace Written

/-- A container that is still open: what it holds so far, latest first. -/
inductive Frame where
  | elements (before : List Written)
  | members (before : List (List CodeUnit × Written)) (key : List CodeUnit)

/-- What may come next, inside the open containers, innermost first. -/
inductive State where
  | value (stack : List Frame)
  | openedArray (stack : List Frame)
  | openedObject (stack : List Frame)
  | key (before : List (List CodeUnit × Written)) (stack : List Frame)
  | colon (before : List (List CodeUnit × Written)) (key : List CodeUnit) (stack : List Frame)
  | complete (value : Written) (stack : List Frame)

namespace State

/-- A value starts. -/
def begin (stack : List Frame) : Token → Option State
  | .openArray => some (openedArray stack)
  | .openObject => some (openedObject stack)
  | .null => some (complete .null stack)
  | .bool b => some (complete (.bool b) stack)
  | .numeral n => some (complete (.numeral n) stack)
  | .quoted units => some (complete (.quoted units) stack)
  | _ => none

/-- The innermost container goes on or ends after `value`. -/
def resume (value : Written) : List Frame → Token → Option State
  | .elements before :: stack, .comma => some (State.value (.elements (value :: before) :: stack))
  | .elements before :: stack, .closeArray =>
    some (complete (.array (value :: before).reverse) stack)
  | .members before k :: stack, .comma => some (key ((k, value) :: before) stack)
  | .members before k :: stack, .closeObject =>
    some (complete (.object ((k, value) :: before).reverse) stack)
  | _, _ => none

def step : State → Token → Option State
  | value stack, token => begin stack token
  | openedArray stack, .closeArray => some (complete (.array []) stack)
  | openedArray stack, token => begin (.elements [] :: stack) token
  | openedObject stack, .closeObject => some (complete (.object []) stack)
  | openedObject stack, .quoted k => some (colon [] k stack)
  | key before stack, .quoted k => some (colon before k stack)
  | colon before k stack, .colon => some (value (.members before k :: stack))
  | complete v stack, token => resume v stack token
  | _, _ => none

def result? : State → Option Written
  | complete v [] => some v
  | _ => none

end State

/-- Reads on in a state until one value is complete, and returns what follows it. -/
def readFrom (state : State) (cs : List Char) : Option (Written × List Char) :=
  match state.result?, cs with
  | some w, _ => some (w, cs)
  | none, [] => none
  | none, c :: rest =>
    if Token.isSpace c then readFrom state rest
    else
      match h : Token.read? c rest with
      | none => none
      | some (token, after) =>
        have : after.length < (c :: rest).length := Nat.lt_succ_of_le (Token.length_le_of_read? h)
        match state.step token with
        | none => none
        | some next => readFrom next after
termination_by cs.length
decreasing_by
  · exact Nat.lt_succ_self _
  · exact this

/-- The value at the front of a text, and what follows it. -/
def readFront? (text : String) : Option (Written × List Char) :=
  readFrom (State.value []) text.toList

/-- Whether nothing but spaces is left. -/
def isEnd (rest : List Char) : Bool := rest.all Token.isSpace

/-- The value of a text that holds one value and nothing else. -/
def read? (text : String) : Option Written :=
  ((readFront? text).filter fun (_, rest) => isEnd rest).map Prod.fst

mutual

def depth : Written → Nat
  | .array elements => elementsDepth elements + 1
  | .object members => membersDepth members + 1
  | _ => 0

def elementsDepth : List Written → Nat
  | [] => 0
  | w :: rest => max w.depth (elementsDepth rest)

def membersDepth : List (List CodeUnit × Written) → Nat
  | [] => 0
  | (_, w) :: rest => max w.depth (membersDepth rest)

end

variable [DoubleReader]

mutual

/-- The value that is written; a repeated member keeps its first place and its last value. -/
def value? : Written → Option Json
  | .null => some .null
  | .bool b => some (.bool b)
  | .numeral n => (Number.ofNumeral? n).map .number
  | .quoted units => (CodeUnit.text? units).map .string
  | .array elements => (elementValues? elements).map .array
  | .object members => (memberValues? members).map fun ms => .object (Keyed.ofPairs ms)

def elementValues? : List Written → Option (List Json)
  | [] => some []
  | w :: rest => do return (← w.value?) :: (← elementValues? rest)

def memberValues? : List (List CodeUnit × Written) → Option (List (String × Json))
  | [] => some []
  | (units, w) :: rest => do
    return (← CodeUnit.text? units, ← w.value?) :: (← memberValues? rest)

end

/-- The value, if it nests at most `levels` deep. -/
def valueWithin? (levels : Nat) (w : Written) : Option Json :=
  if w.depth ≤ levels then w.value? else none

/-- The string that is written, if it is one. -/
def string? : Written → Option String
  | .quoted units => CodeUnit.text? units
  | _ => none

end Written

/-- Texts may nest this many arrays and objects where their values are used. -/
def nestingLimit : Nat := 127

/-- The value at the front of a text, and what follows it. -/
def readFront? [DoubleReader] (text : String) : Option (Json × List Char) := do
  let (w, rest) ← Written.readFront? text
  return (← w.valueWithin? nestingLimit, rest)

end Json

end FeatureSieve
