import FeatureSieve.Number.Decimal

/-! # Numerals

The spelling of a number: a sign, digits with an optional point, an optional
exponent. `split?` takes a spelling apart and `chars` writes it; the kinds of
numeral in use differ in which parts may be missing.
-/

namespace FeatureSieve

inductive Sign where
  | plus
  | minus
deriving DecidableEq

namespace Sign

def char : Sign → Char
  | plus => '+'
  | minus => '-'

/-- The sign in front of a text, and what follows it. -/
def split : List Char → Option Sign × List Char
  | '+' :: rest => (some plus, rest)
  | '-' :: rest => (some minus, rest)
  | cs => (none, cs)

def chars (sign : Option Sign) : List Char := sign.toList.map char

theorem length_split_le (cs : List Char) : (split cs).2.length ≤ cs.length := by
  unfold Sign.split
  split <;> simp

end Sign

structure Exponent where
  sign : Option Sign
  digits : List Char
deriving DecidableEq

namespace Exponent

def value (e : Exponent) : Int :=
  let n := Nat.ofDigitChars 10 e.digits 0
  if e.sign = some .minus then -n else n

/-- Reads the exponent in front of a text, if there is one; it needs at least one digit. -/
def split? : List Char → Option (Option Exponent × List Char)
  | [] => some (none, [])
  | c :: rest =>
    if c = 'e' ∨ c = 'E' then
      let (sign, body) := Sign.split rest
      let digits := body.takeWhile Char.isDigit
      if digits.isEmpty then none else some (some ⟨sign, digits⟩, body.dropWhile Char.isDigit)
    else some (none, c :: rest)

theorem length_le_of_split? {cs after : List Char} {e : Option Exponent}
    (h : split? cs = some (e, after)) : after.length ≤ cs.length := by
  cases cs with
  | nil => simp_all [split?]
  | cons c rest =>
    simp only [split?] at h
    split at h
    · split at h
      · simp at h
      · simp only [Option.some.injEq, Prod.mk.injEq] at h
        rw [← h.2]
        have hd := (List.dropWhile_sublist Char.isDigit (l := (Sign.split rest).2)).length_le
        have hs := Sign.length_split_le rest
        simp only [List.length_cons]
        omega
    · simp_all

def chars (e : Exponent) : List Char := 'e' :: Sign.chars e.sign ++ e.digits

end Exponent

structure Numeral where
  sign : Option Sign
  whole : List Char
  fraction : Option (List Char)
  exponent : Option Exponent
deriving DecidableEq

namespace Numeral

def isNegative (n : Numeral) : Bool := n.sign = some .minus

def decimal (n : Numeral) : Decimal where
  coefficient := Nat.ofDigitChars 10 (n.whole ++ n.fraction.getD []) 0
  exponent := (n.exponent.map Exponent.value).getD 0 - (n.fraction.getD []).length

def toDouble? (n : Numeral) : Option FiniteDouble := n.decimal.toDouble? n.isNegative

/-- Reads the digits in front of a text with the point among them, if there is one. -/
def splitDigits (cs : List Char) : List Char × Option (List Char) × List Char :=
  let whole := cs.takeWhile Char.isDigit
  match cs.dropWhile Char.isDigit with
  | '.' :: rest => (whole, some (rest.takeWhile Char.isDigit), rest.dropWhile Char.isDigit)
  | rest => (whole, none, rest)

/-- Reads the numeral in front of a text, and returns what follows it. -/
def split? (cs : List Char) : Option (Numeral × List Char) :=
  let (sign, body) := Sign.split cs
  let (whole, fraction, rest) := splitDigits body
  (Exponent.split? rest).map fun (exponent, after) => (⟨sign, whole, fraction, exponent⟩, after)

/-- Reads a text that is a numeral and nothing else. -/
def read? (cs : List Char) : Option Numeral :=
  match split? cs with
  | some (n, []) => some n
  | _ => none

def chars (n : Numeral) : List Char :=
  Sign.chars n.sign ++ n.whole ++ (n.fraction.map ('.' :: ·)).getD [] ++
    (n.exponent.map Exponent.chars).getD []

theorem length_splitDigits (cs : List Char) :
    (splitDigits cs).1.length + (splitDigits cs).2.2.length ≤ cs.length := by
  have h := congrArg List.length (List.takeWhile_append_dropWhile (p := Char.isDigit) (l := cs))
  rw [List.length_append] at h
  unfold splitDigits
  split
  · next rest hr =>
    have hd := (List.dropWhile_sublist Char.isDigit (l := rest)).length_le
    rw [hr, List.length_cons] at h
    simp only
    omega
  · exact Nat.le_of_eq h

theorem length_le_of_split? {cs after : List Char} {n : Numeral}
    (h : split? cs = some (n, after)) : n.whole.length + after.length ≤ cs.length := by
  simp only [split?, Option.map_eq_some_iff, Prod.mk.injEq, Prod.exists] at h
  obtain ⟨e, a, he, rfl, rfl⟩ := h
  have hs := Sign.length_split_le cs
  have hd := length_splitDigits (Sign.split cs).2
  have ha := Exponent.length_le_of_split? he
  exact Nat.le_trans (Nat.add_le_add_left ha _) (Nat.le_trans hd hs)

/-- At least one digit before or after the point. -/
def isPlain (n : Numeral) : Bool := !(n.whole ++ n.fraction.getD []).isEmpty

/-- No leading plus or zero, and digits on both sides of a point. -/
def isStrict (n : Numeral) : Bool :=
  n.sign ≠ some .plus && !n.whole.isEmpty && (n.whole.head? ≠ some '0' || n.whole.length = 1) &&
    n.fraction ≠ some []

theorem length_whole_pos {n : Numeral} (h : n.isStrict) : 0 < n.whole.length := by
  have : n.whole ≠ [] := by
    rintro e
    simp [isStrict, e] at h
  exact List.length_pos_iff.2 this

end Numeral

/-- Reads plain decimal input; what would round to an infinity is refused. -/
def FiniteDouble.ofText? (text : String) : Option FiniteDouble :=
  ((Numeral.read? text.toList).filter Numeral.isPlain).bind Numeral.toDouble?

end FeatureSieve
