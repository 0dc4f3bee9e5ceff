import FeatureSieve.Json.Quoted
import FeatureSieve.Number.Numeral

/-! # Tokens of JSON text

Brackets and separators, literal names, numerals and quoted strings. A token ends
where it is complete, whatever follows it.
-/

namespace FeatureSieve.Json

inductive Token where
  | openArray
  | closeArray
  | openObject
  | closeObject
  | colon
  | comma
  | null
  | bool (b : Bool)
  | numeral (n : Numeral)
  | quoted (units : List CodeUnit)
deriving DecidableEq

namespace Token

def isSpace (c : Char) : Bool := c = ' ' || c = '\t' || c = '\n' || c = '\r'

def punctuation? : Char → Option Token
  | '[' => some .openArray
  | ']' => some .closeArray
  | '\x7b' => some .openObject
  | '\x7d' => some .closeObject
  | ':' => some .colon
  | ',' => some .comma
  | _ => none

def name? : List Char → Option (Token × List Char)
  | 'n' :: 'u' :: 'l' :: 'l' :: rest => some (.null, rest)
  | 't' :: 'r' :: 'u' :: 'e' :: rest => some (.bool true, rest)
  | 'f' :: 'a' :: 'l' :: 's' :: 'e' :: rest => some (.bool false, rest)
  | _ => none

def numeral? (cs : List Char) : Option (Token × List Char) :=
  ((Numeral.split? cs).filter (·.1.isStrict)).map fun (n, after) => (.numeral n, after)

def quoted? (cs : List Char) : Option (Token × List Char) :=
  (CodeUnit.readBody? cs).map fun (units, after) => (.quoted units, after)

/-- The token that starts with `c`, and what follows it. -/
def read? (c : Char) (rest : List Char) : Option (Token × List Char) :=
  match punctuation? c with
  | some token => some (token, rest)
  | none =>
    if c = '"' then quoted? rest
    else if c.isDigit ∨ c = '-' then numeral? (c :: rest)
    else name? (c :: rest)

theorem length_lt_of_name? {cs after : List Char} {token : Token}
    (h : name? cs = some (token, after)) : after.length < cs.length := by
  unfold name? at h
  split at h <;> simp_all <;> omega

theorem length_lt_of_numeral? {cs after : List Char} {token : Token}
    (h : numeral? cs = some (token, after)) : after.length < cs.length := by
  simp only [numeral?, Option.map_eq_some_iff, Option.filter_eq_some_iff, Prod.mk.injEq, Prod.exists] at h
  obtain ⟨n, a, ⟨hn, hs⟩, -, rfl⟩ := h
  have := Numeral.length_le_of_split? hn
  have := Numeral.length_whole_pos hs
  omega

theorem length_le_of_read? {c : Char} {rest after : List Char} {token : Token}
    (h : read? c rest = some (token, after)) : after.length ≤ rest.length := by
  unfold read? at h
  split at h
  · simp_all
  · split at h
    · simp only [quoted?, Option.map_eq_some_iff, Prod.mk.injEq, Prod.exists] at h
      obtain ⟨units, a, hr, -, rfl⟩ := h
      exact CodeUnit.length_le_of_readBody? rest hr
    · split at h
      · exact Nat.lt_succ_iff.1 (length_lt_of_numeral? h)
      · exact Nat.lt_succ_iff.1 (length_lt_of_name? h)

end Token

end FeatureSieve.Json
