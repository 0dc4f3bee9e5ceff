/-! # Quoted strings

The body of a quoted string spells a sequence of code units: characters, and the
halves of surrogate pairs that hexadecimal escapes can bring in. Two halves in
order join to a character; a half alone has no meaning. Writing escapes the quote,
the backslash and the control characters and leaves everything else as it is.
-/

namespace FeatureSieve.Json

inductive CodeUnit where
  | char (c : Char)
  | surrogate (code : Nat)
deriving DecidableEq

def hexValue? (c : Char) : Option Nat :=
  if c.isDigit then some (c.toNat - '0'.toNat)
  else if 'a' ≤ c ∧ c ≤ 'f' then some (c.toNat - 'a'.toNat + 10)
  else if 'A' ≤ c ∧ c ≤ 'F' then some (c.toNat - 'A'.toNat + 10)
  else none

def isSurrogate (code : Nat) : Bool := 0xD800 ≤ code && code < 0xE000

namespace CodeUnit

def ofHex? (a b c d : Char) : Option CodeUnit := do
  let code := (((← hexValue? a) * 16 + (← hexValue? b)) * 16 + (← hexValue? c)) * 16 + (← hexValue? d)
  return if isSurrogate code then .surrogate code else .char (Char.ofNat code)

/-- The character named by one letter after a backslash. -/
def ofEscape? : Char → Option Char
  | '"' => some '"'
  | '\\' => some '\\'
  | '/' => some '/'
  | 'b' => some '\x08'
  | 'f' => some '\x0c'
  | 'n' => some '\n'
  | 'r' => some '\r'
  | 't' => some '\t'
  | _ => none

/-- Reads the body of a string up to its closing quote, and returns what follows that. -/
def readBody? : List Char → Option (List CodeUnit × List Char)
  | [] => none
  | '"' :: rest => some ([], rest)
  | '\\' :: 'u' :: a :: b :: c :: d :: rest => do
    let unit ← ofHex? a b c d
    let (units, after) ← readBody? rest
    return (unit :: units, after)
  | '\\' :: e :: rest => do
    let c ← ofEscape? e
    let (units, after) ← readBody? rest
    return (.char c :: units, after)
  | c :: rest =>
    if c.toNat < 0x20 then none
    else do
      let (units, after) ← readBody? rest
      return (.char c :: units, after)

theorem length_le_of_readBody? (cs : List Char) :
    ∀ {units : List CodeUnit} {after : List Char},
      readBody? cs = some (units, after) → after.length ≤ cs.length := by
  fun_induction readBody? cs with
  | case1 => simp
  | case2 rest => simp_all
  | case3 a b c d rest ih =>
    intro units after h
    cases hu : ofHex? a b c d <;> cases hr : readBody? rest <;> simp_all
    obtain ⟨-, rfl⟩ := h
    exact Nat.le_trans (ih rfl) (by omega)
  | case4 e rest _ ih =>
    intro units after h
    cases hu : ofEscape? e <;> cases hr : readBody? rest <;> simp_all
    obtain ⟨-, rfl⟩ := h
    exact Nat.le_trans (ih rfl) (by omega)
  | case5 c rest _ _ _ _ => simp
  | case6 c rest _ _ _ _ ih =>
    intro units after h
    cases hr : readBody? rest <;> simp_all
    obtain ⟨-, rfl⟩ := h
    exact Nat.le_trans (ih rfl) (by omega)

/-- The character of two surrogates, the high one first. -/
def pair? (high low : Nat) : Option Char :=
  if high < 0xDC00 ∧ 0xDC00 ≤ low then
    some (Char.ofNat (0x10000 + (high - 0xD800) * 0x400 + (low - 0xDC00)))
  else none

def join? : List CodeUnit → Option (List Char)
  | [] => some []
  | .char c :: rest => (join? rest).map (c :: ·)
  | .surrogate high :: .surrogate low :: rest => do
    let c ← pair? high low
    return c :: (← join? rest)
  | [.surrogate _] => none
  | .surrogate _ :: .char _ :: _ => none

def text? (units : List CodeUnit) : Option String := (join? units).map String.ofList

end CodeUnit

def hexDigit (n : Nat) : Char := Nat.digitChar n

def escape (c : Char) : List Char :=
  if c = '"' then ['\\', '"']
  else if c = '\\' then ['\\', '\\']
  else if c = '\x08' then ['\\', 'b']
  else if c = '\x0c' then ['\\', 'f']
  else if c = '\n' then ['\\', 'n']
  else if c = '\r' then ['\\', 'r']
  else if c = '\t' then ['\\', 't']
  else if c.toNat < 0x20 then ['\\', 'u', '0', '0', hexDigit (c.toNat / 16), hexDigit (c.toNat % 16)]
  else [c]

def quote (cs : List Char) : List Char := '"' :: cs.flatMap escape ++ ['"']

end FeatureSieve.Json
