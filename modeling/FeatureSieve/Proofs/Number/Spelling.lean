import FeatureSieve.Number.Numeral
import Mathlib.Data.List.TakeWhile

/-! # Spelled numerals

A numeral is spelled out if it has a digit before the point, and one in its exponent if there
is an exponent. Then it can be read off the front of every text that starts with its characters
and does not go on with one that could belong to it.
-/

namespace FeatureSieve

section Ends

/-- The text does not go on with such a character. -/
def EndsBefore (p : Char → Bool) (rest : List Char) : Prop := ∀ c ∈ rest.head?, p c = false

theorem EndsBefore.mono {p q : Char → Bool} {rest : List Char} (h : EndsBefore q rest)
    (hpq : ∀ c, q c = false → p c = false) : EndsBefore p rest := fun c hc => hpq c (h c hc)

theorem takeWhile_append_of_endsBefore {p : Char → Bool} {xs rest : List Char}
    (hx : ∀ c ∈ xs, p c = true) (hr : EndsBefore p rest) : (xs ++ rest).takeWhile p = xs := by
  rw [List.takeWhile_append_of_pos hx]
  cases rest with
  | nil => simp
  | cons c rest => simp [hr c rfl]

theorem dropWhile_append_of_endsBefore {p : Char → Bool} {xs rest : List Char}
    (hx : ∀ c ∈ xs, p c = true) (hr : EndsBefore p rest) : (xs ++ rest).dropWhile p = rest := by
  rw [List.dropWhile_append_of_pos hx]
  cases rest with
  | nil => simp
  | cons c rest => simp [hr c rfl]

theorem not_sign_of_isDigit {c : Char} (h : c.isDigit = true) : (c = '+' || c = '-') = false := by
  rw [Bool.or_eq_false_iff, decide_eq_false_iff_not, decide_eq_false_iff_not]
  constructor
  · rintro rfl
    exact absurd h (by decide)
  · rintro rfl
    exact absurd h (by decide)

/-- Digits do not start with a sign. -/
theorem endsBefore_sign_of_digits {ds : List Char} (hne : ds ≠ [])
    (hd : ∀ c ∈ ds, c.isDigit = true) (rest : List Char) :
    EndsBefore (fun c => c = '+' || c = '-') (ds ++ rest) := by
  obtain ⟨c, cs, rfl⟩ := List.exists_cons_of_ne_nil hne
  rintro _ ⟨⟩
  exact not_sign_of_isDigit (hd c List.mem_cons_self)

end Ends

theorem Sign.split_chars_append (sign : Option Sign) {rest : List Char}
    (hr : EndsBefore (fun c => c = '+' || c = '-') rest) :
    Sign.split (Sign.chars sign ++ rest) = (sign, rest) := by
  cases sign with
  | none =>
    change Sign.split rest = (none, rest)
    unfold Sign.split
    split
    · exact absurd (hr '+' rfl) (by decide)
    · exact absurd (hr '-' rfl) (by decide)
    · rfl
  | some s =>
    cases s with
    | plus | minus => rfl

namespace Exponent

theorem split?_eq_none {rest : List Char} (hr : EndsBefore (fun c => c = 'e' || c = 'E') rest) :
    split? rest = some (none, rest) := by
  cases rest with
  | nil => rfl
  | cons c rest =>
    have hc : ¬ (c = 'e' ∨ c = 'E') := by simpa using hr c rfl
    rw [split?, if_neg hc]

theorem split?_mark_append {mark : Char} (hm : mark = 'e' ∨ mark = 'E') (sign : Option Sign)
    {digits rest : List Char} (hne : digits ≠ []) (hd : ∀ c ∈ digits, c.isDigit = true)
    (hr : EndsBefore Char.isDigit rest) :
    split? (mark :: (Sign.chars sign ++ (digits ++ rest))) = some (some ⟨sign, digits⟩, rest) := by
  have hsign := endsBefore_sign_of_digits hne hd rest
  rw [split?, if_pos hm, Sign.split_chars_append sign hsign]
  simp only [takeWhile_append_of_endsBefore hd hr, dropWhile_append_of_endsBefore hd hr]
  rw [if_neg (by simpa using hne)]

end Exponent

namespace Numeral

theorem splitDigits_append {whole rest : List Char} (fraction : Option (List Char))
    (hw : ∀ c ∈ whole, c.isDigit = true) (hf : ∀ fs ∈ fraction, ∀ c ∈ fs, c.isDigit = true)
    (hr : EndsBefore (fun c => c.isDigit || c = '.') rest) :
    splitDigits (whole ++ ((fraction.map ('.' :: ·)).getD [] ++ rest)) =
      (whole, fraction, rest) := by
  have hdigit : EndsBefore Char.isDigit rest := hr.mono fun c hc => (Bool.or_eq_false_iff.mp hc).1
  unfold splitDigits
  cases fraction with
  | none =>
    simp only [Option.map_none, Option.getD_none, List.nil_append]
    rw [takeWhile_append_of_endsBefore hw hdigit, dropWhile_append_of_endsBefore hw hdigit]
    split
    · exact absurd (hr '.' rfl) (by decide)
    · rfl
  | some fs =>
    have hpoint : EndsBefore Char.isDigit ('.' :: (fs ++ rest)) := by
      rintro c ⟨⟩
      rfl
    simp only [Option.map_some, Option.getD_some, List.cons_append]
    rw [takeWhile_append_of_endsBefore hw hpoint, dropWhile_append_of_endsBefore hw hpoint]
    simp only
    rw [takeWhile_append_of_endsBefore (hf fs rfl) hdigit,
      dropWhile_append_of_endsBefore (hf fs rfl) hdigit]

/-- A numeral may go on with such a character. -/
def goesOn (c : Char) : Bool := c.isDigit || c = '.' || c = 'e' || c = 'E'

/-- A digit before the point, one in the exponent, and nothing but digits. -/
structure IsSpelled (n : Numeral) : Prop where
  whole_ne : n.whole ≠ []
  whole : ∀ c ∈ n.whole, c.isDigit = true
  fraction : ∀ fs ∈ n.fraction, ∀ c ∈ fs, c.isDigit = true
  exponent_ne : ∀ e ∈ n.exponent, e.digits ≠ []
  exponent : ∀ e ∈ n.exponent, ∀ c ∈ e.digits, c.isDigit = true

theorem split?_chars_append {n : Numeral} (h : n.IsSpelled) {rest : List Char}
    (hr : EndsBefore goesOn rest) : split? (n.chars ++ rest) = some (n, rest) := by
  have hparts : n.chars ++ rest = Sign.chars n.sign ++ (n.whole ++
      ((n.fraction.map ('.' :: ·)).getD [] ++ ((n.exponent.map Exponent.chars).getD [] ++ rest))) := by
    simp [chars]
  have hscale : EndsBefore (fun c => c.isDigit || c = '.')
      ((n.exponent.map Exponent.chars).getD [] ++ rest) ∧
      Exponent.split? ((n.exponent.map Exponent.chars).getD [] ++ rest) = some (n.exponent, rest) := by
    cases he : n.exponent with
    | none =>
      simp only [Option.map_none, Option.getD_none, List.nil_append]
      constructor
      · exact hr.mono fun c hc => by simp_all [goesOn]
      · exact Exponent.split?_eq_none (hr.mono fun c hc => by simp_all [goesOn])
    | some e =>
      constructor
      · rintro c ⟨⟩
        rfl
      · have hdigit : EndsBefore Char.isDigit rest := hr.mono fun c hc => by simp_all [goesOn]
        simpa [Exponent.chars] using
          Exponent.split?_mark_append (Or.inl rfl) e.sign (h.exponent_ne e he) (h.exponent e he) hdigit
  rw [hparts, split?, Sign.split_chars_append n.sign
    (endsBefore_sign_of_digits h.whole_ne h.whole _)]
  simp only [splitDigits_append n.fraction h.whole h.fraction hscale.1, hscale.2, Option.map_some]

theorem isStrict_iff {n : Numeral} : n.isStrict = true ↔ n.sign ≠ some .plus ∧ n.whole ≠ [] ∧
    (n.whole.head? ≠ some '0' ∨ n.whole.length = 1) ∧ n.fraction ≠ some [] := by
  simp only [isStrict, Bool.and_eq_true, Bool.or_eq_true, decide_eq_true_eq, Bool.not_eq_true',
    List.isEmpty_eq_false_iff, and_assoc]

end Numeral

end FeatureSieve
