import FeatureSieve.Proofs.Number.Decimal
import FeatureSieve.Proofs.Number.Spelling

/-! # Plain decimal numbers

The grammar of typed numbers, with the exact value of each: a sign, digits with a point and
an exponent, of which only the digits are due. Exactly the numbers of the grammar are read
that do not round to an infinity, and each gives the nearest double with its sign.
-/

namespace FeatureSieve

open Nat (ofDigitChars)
open FiniteDouble (signed ofText?)

/-- A sign that may be missing, and whether it is a minus. -/
inductive IsSign : List Char → Bool → Prop
  | missing : IsSign [] false
  | plus : IsSign ['+'] false
  | minus : IsSign ['-'] true

/-- Digits with at most one point, at least one digit before or after it, and their value. -/
inductive IsMantissa : List Char → ℚ → Prop
  | whole {ds : List Char} (hne : ds ≠ []) (hd : ∀ c ∈ ds, c.isDigit = true) :
      IsMantissa ds (ofDigitChars 10 ds 0)
  | pointed {ds fs : List Char} (hne : ds ++ fs ≠ []) (hd : ∀ c ∈ ds, c.isDigit = true)
      (hf : ∀ c ∈ fs, c.isDigit = true) :
      IsMantissa (ds ++ '.' :: fs) (ofDigitChars 10 ds 0 + ofDigitChars 10 fs 0 / 10 ^ fs.length)

/-- An exponent that may be missing, and its value. -/
inductive IsScale : List Char → Int → Prop
  | missing : IsScale [] 0
  | exponent {mark : Char} {sign ds : List Char} {negative : Bool} (hm : mark = 'e' ∨ mark = 'E')
      (hs : IsSign sign negative) (hne : ds ≠ []) (hd : ∀ c ∈ ds, c.isDigit = true) :
      IsScale (mark :: (sign ++ ds)) (if negative then -ofDigitChars 10 ds 0 else ofDigitChars 10 ds 0)

/-- A plain decimal number, whether it has a minus, and its exact value. -/
inductive IsPlainNumber : List Char → Bool → ℚ → Prop
  | intro {sign mantissa scale : List Char} {negative : Bool} {m : ℚ} {k : Int}
      (hs : IsSign sign negative) (hm : IsMantissa mantissa m) (hk : IsScale scale k) :
      IsPlainNumber (sign ++ (mantissa ++ scale)) negative (signed negative (m * 10 ^ k))

/-- Digits after a point count as if there were none, in parts of a power of ten. -/
theorem ofDigitChars_append_div (ds fs : List Char) :
    (ofDigitChars 10 (ds ++ fs) 0 : ℚ) / 10 ^ fs.length =
      ofDigitChars 10 ds 0 + ofDigitChars 10 fs 0 / 10 ^ fs.length := by
  have hpow : (10 : ℚ) ^ fs.length ≠ 0 := pow_ne_zero _ (by norm_num)
  rw [Nat.ofDigitChars_append, Nat.ofDigitChars_eq_ofDigitChars_zero]
  push_cast
  rw [add_div, mul_div_cancel_left₀ _ hpow]

section Reading

variable {sign mantissa scale rest : List Char} {negative : Bool} {m : ℚ} {k : Int}

/-- A mantissa is not empty and does not start with a sign. -/
theorem IsMantissa.endsBefore (h : IsMantissa mantissa m) (rest : List Char) :
    EndsBefore (fun c => c = '+' || c = '-') (mantissa ++ rest) := by
  cases h with
  | whole hne hd => exact endsBefore_sign_of_digits hne hd rest
  | @pointed ds fs hne hd hf =>
    cases ds with
    | nil =>
      rintro _ ⟨⟩
      rfl
    | cons c cs =>
      rintro _ ⟨⟩
      exact not_sign_of_isDigit (hd c List.mem_cons_self)

theorem IsScale.endsBefore (h : IsScale scale k) :
    EndsBefore (fun c => c.isDigit || c = '.') scale := by
  cases h with
  | missing => simp [EndsBefore]
  | exponent hm hs hne hd =>
    rintro c ⟨⟩
    rcases hm with rfl | rfl
    · rfl
    · rfl

theorem IsSign.exists_chars (h : IsSign sign negative) :
    ∃ s, decide (s = some Sign.minus) = negative ∧ sign = Sign.chars s := by
  cases h with
  | missing => exact ⟨none, rfl, rfl⟩
  | plus => exact ⟨some .plus, rfl, rfl⟩
  | minus => exact ⟨some .minus, rfl, rfl⟩

theorem IsMantissa.exists_splitDigits (h : IsMantissa mantissa m) :
    ∃ whole fraction, whole ++ fraction.getD [] ≠ [] ∧
      (ofDigitChars 10 (whole ++ fraction.getD []) 0 : ℚ) / 10 ^ (fraction.getD []).length = m ∧
      ∀ rest, EndsBefore (fun c => c.isDigit || c = '.') rest →
        Numeral.splitDigits (mantissa ++ rest) = (whole, fraction, rest) := by
  cases h with
  | whole hne hd =>
    refine ⟨mantissa, none, by simpa using hne, by simp, fun rest hr => ?_⟩
    exact Numeral.splitDigits_append none hd (by simp) hr
  | @pointed ds fs hne hd hf =>
    refine ⟨ds, some fs, hne, ofDigitChars_append_div ds fs, fun rest hr => ?_⟩
    rw [List.append_assoc]
    exact Numeral.splitDigits_append (some fs) hd (by simpa using hf) hr

theorem IsScale.exists_split? (h : IsScale scale k) :
    ∃ e, (e.map Exponent.value).getD 0 = k ∧ Exponent.split? scale = some (e, []) := by
  cases h with
  | missing => exact ⟨none, rfl, rfl⟩
  | @exponent mark sign ds negative hm hs hne hd =>
    obtain ⟨s, hsign, rfl⟩ := hs.exists_chars
    refine ⟨some ⟨s, ds⟩, ?_, ?_⟩
    · rw [← hsign]
      simp [Exponent.value]
    · have hend : EndsBefore Char.isDigit [] := by simp [EndsBefore]
      simpa using Exponent.split?_mark_append hm s hne hd hend

theorem isSign_split (cs : List Char) :
    ∃ sign, cs = sign ++ (Sign.split cs).2 ∧
      IsSign sign (decide ((Sign.split cs).1 = some .minus)) := by
  unfold Sign.split
  split
  · exact ⟨['+'], rfl, .plus⟩
  · exact ⟨['-'], rfl, .minus⟩
  · exact ⟨[], rfl, .missing⟩

theorem isMantissa_splitDigits {body whole : List Char} {fraction : Option (List Char)}
    (h : Numeral.splitDigits body = (whole, fraction, rest)) (hne : whole ++ fraction.getD [] ≠ []) :
    ∃ mantissa, body = mantissa ++ rest ∧ IsMantissa mantissa
      (ofDigitChars 10 (whole ++ fraction.getD []) 0 / 10 ^ (fraction.getD []).length) := by
  have hbody := List.takeWhile_append_dropWhile (p := Char.isDigit) (l := body)
  have hd : ∀ c ∈ body.takeWhile Char.isDigit, c.isDigit = true := fun c => List.mem_takeWhile_imp
  unfold Numeral.splitDigits at h
  split at h
  · next after hafter =>
    simp only [Prod.mk.injEq] at h
    obtain ⟨rfl, rfl, rfl⟩ := h
    have hafterBody := List.takeWhile_append_dropWhile (p := Char.isDigit) (l := after)
    refine ⟨body.takeWhile Char.isDigit ++ '.' :: after.takeWhile Char.isDigit, ?_, ?_⟩
    · rw [List.append_assoc, List.cons_append, hafterBody, ← hafter, hbody]
    · rw [Option.getD_some, ofDigitChars_append_div]
      exact .pointed hne hd fun c => List.mem_takeWhile_imp
  · simp only [Prod.mk.injEq] at h
    obtain ⟨rfl, rfl, rfl⟩ := h
    rw [Option.getD_none, List.append_nil] at hne
    refine ⟨body.takeWhile Char.isDigit, hbody.symm, ?_⟩
    simpa using IsMantissa.whole hne hd

theorem isScale_of_split? {e : Option Exponent} (h : Exponent.split? scale = some (e, [])) :
    IsScale scale ((e.map Exponent.value).getD 0) := by
  unfold Exponent.split? at h
  split at h
  · cases h
    exact .missing
  · next c body =>
    split at h
    · next hm =>
      obtain ⟨sign, hbody, hs⟩ := isSign_split body
      generalize Sign.split body = parts at h hbody hs
      obtain ⟨s, after⟩ := parts
      simp only at h hbody hs
      split at h
      · cases h
      · next hne =>
        simp only [Option.some.injEq, Prod.mk.injEq] at h
        obtain ⟨rfl, hrest⟩ := h
        have hafter := List.takeWhile_append_dropWhile (p := Char.isDigit) (l := after)
        rw [hrest, List.append_nil] at hafter
        rw [hafter, List.isEmpty_iff] at hne
        rw [hbody, hafter]
        have hd : ∀ c ∈ after, c.isDigit = true := List.takeWhile_eq_self_iff.mp hafter
        simpa [Exponent.value] using IsScale.exponent hm hs hne hd
    · cases h

end Reading

namespace Numeral

theorem value_decimal (n : Numeral) : n.decimal.value =
    (ofDigitChars 10 (n.whole ++ n.fraction.getD []) 0 / 10 ^ (n.fraction.getD []).length) *
      10 ^ (n.exponent.map Exponent.value).getD 0 := by
  rw [Decimal.value, decimal, zpow_sub₀ (by norm_num), zpow_natCast]
  ring

theorem isPlain_iff {n : Numeral} : n.isPlain = true ↔ n.whole ++ n.fraction.getD [] ≠ [] := by
  simp [isPlain]

theorem isPlainNumber_of_read? {cs : List Char} {n : Numeral} (h : read? cs = some n)
    (hp : n.isPlain = true) : IsPlainNumber cs n.isNegative (signed n.isNegative n.decimal.value) := by
  have hsplit : split? cs = some (n, []) := by
    unfold read? at h
    split at h
    · next hs =>
      cases h
      exact hs
    · cases h
  unfold split? at hsplit
  obtain ⟨sign, hsign, hs⟩ := isSign_split cs
  generalize Sign.split cs = front at hsplit hsign hs
  obtain ⟨s, body⟩ := front
  simp only at hsplit hsign hs
  cases hd : splitDigits body with
  | mk whole middle =>
    obtain ⟨fraction, rest⟩ := middle
    rw [hd] at hsplit
    simp only [Option.map_eq_some_iff, Prod.mk.injEq, Prod.exists] at hsplit
    obtain ⟨e, after, he, rfl, rfl⟩ := hsplit
    obtain ⟨mantissa, hbody, hm⟩ := isMantissa_splitDigits hd (isPlain_iff.mp hp)
    rw [hsign, hbody, value_decimal]
    exact .intro hs hm (isScale_of_split? he)

end Numeral

theorem IsPlainNumber.exists_read? {cs : List Char} {negative : Bool} {v : ℚ}
    (h : IsPlainNumber cs negative v) : ∃ n, Numeral.read? cs = some n ∧ n.isPlain = true ∧
      n.isNegative = negative ∧ signed negative n.decimal.value = v := by
  cases h with
  | @intro sign mantissa scale _ m k hs hm hk =>
    obtain ⟨s, hsign, rfl⟩ := hs.exists_chars
    obtain ⟨whole, fraction, hne, hvalue, hdigits⟩ := hm.exists_splitDigits
    obtain ⟨e, hexp, hscale⟩ := hk.exists_split?
    refine ⟨⟨s, whole, fraction, e⟩, ?_, Numeral.isPlain_iff.mpr hne, hsign, ?_⟩
    · simp only [Numeral.read?, Numeral.split?, Sign.split_chars_append s (hm.endsBefore scale),
        hdigits scale hk.endsBefore, hscale, Option.map_some]
    · rw [Numeral.value_decimal, hvalue, hexp]

/-- Whether a plain number may have such a character anywhere. -/
def isPlainChar (c : Char) : Bool := c.isDigit || c ∈ ['+', '-', '.', 'e', 'E']

theorem IsSign.isPlainChar_of_mem {sign : List Char} {negative : Bool} (h : IsSign sign negative) :
    ∀ c ∈ sign, isPlainChar c = true := by
  cases h with
  | missing => simp
  | plus | minus => simp [isPlainChar]

theorem isPlainChar_of_isDigit {c : Char} (h : c.isDigit = true) : isPlainChar c = true := by
  simp [isPlainChar, h]

theorem IsMantissa.isPlainChar_of_mem {mantissa : List Char} {m : ℚ} (h : IsMantissa mantissa m) :
    ∀ c ∈ mantissa, isPlainChar c = true := by
  cases h with
  | whole hne hd => exact fun c hc => isPlainChar_of_isDigit (hd c hc)
  | pointed hne hd hf =>
    intro c hc
    rcases List.mem_append.mp hc with hc | hc
    · exact isPlainChar_of_isDigit (hd c hc)
    · rcases List.mem_cons.mp hc with rfl | hc
      · decide
      · exact isPlainChar_of_isDigit (hf c hc)

theorem IsScale.isPlainChar_of_mem {scale : List Char} {k : Int} (h : IsScale scale k) :
    ∀ c ∈ scale, isPlainChar c = true := by
  cases h with
  | missing => simp
  | exponent hm hs hne hd =>
    intro c hc
    rcases List.mem_cons.mp hc with rfl | hc
    · rcases hm with rfl | rfl <;> decide
    · rcases List.mem_append.mp hc with hc | hc
      · exact hs.isPlainChar_of_mem c hc
      · exact isPlainChar_of_isDigit (hd c hc)

theorem IsPlainNumber.isPlainChar_of_mem {cs : List Char} {negative : Bool} {v : ℚ}
    (h : IsPlainNumber cs negative v) : ∀ c ∈ cs, isPlainChar c = true := by
  cases h with
  | intro hs hm hk =>
    intro c hc
    rcases List.mem_append.mp hc with hc | hc
    · exact hs.isPlainChar_of_mem c hc
    · rcases List.mem_append.mp hc with hc | hc
      · exact hm.isPlainChar_of_mem c hc
      · exact hk.isPlainChar_of_mem c hc

/-- A text spells one number at most. -/
theorem IsPlainNumber.unique {cs : List Char} {negative negative' : Bool} {v v' : ℚ}
    (h : IsPlainNumber cs negative v) (h' : IsPlainNumber cs negative' v') :
    negative = negative' ∧ v = v' := by
  obtain ⟨n, hn, -, rfl, rfl⟩ := h.exists_read?
  obtain ⟨n', hn', -, rfl, rfl⟩ := h'.exists_read?
  obtain rfl := Option.some.inj (hn.symm.trans hn')
  exact ⟨rfl, rfl⟩

namespace FiniteDouble

/-- What is read is the nearest double with the sign of the text. -/
theorem ofText?_eq_some_iff {text : String} {x : FiniteDouble} :
    ofText? text = some x ↔ ∃ v, IsPlainNumber text.toList x.negative v ∧
      |v| < 2 ^ 1024 - 2 ^ 970 ∧ x.IsNearest v := by
  simp only [ofText?, Option.bind_eq_some_iff, Option.filter_eq_some_iff, Numeral.toDouble?,
    Decimal.toDouble?_eq_some_iff]
  constructor
  · rintro ⟨n, ⟨hn, hp⟩, hlt, hneg, hx⟩
    refine ⟨signed n.isNegative n.decimal.value, ?_, ?_, hx⟩
    · rw [hneg]
      exact Numeral.isPlainNumber_of_read? hn hp
    · rwa [abs_signed _ n.decimal.value_nonneg]
  · rintro ⟨v, hv, hlt, hx⟩
    obtain ⟨n, hn, hp, hneg, rfl⟩ := hv.exists_read?
    rw [abs_signed _ n.decimal.value_nonneg] at hlt
    refine ⟨n, ⟨hn, hp⟩, hlt, hneg.symm, ?_⟩
    rwa [hneg]

theorem isPlainChar_of_ofText? {text : String} {x : FiniteDouble} (h : ofText? text = some x) :
    ∀ c ∈ text.toList, isPlainChar c = true := by
  obtain ⟨v, hv, -⟩ := ofText?_eq_some_iff.mp h
  exact hv.isPlainChar_of_mem

/-- Exactly the plain numbers below the overflow are read, and what is read is the nearest
double with the sign of the text, also where that is a zero. -/
theorem reading_rounds_plain_numbers (text : String) :
    ((∃ x, ofText? text = some x) ↔
      ∃ negative v, IsPlainNumber text.toList negative v ∧ |v| < 2 ^ 1024 - 2 ^ 970) ∧
    (∀ x, ofText? text = some x ↔ ∃ v, IsPlainNumber text.toList x.negative v ∧
      |v| < 2 ^ 1024 - 2 ^ 970 ∧ x.IsNearest v) ∧
    (∀ negative negative' v v', IsPlainNumber text.toList negative v →
      IsPlainNumber text.toList negative' v' → negative = negative' ∧ v = v') ∧
    ∀ c ∈ text.toList, c.isDigit = false → c ∉ ['+', '-', '.', 'e', 'E'] → ofText? text = none := by
  refine ⟨⟨?_, ?_⟩, fun x => ofText?_eq_some_iff, fun _ _ _ _ h h' => h.unique h', ?_⟩
  · rintro ⟨x, hx⟩
    obtain ⟨v, hv, hlt, -⟩ := ofText?_eq_some_iff.mp hx
    exact ⟨x.negative, v, hv, hlt⟩
  · rintro ⟨negative, v, hv, hlt⟩
    obtain ⟨n, hn, hp, rfl, rfl⟩ := hv.exists_read?
    rw [abs_signed _ n.decimal.value_nonneg] at hlt
    obtain ⟨x, hx⟩ := Decimal.exists_toDouble?_iff.mpr hlt
    refine ⟨x, ?_⟩
    simp only [ofText?, hn, Option.filter_some, hp, if_true, Option.bind_some]
    exact hx
  · intro c hc hdigit hother
    cases hx : ofText? text with
    | none => rfl
    | some x =>
      have hplain := isPlainChar_of_ofText? hx c hc
      simp [isPlainChar, hdigit, hother] at hplain

/-- The negative number nearest to zero that is typed here is a minus zero, and a number on a
line of its own is none. -/
theorem tiny_number_keeps_minus :
    ofText? "-2e-324" = some (zero true) ∧
    (∃ v, IsPlainNumber "-2e-324".toList true v ∧ (zero true).IsNearest v) ∧
    '\n' ∈ "12\n".toList ∧ ofText? "12\n" = none := by
  have htiny : ofText? "-2e-324" = some (zero true) := by decide +kernel
  obtain ⟨-, hread, -⟩ := reading_rounds_plain_numbers "-2e-324"
  obtain ⟨-, -, -, hrefused⟩ := reading_rounds_plain_numbers "12\n"
  obtain ⟨v, hv, -, hx⟩ := (hread _).mp htiny
  exact ⟨htiny, ⟨v, hv, hx⟩, by decide, hrefused '\n' (by decide) (by decide) (by decide)⟩

end FiniteDouble

end FeatureSieve
