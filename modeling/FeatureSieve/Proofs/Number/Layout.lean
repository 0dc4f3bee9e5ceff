import FeatureSieve.Number.Layout
import FeatureSieve.Proofs.Number.Plain
import Mathlib.Data.List.DropRight

/-! # Decimals as they are written

Both layouts of a decimal spell the same digits around a point, which has its place in front of
the first, behind the last or between two of them, and both keep the value. A zero at the front
is written only where no other digit stands before the point.
-/

namespace FeatureSieve

open Nat (ofDigitChars toDigits)

section Digits

theorem isDigit_of_mem_toDigits {n : Nat} : ∀ c ∈ toDigits 10 n, c.isDigit = true :=
  fun _ => Nat.isDigit_of_mem_toDigits (by decide) (by decide)

theorem digitChar_ne_zero {n : Nat} (hn : n ≠ 0) (hlt : n < 10) : Nat.digitChar n ≠ '0' := by
  intro h
  have hvalue : ofDigitChars 10 [Nat.digitChar n] 0 = n := by
    rw [Nat.ofDigitChars_cons_digitChar_of_lt_ten hlt]
    simp
  rw [h] at hvalue
  exact hn hvalue.symm

/-- Only zero is written with a zero at the front. -/
theorem head?_toDigits_ne {n : Nat} (h : n ≠ 0) : (toDigits 10 n).head? ≠ some '0' := by
  induction n using Nat.strong_induction_on with
  | _ n ih =>
    rw [Nat.toDigits_eq_if (by decide)]
    split
    · next hlt => simpa using digitChar_ne_zero h hlt
    · next hge =>
      have hhead := ih (n / 10) (by omega) (by omega)
      rwa [List.head?_append_of_ne_nil _ Nat.toDigits_ne_nil]

/-- The digits of a number up to the last one that is not zero. -/
def significant (n : Nat) : List Char := (toDigits 10 n).rdropWhile (· = '0')

theorem significant_begins_toDigits (n : Nat) : significant n <+: toDigits 10 n :=
  List.rdropWhile_prefix _ _

theorem isDigit_of_mem_significant {n : Nat} : ∀ c ∈ significant n, c.isDigit = true :=
  fun c hc => isDigit_of_mem_toDigits c ((significant_begins_toDigits n).subset hc)

theorem ofDigitChars_significant (n : Nat) : ofDigitChars 10 (significant n) 0 *
    10 ^ ((toDigits 10 n).length - (significant n).length) = n := by
  have happend := List.rdropWhile_append_rtakeWhile (p := (· = '0')) (l := toDigits 10 n)
  have hzeros : (toDigits 10 n).rtakeWhile (· = '0') =
      List.replicate ((toDigits 10 n).rtakeWhile (· = '0')).length '0' :=
    List.eq_replicate_of_mem fun c hc => by simpa using List.mem_rtakeWhile_imp hc
  have hlength := congrArg List.length happend
  rw [List.length_append] at hlength
  have hvalue := Nat.ofDigitChars_ten_toDigits (n := n)
  rw [← happend, hzeros, Nat.ofDigitChars_append, Nat.ofDigitChars_replicate_zero] at hvalue
  rw [significant, ← hlength, Nat.add_sub_cancel_left, Nat.mul_comm]
  exact hvalue

theorem significant_ten_mul (n : Nat) : significant (10 * n) = significant n := by
  rcases Nat.eq_zero_or_pos n with rfl | hn
  · rfl
  · have hdigits : toDigits 10 (10 * n) = toDigits 10 n ++ ['0'] :=
      (Nat.toDigits_append_toDigits (by decide) hn (d := 0) (by decide)).symm
    rw [significant, hdigits, List.rdropWhile_concat_pos _ _ _ (by decide)]
    rfl

theorem significant_mul_ten_pow (n k : Nat) : significant (n * 10 ^ k) = significant n := by
  induction k with
  | zero => rw [Nat.pow_zero, Nat.mul_one]
  | succ k ih => rw [Nat.pow_succ, ← Nat.mul_assoc, Nat.mul_comm _ 10, significant_ten_mul, ih]

theorem length_significant_le_of_lt {n k : Nat} (h : n < 10 ^ k) : (significant n).length ≤ k := by
  rcases Nat.eq_zero_or_pos k with rfl | hk
  · obtain rfl : n = 0 := by simpa using h
    exact le_rfl
  · have hdigits := (Nat.length_toDigits_le_iff (by decide) hk).mpr h
    exact (significant_begins_toDigits n).length_le.trans hdigits

theorem significant_ne_nil {n : Nat} (h : n ≠ 0) : significant n ≠ [] := by
  intro hnil
  have hvalue := ofDigitChars_significant n
  rw [hnil, Nat.ofDigitChars_nil, Nat.zero_mul] at hvalue
  exact h hvalue.symm

theorem head?_significant_ne (n : Nat) : (significant n).head? ≠ some '0' := by
  by_cases h : n = 0
  · rw [h]
    decide
  · obtain ⟨zeros, hzeros⟩ := significant_begins_toDigits n
    have hhead := head?_toDigits_ne h
    rwa [← hzeros, List.head?_append_of_ne_nil _ (significant_ne_nil h)] at hhead

end Digits

/-- A numeral that JSON admits, with a sign and the size that it stands for. -/
structure Numeral.Writes (n : Numeral) (negative : Bool) (size : ℚ) : Prop where
  isSpelled : n.IsSpelled
  isStrict : n.isStrict = true
  isNegative : n.isNegative = negative
  value : n.decimal.value = size

namespace Decimal

/-- The value of a decimal, read off its digits and the place of its point. -/
theorem value_eq_significant (d : Decimal) :
    d.value = ofDigitChars 10 (significant d.coefficient) 0 * 10 ^
      ((toDigits 10 d.coefficient).length + d.exponent - (significant d.coefficient).length) := by
  have hle := (significant_begins_toDigits d.coefficient).length_le
  have hvalue : (ofDigitChars 10 (significant d.coefficient) 0 : ℚ) *
      10 ^ ((toDigits 10 d.coefficient).length - (significant d.coefficient).length) =
        d.coefficient := by
    exact_mod_cast ofDigitChars_significant d.coefficient
  have hexp : ((toDigits 10 d.coefficient).length + d.exponent -
      (significant d.coefficient).length : Int) =
        ((toDigits 10 d.coefficient).length - (significant d.coefficient).length : Nat) +
          d.exponent := by omega
  rw [value, ← hvalue, hexp, zpow_add₀ (by norm_num), zpow_natCast]
  ring

section Layouts

variable {sign : Option Sign} {digits : List Char} {point : Int}

/-- The fraction of a positional numeral is never empty. -/
def fractionOf (fs : List Char) : List Char := if fs.isEmpty then ['0'] else fs

theorem isDigit_of_mem_fractionOf {fs : List Char} (hf : ∀ c ∈ fs, c.isDigit = true) :
    ∀ c ∈ fractionOf fs, c.isDigit = true := by
  unfold fractionOf
  split
  · simp
  · exact hf

theorem value_pointed (whole fs : List Char) :
    (Numeral.mk sign whole (some (fractionOf fs)) none).decimal.value =
      ofDigitChars 10 (whole ++ fs) 0 / 10 ^ fs.length := by
  simp only [Numeral.value_decimal, Option.getD_some, Option.map_none, Option.getD_none, zpow_zero,
    mul_one, fractionOf]
  split
  · next h =>
    have hzero : ofDigitChars 10 ['0'] 0 = 0 := rfl
    rw [List.isEmpty_iff.mp h, ofDigitChars_append_div, ofDigitChars_append_div]
    simp [hzero]
  · rfl

theorem positional_of_nonpos (h : point ≤ 0) : positional sign digits point =
    ⟨sign, ['0'], some (fractionOf (List.replicate (-point).toNat '0' ++ digits)), none⟩ := by
  simp [positional, fractionOf, h, Int.toNat_of_nonpos h]

theorem positional_of_pos (h : 0 < point) : positional sign digits point =
    ⟨sign, (digits.take point.toNat).rightpad point.toNat '0',
      some (fractionOf (digits.drop point.toNat)), none⟩ := by
  have hpad : (-point).toNat = 0 := Int.toNat_of_nonpos (by omega)
  simp [positional, fractionOf, hpad, Int.not_le.mpr h]

theorem value_positional : (positional sign digits point).decimal.value =
    ofDigitChars 10 digits 0 * 10 ^ (point - digits.length) := by
  -- The point stands among the digits, behind the last one or in front of the first.
  rcases lt_or_ge 0 point with h | h
  · rw [positional_of_pos h, value_pointed]
    rcases Nat.lt_or_ge point.toNat digits.length with hlt | hge
    · have hwhole :
          (digits.take point.toNat).rightpad point.toNat '0' = digits.take point.toNat := by
        simp [List.rightpad, Nat.min_eq_left hlt.le]
      have hexp : point - digits.length = -((digits.drop point.toNat).length : Int) := by
        rw [List.length_drop]
        omega
      rw [hwhole, List.take_append_drop, hexp, zpow_neg, zpow_natCast]
      rfl
    · have hexp : point - digits.length = (point.toNat - digits.length : Nat) := by omega
      rw [List.take_of_length_le hge, List.drop_of_length_le hge, List.append_nil, List.rightpad,
        Nat.ofDigitChars_append, Nat.ofDigitChars_replicate_zero, hexp, zpow_natCast]
      simp [mul_comm]
  · have hexp : point - digits.length = -((-point).toNat + digits.length : Nat) := by omega
    have hzeros : ofDigitChars 10 (['0'] ++ (List.replicate (-point).toNat '0' ++ digits)) 0 =
        ofDigitChars 10 digits 0 := by
      simp [Nat.ofDigitChars_cons, Nat.ofDigitChars_append, Nat.ofDigitChars_replicate_zero]
    rw [positional_of_nonpos h, value_pointed, hexp, hzeros, zpow_neg, zpow_natCast,
      List.length_append, List.length_replicate]
    rfl

theorem rightpad_ne_nil (h : 0 < point) :
    (digits.take point.toNat).rightpad point.toNat '0' ≠ [] := by
  apply List.ne_nil_of_length_pos
  rw [List.rightpad, List.length_append, List.length_replicate]
  omega

theorem isDigit_of_mem_zeros (n : Nat) : ∀ c ∈ List.replicate n '0', c.isDigit = true := by
  intro c hc
  rw [List.eq_of_mem_replicate hc]
  rfl

theorem isSpelled_positional (hd : ∀ c ∈ digits, c.isDigit = true) :
    (positional sign digits point).IsSpelled := by
  rcases lt_or_ge 0 point with h | h
  · have hwhole : ∀ c ∈ digits.take point.toNat, c.isDigit = true :=
      fun c hc => hd c (List.mem_of_mem_take hc)
    have hfraction : ∀ c ∈ digits.drop point.toNat, c.isDigit = true :=
      fun c hc => hd c (List.mem_of_mem_drop hc)
    rw [positional_of_pos h]
    refine ⟨rightpad_ne_nil h, ?_, ?_, by simp, by simp⟩
    · exact List.forall_mem_append.mpr ⟨hwhole, isDigit_of_mem_zeros _⟩
    · rintro fs ⟨⟩
      exact isDigit_of_mem_fractionOf hfraction
  · rw [positional_of_nonpos h]
    refine ⟨by simp, by simp, ?_, by simp, by simp⟩
    rintro fs ⟨⟩
    exact isDigit_of_mem_fractionOf (List.forall_mem_append.mpr ⟨isDigit_of_mem_zeros _, hd⟩)

theorem isStrict_positional (hs : sign ≠ some .plus) (hz : digits.head? ≠ some '0')
    (hp : digits = [] → point ≤ 1) : (positional sign digits point).isStrict = true := by
  have hfraction (fs : List Char) : fractionOf fs ≠ [] := by
    unfold fractionOf
    split
    · simp
    · next h => simpa using h
  rcases lt_or_ge 0 point with h | h
  · rw [positional_of_pos h, Numeral.isStrict_iff]
    refine ⟨hs, rightpad_ne_nil h, ?_, by simp [hfraction]⟩
    cases digits with
    | nil =>
      have hone : point.toNat = 1 := by
        have := hp rfl
        omega
      simp [List.rightpad, hone]
    | cons c cs =>
      obtain ⟨k, hk⟩ : ∃ k, point.toNat = k + 1 := ⟨point.toNat - 1, by omega⟩
      left
      rwa [hk]
  · rw [positional_of_nonpos h, Numeral.isStrict_iff]
    exact ⟨hs, by simp, Or.inr rfl, by simp [hfraction]⟩

theorem value_exponent (point : Int) :
    Exponent.value ⟨some (if 1 ≤ point then .plus else .minus), toDigits 10 (point - 1).natAbs⟩ =
      point - 1 := by
  simp only [Exponent.value, Nat.ofDigitChars_ten_toDigits]
  split
  · next h =>
    rw [if_neg (by decide)]
    omega
  · next h =>
    rw [if_pos rfl]
    omega

theorem scientific_cons (c : Char) (cs : List Char) : scientific sign (c :: cs) point =
    ⟨sign, [c], if cs.isEmpty then none else some cs,
      some ⟨some (if 1 ≤ point then .plus else .minus), toDigits 10 (point - 1).natAbs⟩⟩ := rfl

theorem value_scientific (hne : digits ≠ []) : (scientific sign digits point).decimal.value =
    ofDigitChars 10 digits 0 * 10 ^ (point - digits.length) := by
  obtain ⟨c, cs, rfl⟩ := List.exists_cons_of_ne_nil hne
  have hfraction : (if cs.isEmpty then none else some cs).getD [] = cs := by
    cases cs with
    | nil | cons d ds => rfl
  have hexp : point - (c :: cs).length = (point - 1) - (cs.length : Int) := by
    rw [List.length_cons]
    omega
  rw [scientific_cons, Numeral.value_decimal, hexp, zpow_sub₀ (by norm_num), zpow_natCast]
  simp only [hfraction, Option.map_some, Option.getD_some, value_exponent, List.cons_append,
    List.nil_append]
  ring

theorem isSpelled_scientific (hne : digits ≠ []) (hd : ∀ c ∈ digits, c.isDigit = true) :
    (scientific sign digits point).IsSpelled := by
  obtain ⟨c, cs, rfl⟩ := List.exists_cons_of_ne_nil hne
  rw [scientific_cons]
  refine ⟨by simp, by simpa using hd c, fun fs hfs => ?_, ?_, ?_⟩
  · split at hfs
    · cases hfs
    · cases hfs
      exact fun d hd' => hd d (List.mem_cons_of_mem c hd')
  · rintro e ⟨⟩
    exact Nat.toDigits_ne_nil
  · rintro e ⟨⟩
    exact isDigit_of_mem_toDigits

theorem isStrict_scientific (hs : sign ≠ some .plus) (hne : digits ≠ []) :
    (scientific sign digits point).isStrict = true := by
  obtain ⟨c, cs, rfl⟩ := List.exists_cons_of_ne_nil hne
  rw [scientific_cons]
  cases cs with
  | nil | cons d ds => simp [Numeral.isStrict, hs]

end Layouts

theorem numeral_eq (negative : Bool) (d : Decimal) : d.numeral negative =
    let point : Int := (toDigits 10 d.coefficient).length + d.exponent
    let sign := if negative then some .minus else none
    if isPositional point then positional sign (significant d.coefficient) point
    else scientific sign (significant d.coefficient) point := rfl

theorem isSome_fraction_or_exponent (negative : Bool) (d : Decimal) :
    (d.numeral negative).fraction.isSome ∨ (d.numeral negative).exponent.isSome := by
  rw [numeral_eq]
  simp only
  split
  · exact Or.inl rfl
  · exact Or.inr rfl

theorem isNegative_numeral (negative : Bool) (d : Decimal) :
    (d.numeral negative).isNegative = negative := by
  rw [numeral_eq]
  cases negative with
  | false | true =>
    simp only
    split
    · rfl
    · rfl

/-- A zero is written if it has no exponent. Its point then follows its one digit. -/
theorem numeral_writes (negative : Bool) {d : Decimal} (h : d.coefficient = 0 → d.exponent = 0) :
    (d.numeral negative).Writes negative d.value := by
  have hsign : (if negative then some Sign.minus else none) ≠ some .plus := by
    split
    · decide
    · decide
  have hzero (hnil : significant d.coefficient = []) :
      ((toDigits 10 d.coefficient).length + d.exponent : Int) = 1 := by
    have hc : d.coefficient = 0 := by_contra fun hc => significant_ne_nil hc hnil
    rw [hc, h hc]
    rfl
  have hd := @isDigit_of_mem_significant d.coefficient
  have hneg := isNegative_numeral negative d
  rw [numeral_eq] at hneg ⊢
  simp only at hneg ⊢
  split at hneg
  · next hp =>
    rw [if_pos hp]
    exact ⟨isSpelled_positional hd,
      isStrict_positional hsign (head?_significant_ne _) fun hnil => (hzero hnil).le, hneg,
      value_positional.trans (value_eq_significant d).symm⟩
  · next hp =>
    have hne : significant d.coefficient ≠ [] := fun hnil => hp (by rw [hzero hnil]; rfl)
    rw [if_neg hp]
    exact ⟨isSpelled_scientific hne hd, isStrict_scientific hsign hne, hneg,
      (value_scientific hne).trans (value_eq_significant d).symm⟩

end Decimal

end FeatureSieve
