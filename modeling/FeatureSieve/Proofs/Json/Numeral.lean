import FeatureSieve.Json.Numeral
import FeatureSieve.Proofs.Number.Scaling
import FeatureSieve.Proofs.Number.Shortest

/-! # Numbers are read back

A number is written as a numeral that stands for it. Doubles always have a point or an exponent,
so they are not taken for whole numbers, and no whole number is written as minus zero. A whole
number is always read back, a double if the reader finds it again from its numeral. The reader
that scales does so for short numerals.
-/

namespace FeatureSieve

open Nat (toDigits)

namespace Integer64

theorem ofInt?_value (n : Integer64) : ofInt? n.value = some n := dif_pos ⟨n.lower, n.upper⟩

theorem isNegative_numeral (n : Integer64) : n.numeral.isNegative = decide (n.value < 0) := by
  unfold Numeral.isNegative numeral
  split
  · next h => simp [h]
  · next h => simp [h]

theorem numeral_writes (n : Integer64) :
    n.numeral.Writes (decide (n.value < 0)) n.value.natAbs := by
  refine ⟨⟨Nat.toDigits_ne_nil, isDigit_of_mem_toDigits, ?_, ?_, ?_⟩, ?_, n.isNegative_numeral, ?_⟩
  · rintro fs ⟨⟩
  · rintro e ⟨⟩
  · rintro e ⟨⟩
  · have hsign : n.numeral.sign ≠ some .plus := by
      unfold numeral
      split
      · simp
      · simp
    have hhead : (toDigits 10 n.value.natAbs).head? ≠ some '0' ∨
        (toDigits 10 n.value.natAbs).length = 1 := by
      by_cases h : n.value.natAbs = 0
      · rw [h]
        exact Or.inr rfl
      · exact Or.inl (head?_toDigits_ne h)
    exact Numeral.isStrict_iff.mpr ⟨hsign, Nat.toDigits_ne_nil, hhead, by simp [numeral]⟩
  · rw [Numeral.value_decimal]
    simp [numeral]

theorem ofNumeral?_numeral (n : Integer64) : ofNumeral? n.numeral = some n := by
  have hvalue : Nat.ofDigitChars 10 n.numeral.whole 0 = n.value.natAbs :=
    Nat.ofDigitChars_ten_toDigits
  have hmagnitude : (if n.numeral.isNegative then -(n.value.natAbs : Int) else n.value.natAbs) =
      n.value := by
    rw [n.isNegative_numeral]
    simp only [decide_eq_true_eq]
    split
    · omega
    · omega
  have hzero : ¬ (n.numeral.isNegative = true ∧ (n.value.natAbs : Int) = 0) := by
    rw [n.isNegative_numeral, decide_eq_true_eq]
    omega
  unfold ofNumeral?
  simp only [hvalue, hmagnitude, hzero, or_false]
  rw [if_neg (by simp [numeral])]
  exact n.ofInt?_value

end Integer64

namespace FiniteDouble

/-- The double is what the reader takes for the numeral that is written for it. -/
def ReadsBack [Json.DoubleReader] (x : FiniteDouble) : Prop :=
  Json.DoubleReader.double? x.numeral = some x

instance [Json.DoubleReader] (x : FiniteDouble) : Decidable x.ReadsBack :=
  inferInstanceAs (Decidable (_ = _))

theorem readsBack_of_isShort {x : FiniteDouble} (h : x.numeral.IsShort) : x.ReadsBack :=
  (Numeral.scaled?_eq_toDouble? h).trans x.toDouble?_numeral

-- Not every double is read back by scaling.
example : (ofText? "31.245270191439438").map (fun x => decide x.ReadsBack) = some false := by
  decide +kernel

end FiniteDouble

namespace Json.Number

def doubles : Json.Number → List FiniteDouble
  | .integer _ => []
  | .double x => [x]

theorem exists_numeral_writes (n : Json.Number) :
    ∃ negative size, n.numeral.Writes negative size := by
  cases n with
  | integer n => exact ⟨_, _, n.numeral_writes⟩
  | double x => exact ⟨_, _, x.numeral_writes⟩

theorem ofNumeral?_numeral [DoubleReader] (n : Json.Number) (h : ∀ x ∈ n.doubles, x.ReadsBack) :
    ofNumeral? n.numeral = some n := by
  cases n with
  | integer n =>
    rw [ofNumeral?, numeral, Integer64.ofNumeral?_numeral]
  | double x =>
    have hwhole : Integer64.ofNumeral? x.numeral = none := by
      have h := Decimal.isSome_fraction_or_exponent x.negative x.shortestDecimal
      unfold Integer64.ofNumeral?
      exact if_pos (h.imp_right Or.inl)
    have hread : DoubleReader.double? x.numeral = some x := h x List.mem_cons_self
    rw [ofNumeral?, numeral, hwhole, hread]
    rfl

end Json.Number

end FeatureSieve
