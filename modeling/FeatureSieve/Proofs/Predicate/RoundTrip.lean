import FeatureSieve.Predicate.Encoding
import FeatureSieve.Proofs.Except

/-! # Expressions read back

Reading undoes writing for every predicate whose operands have a JSON form. A NaN or an
infinity has none, and is written as a null that no operand reads.
-/

namespace FeatureSieve

/-- A text, or a number that is neither a NaN nor infinite. -/
def Operand.isFinite : Operand → Bool
  | number (.finite _) => true
  | number _ => false
  | text _ => true

namespace Predicate

mutual

/-- What the comparisons compare with, in the order in which they are written. -/
def operands : Predicate → List Operand
  | comparison _ _ operand => [operand]
  | membership .. | nothing => []
  | all children | any children => operandsEach children
  | not child => child.operands

def operandsEach : List Predicate → List Operand
  | [] => []
  | p :: rest => p.operands ++ operandsEach rest

end

mutual

/-- The attributes that are read, in the order in which they are written. -/
def fields : Predicate → List String
  | comparison _ accessor _ => [accessor.field]
  | membership field _ => [field]
  | nothing => []
  | all children | any children => fieldsEach children
  | not child => child.fields

def fieldsEach : List Predicate → List String
  | [] => []
  | p :: rest => p.fields ++ fieldsEach rest

end

end Predicate

theorem Accessor.ofJson_toJson (accessor : Accessor) : ofJson accessor.toJson = .ok accessor := by
  cases accessor with
  | raw field => simp [toJson, ofJson]
  | numeric field => simp [toJson, ofJson]

theorem Operand.ofJson_toJson {operand : Operand} (h : operand.isFinite = true) :
    ofJson operand.toJson = .ok operand := by
  cases operand with
  | number x =>
    cases x with
    | nan | infinite negative => simp [isFinite] at h
    | finite x => rfl
  | text s => rfl

namespace Predicate

theorem comparisonOfJson_toJson (c : Comparator) (accessor : Accessor) {operand : Operand}
    (h : operand.isFinite = true) :
    comparisonOfJson c [accessor.toJson, operand.toJson] = .ok (comparison c accessor operand) := by
  simp only [comparisonOfJson, Operand.ofJson_toJson h, Accessor.ofJson_toJson]
  rfl

theorem membershipOfJson_map_string (field : String) (members : List String) :
    membershipOfJson (.string field :: members.map .string) = .ok (membership field members) := by
  have hm : (members.map Json.string).mapM memberOfJson = .ok members := by
    rw [mapM_eq_ok_iff, List.forall₂_map_left_iff]
    exact List.forall₂_same.mpr fun s _ => rfl
  simp only [membershipOfJson, hm, Except.map]

theorem ofJson_comparison (c : Comparator) (args : List Json) :
    ofJson (.array (.string c.symbol :: args)) = comparisonOfJson c args := by
  unfold ofJson
  simp only [Comparator.ofSymbol?_symbol]

theorem ofJson_membership (args : List Json) :
    ofJson (.array (.string "in" :: args)) = membershipOfJson args := by
  unfold ofJson
  simp [Comparator.ofSymbol?]

theorem ofJson_all (args : List Json) :
    ofJson (.array (.string "all" :: args)) = (ofJsonEach args).map all := by
  unfold ofJson
  simp [Comparator.ofSymbol?]

theorem ofJson_any (args : List Json) :
    ofJson (.array (.string "any" :: args)) = (ofJsonEach args).map any := by
  unfold ofJson
  simp [Comparator.ofSymbol?]

theorem ofJson_not (child : Json) :
    ofJson (.array [.string "!", child]) = (ofJson child).map not := by
  rw [ofJson]
  simp [Comparator.ofSymbol?]

mutual

theorem ofJson_toJson_of_finite (p : Predicate) (h : ∀ o ∈ p.operands, o.isFinite = true) :
    ofJson p.toJson = .ok p := by
  cases p with
  | comparison c accessor operand =>
    have ho : operand.isFinite = true := h operand (by simp [operands])
    rw [toJson, ofJson_comparison, comparisonOfJson_toJson c accessor ho]
  | membership field members =>
    rw [toJson, ofJson_membership, membershipOfJson_map_string]
  | all children =>
    rw [toJson, ofJson_all, ofJsonEach_toJsonEach_of_finite children h]
    rfl
  | any children =>
    rw [toJson, ofJson_any, ofJsonEach_toJsonEach_of_finite children h]
    rfl
  | not child =>
    rw [toJson, ofJson_not, ofJson_toJson_of_finite child h]
    rfl
  | nothing => rw [toJson, ofJson]

theorem ofJsonEach_toJsonEach_of_finite (ps : List Predicate)
    (h : ∀ o ∈ operandsEach ps, o.isFinite = true) : ofJsonEach (toJsonEach ps) = .ok ps := by
  cases ps with
  | nil => simp [toJsonEach, ofJsonEach]
  | cons p rest =>
    have hp := ofJson_toJson_of_finite p fun o ho => h o (List.mem_append_left _ ho)
    have hr := ofJsonEach_toJsonEach_of_finite rest fun o ho => h o (List.mem_append_right _ ho)
    simp only [toJsonEach, ofJsonEach, hp, hr]
    rfl

end

end Predicate

end FeatureSieve
