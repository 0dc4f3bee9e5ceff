import FeatureSieve.Proofs.Predicate.RoundTrip

/-! # Normal expressions

Reading an expression and writing what was read gives its normal form, in which `true` is
an empty `all` and a bare name is a `get`. Only finite operands are ever read, so a normal
form is its own normal form. A predicate with any other operand is written as an expression
that nothing reads.
-/

namespace FeatureSieve

theorem Comparator.symbol_of_ofSymbol? {s : String} {c : Comparator} (h : ofSymbol? s = some c) :
    s = c.symbol := by
  unfold ofSymbol? at h
  split at h
  · cases h
    rfl
  · cases h
    rfl
  · cases h
    rfl
  · cases h

/-- What is not finite is written as null, which is no operand. -/
theorem Operand.ofJson_toJson_of_not_finite {operand : Operand} (h : operand.isFinite = false) :
    ofJson operand.toJson = .error (.operand .null) := by
  cases operand with
  | number x =>
    cases x with
    | nan | infinite negative => rfl
    | finite x => simp [isFinite] at h
  | text s => simp [isFinite] at h

theorem Operand.isFinite_of_ofJson {v : Json} {operand : Operand} (h : ofJson v = .ok operand) :
    operand.isFinite = true := by
  cases v with
  | number n =>
    cases h
    rfl
  | string s =>
    cases h
    rfl
  | null | bool b | array elements | object members => cases h

namespace Predicate

theorem comparisonOfJson_eq_ok {c : Comparator} {args : List Json} {p : Predicate}
    (h : comparisonOfJson c args = .ok p) :
    ∃ accessor operand v w, args = [v, w] ∧ Accessor.ofJson v = .ok accessor ∧
      Operand.ofJson w = .ok operand ∧ p = comparison c accessor operand := by
  unfold comparisonOfJson at h
  split at h
  · next v w =>
    obtain ⟨operand, ho, h⟩ := bind_eq_ok_iff.mp h
    obtain ⟨accessor, ha, h⟩ := bind_eq_ok_iff.mp h
    exact ⟨accessor, operand, v, w, rfl, ha, ho, (pure_eq_ok_iff.mp h).symm⟩
  · cases h

theorem membershipOfJson_eq_ok {args : List Json} {p : Predicate}
    (h : membershipOfJson args = .ok p) :
    ∃ field members, p = membership field members := by
  unfold membershipOfJson at h
  split at h
  · next field rest =>
    obtain ⟨members, -, rfl⟩ := map_eq_ok_iff.mp h
    exact ⟨field, members, rfl⟩
  · cases h

/-- The expressions that are read, by their heads. -/
theorem ofJson_eq_ok_cases {v : Json} {p : Predicate} (h : ofJson v = .ok p) :
    (v = .bool true ∧ p = all []) ∨ (v = .bool false ∧ p = nothing) ∨
    (∃ c args, v = .array (.string c.symbol :: args) ∧ comparisonOfJson c args = .ok p) ∨
    (∃ args, v = .array (.string "in" :: args) ∧ membershipOfJson args = .ok p) ∨
    (∃ args ps, v = .array (.string "all" :: args) ∧ ofJsonEach args = .ok ps ∧ p = all ps) ∨
    (∃ args ps, v = .array (.string "any" :: args) ∧ ofJsonEach args = .ok ps ∧ p = any ps) ∨
    ∃ child q, v = .array [.string "!", child] ∧ ofJson child = .ok q ∧ p = not q := by
  unfold ofJson at h
  split at h
  · cases h
    exact Or.inl ⟨rfl, rfl⟩
  · cases h
    exact Or.inr (Or.inl ⟨rfl, rfl⟩)
  · next head args =>
    right
    right
    split at h
    · next c hc =>
      obtain rfl := Comparator.symbol_of_ofSymbol? hc
      exact Or.inl ⟨c, args, rfl, h⟩
    · right
      split at h
      · next hin =>
        subst hin
        exact Or.inl ⟨args, rfl, h⟩
      · right
        split at h
        · next hall =>
          subst hall
          obtain ⟨ps, hps, rfl⟩ := map_eq_ok_iff.mp h
          exact Or.inl ⟨args, ps, rfl, hps, rfl⟩
        · right
          split at h
          · next hany =>
            subst hany
            obtain ⟨ps, hps, rfl⟩ := map_eq_ok_iff.mp h
            exact Or.inl ⟨args, ps, rfl, hps, rfl⟩
          · right
            split at h
            · next hnot =>
              subst hnot
              split at h
              · next child =>
                obtain ⟨q, hq, rfl⟩ := map_eq_ok_iff.mp h
                exact ⟨child, q, rfl, hq, rfl⟩
              · cases h
            · cases h
  · cases h
  · cases h

theorem ofJsonEach_cons_eq_ok {args : List Json} {q : Predicate} {qs : List Predicate}
    (h : ofJsonEach args = .ok (q :: qs)) :
    ∃ v rest, ofJson v = .ok q ∧ ofJsonEach rest = .ok qs := by
  cases args with
  | nil => simp [ofJsonEach] at h
  | cons v rest =>
    rw [ofJsonEach] at h
    obtain ⟨q', hq, h⟩ := bind_eq_ok_iff.mp h
    obtain ⟨qs', hqs, h⟩ := bind_eq_ok_iff.mp h
    cases pure_eq_ok_iff.mp h
    exact ⟨v, rest, hq, hqs⟩

mutual

/-- Every operand that is read is finite. -/
theorem isFinite_of_ofJson (p : Predicate) {v : Json} (h : ofJson v = .ok p) :
    ∀ o ∈ p.operands, o.isFinite = true := by
  rcases ofJson_eq_ok_cases h with ⟨-, hp⟩ | ⟨-, hp⟩ | ⟨c, args, -, hc⟩ | ⟨args, -, hm⟩ |
    ⟨args, ps, -, hps, hp⟩ | ⟨args, ps, -, hps, hp⟩ | ⟨child, q, -, hq, hp⟩
  · simp [hp, operands, operandsEach]
  · simp [hp, operands]
  · obtain ⟨accessor, operand, _, _, -, -, ho, hp⟩ := comparisonOfJson_eq_ok hc
    rw [hp]
    simpa [operands] using Operand.isFinite_of_ofJson ho
  · obtain ⟨field, members, hp⟩ := membershipOfJson_eq_ok hm
    simp [hp, operands]
  · have ih := isFinite_of_ofJsonEach ps hps
    rw [hp]
    exact ih
  · have ih := isFinite_of_ofJsonEach ps hps
    rw [hp]
    exact ih
  · have ih := isFinite_of_ofJson q hq
    rw [hp]
    exact ih
termination_by sizeOf p
decreasing_by all_goals (subst hp; simp)

theorem isFinite_of_ofJsonEach (ps : List Predicate) {vs : List Json} (h : ofJsonEach vs = .ok ps) :
    ∀ o ∈ operandsEach ps, o.isFinite = true := by
  cases ps with
  | nil => simp [operandsEach]
  | cons q qs =>
    obtain ⟨v, rest, hq, hqs⟩ := ofJsonEach_cons_eq_ok h
    have hfirst := isFinite_of_ofJson q hq
    have hrest := isFinite_of_ofJsonEach qs hqs
    intro o ho
    rcases List.mem_append.mp ho with ho | ho
    · exact hfirst o ho
    · exact hrest o ho
termination_by sizeOf ps

end

theorem ofJson_toJson_comparison_of_not_finite (c : Comparator) (accessor : Accessor)
    {operand : Operand} (h : operand.isFinite = false) :
    ofJson (comparison c accessor operand).toJson = .error (.operand .null) := by
  rw [toJson, ofJson_comparison, comparisonOfJson, Operand.ofJson_toJson_of_not_finite h]
  rfl

mutual

/-- The first operand that is not finite is the first thing that cannot be read back. -/
theorem ofJson_toJson_of_not_finite (p : Predicate) (h : ∃ o ∈ p.operands, o.isFinite = false) :
    ofJson p.toJson = .error (.operand .null) := by
  cases p with
  | comparison c accessor operand =>
    obtain ⟨o, hm, ho⟩ := h
    obtain rfl := List.mem_singleton.mp hm
    exact ofJson_toJson_comparison_of_not_finite c accessor ho
  | membership field members => simp [operands] at h
  | all children =>
    have hc := ofJsonEach_toJsonEach_of_not_finite children h
    rw [toJson, ofJson_all, hc]
    rfl
  | any children =>
    have hc := ofJsonEach_toJsonEach_of_not_finite children h
    rw [toJson, ofJson_any, hc]
    rfl
  | not child =>
    have hc := ofJson_toJson_of_not_finite child h
    rw [toJson, ofJson_not, hc]
    rfl
  | nothing => simp [operands] at h

theorem ofJsonEach_toJsonEach_of_not_finite (ps : List Predicate)
    (h : ∃ o ∈ operandsEach ps, o.isFinite = false) :
    ofJsonEach (toJsonEach ps) = .error (.operand .null) := by
  cases ps with
  | nil => simp [operandsEach] at h
  | cons p rest =>
    rw [toJsonEach, ofJsonEach]
    by_cases hp : ∃ o ∈ p.operands, o.isFinite = false
    · rw [ofJson_toJson_of_not_finite p hp]
      rfl
    · have hfinite : ∀ o ∈ p.operands, o.isFinite = true := by
        intro o ho
        by_contra hne
        exact hp ⟨o, ho, Bool.eq_false_iff.mpr hne⟩
      have hrest : ∃ o ∈ operandsEach rest, o.isFinite = false := by
        obtain ⟨o, hm, ho⟩ := h
        refine ⟨o, (List.mem_append.mp hm).resolve_left fun hin => ?_, ho⟩
        exact hp ⟨o, hin, ho⟩
      rw [ofJson_toJson_of_finite p hfinite, ofJsonEach_toJsonEach_of_not_finite rest hrest]
      rfl

end

/-- The normal form of an expression. -/
def normalize (v : Json) : Except Malformed Json := (ofJson v).map toJson

/-- A predicate is read back exactly if its operands are finite, which they are in every
predicate that was read. So a normal form is its own normal form. -/
theorem reading_normalizes (p : Predicate) (v : Json) :
    (ofJson p.toJson =
      if ∀ o ∈ p.operands, o.isFinite = true then .ok p else .error (.operand .null)) ∧
    (∀ q, ofJson v = .ok q →
      (∀ o ∈ q.operands, o.isFinite = true) ∧ ofJson q.toJson = .ok q) ∧
    (normalize v).bind normalize = normalize v := by
  have hread : ∀ q, ofJson v = .ok q →
      (∀ o ∈ q.operands, o.isFinite = true) ∧ ofJson q.toJson = .ok q := by
    intro q hq
    have hfinite := isFinite_of_ofJson q hq
    exact ⟨hfinite, ofJson_toJson_of_finite q hfinite⟩
  refine ⟨?_, hread, ?_⟩
  · split
    · next h => exact ofJson_toJson_of_finite p h
    · next h =>
      push Not at h
      obtain ⟨o, hm, ho⟩ := h
      exact ofJson_toJson_of_not_finite p ⟨o, hm, Bool.eq_false_iff.mpr ho⟩
  · unfold normalize
    cases hv : ofJson v with
    | error m => rfl
    | ok q =>
      have hq := (hread q hv).2
      simp only [Except.map, Except.bind, hq]

example : (Malformed.operand .null).message = "Invalid expression: unsupported literal: null" := by
  decide +kernel

/-- The normal form has no `true` and no bare name, and its zero keeps the sign. -/
theorem reading_normalizes_negative_zero :
    let zero : Json := .number (.double (.zero true))
    let v : Json := .array [.string "any", .bool true,
      .array [.string "!", .array [.string "<", .string "depth", zero]]]
    let w : Json := .array [.string "any", .array [.string "all"],
      .array [.string "!", .array [.string "<", .array [.string "get", .string "depth"], zero]]]
    let p : Predicate :=
      any [all [], not (comparison .less (.raw "depth") (.number (.finite (.zero true))))]
    ofJson v = .ok p ∧ ofJson w = .ok p ∧ normalize v = .ok w ∧ normalize w = .ok w := by
  intro zero v w p
  have hv : ofJson v = .ok p := rfl
  have hn : normalize v = .ok w := rfl
  obtain ⟨-, hread, hnormal⟩ := reading_normalizes p v
  rw [hn] at hnormal
  exact ⟨hv, (hread p hv).2, hn, hnormal⟩

end Predicate

end FeatureSieve
