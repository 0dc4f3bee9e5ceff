import FeatureSieve.Proofs.Json.Text

/-! # Values as they are read

A value that was read has distinct keys everywhere, since repeated members are merged, and nests no
deeper than the tree that it was read from. So it is read again from what is written for it, at
every place where it could be read before, if its doubles are read back.
-/

namespace FeatureSieve.Json

theorem elementsKeyed_iff {vs : List Json} : ElementsKeyed vs ↔ ∀ v ∈ vs, v.IsKeyed := by
  induction vs with
  | nil => simp [ElementsKeyed]
  | cons v rest ih => rw [ElementsKeyed, ih, List.forall_mem_cons]

theorem membersKeyed_iff {ms : List (String × Json)} : MembersKeyed ms ↔ ∀ m ∈ ms, m.2.IsKeyed := by
  induction ms with
  | nil => simp [MembersKeyed]
  | cons m rest ih =>
    obtain ⟨key, v⟩ := m
    rw [MembersKeyed, ih, List.forall_mem_cons]

theorem elementsDepth_le_iff {vs : List Json} {levels : Nat} :
    elementsDepth vs ≤ levels ↔ ∀ v ∈ vs, v.depth ≤ levels := by
  induction vs with
  | nil => simp [elementsDepth]
  | cons v rest ih => rw [elementsDepth, Nat.max_le, ih, List.forall_mem_cons]

theorem membersDepth_le_iff {ms : List (String × Json)} {levels : Nat} :
    membersDepth ms ≤ levels ↔ ∀ m ∈ ms, m.2.depth ≤ levels := by
  induction ms with
  | nil => simp [membersDepth]
  | cons m rest ih =>
    obtain ⟨key, v⟩ := m
    rw [membersDepth, Nat.max_le, ih, List.forall_mem_cons]

/-- The value has the form of one that was read where so many levels were left. -/
structure Fits (levels : Nat) (v : Json) : Prop where
  isKeyed : v.IsKeyed
  depth_le : v.depth ≤ levels

theorem Fits.mono {levels more : Nat} {v : Json} (h : v.Fits levels) (hle : levels ≤ more) :
    v.Fits more := ⟨h.isKeyed, h.depth_le.trans hle⟩

theorem fits_array {vs : List Json} {levels : Nat} (h : ∀ v ∈ vs, v.Fits levels) :
    (array vs).Fits (levels + 1) :=
  ⟨elementsKeyed_iff.mpr fun v hv => (h v hv).isKeyed,
    Nat.succ_le_succ (elementsDepth_le_iff.mpr fun v hv => (h v hv).depth_le)⟩

theorem fits_object {ms : List (String × Json)} {levels : Nat} (hk : (Keyed.keys ms).Nodup)
    (h : ∀ m ∈ ms, m.2.Fits levels) : (object ms).Fits (levels + 1) :=
  ⟨⟨hk, membersKeyed_iff.mpr fun m hm => (h m hm).isKeyed⟩,
    Nat.succ_le_succ (membersDepth_le_iff.mpr fun m hm => (h m hm).depth_le)⟩

namespace Written

variable [DoubleReader]

mutual

theorem fits_of_value? (w : Written) {v : Json} (h : w.value? = some v) : v.Fits w.depth := by
  cases w with
  | null | bool b =>
    cases h
    exact ⟨trivial, Nat.le_refl _⟩
  | numeral n =>
    obtain ⟨_, -, rfl⟩ := Option.map_eq_some_iff.mp h
    exact ⟨trivial, Nat.le_refl _⟩
  | quoted units =>
    obtain ⟨_, -, rfl⟩ := Option.map_eq_some_iff.mp h
    exact ⟨trivial, Nat.le_refl _⟩
  | array elements =>
    rw [value?] at h
    obtain ⟨vs, hvs, rfl⟩ := Option.map_eq_some_iff.mp h
    exact fits_array (forall_fits_of_elementValues? elements hvs)
  | object members =>
    rw [value?] at h
    obtain ⟨ms, hms, rfl⟩ := Option.map_eq_some_iff.mp h
    exact fits_object (Keyed.keys_ofPairs_nodup ms) fun m hm =>
      forall_fits_of_memberValues? members hms m (Keyed.ofPairs_subset ms hm)

theorem forall_fits_of_elementValues? (ws : List Written) {vs : List Json}
    (h : elementValues? ws = some vs) : ∀ v ∈ vs, v.Fits (elementsDepth ws) := by
  cases ws with
  | nil =>
    cases h
    simp
  | cons w rest =>
    rw [elementValues?] at h
    obtain ⟨v, hv, h⟩ := Option.bind_eq_some_iff.mp h
    obtain ⟨vs, hvs, h⟩ := Option.bind_eq_some_iff.mp h
    cases h
    have hfirst := fits_of_value? w hv
    have hrest := forall_fits_of_elementValues? rest hvs
    rw [elementsDepth, List.forall_mem_cons]
    exact ⟨hfirst.mono (Nat.le_max_left _ _),
      fun u hu => (hrest u hu).mono (Nat.le_max_right _ _)⟩

theorem forall_fits_of_memberValues? (members : List (List CodeUnit × Written))
    {ms : List (String × Json)} (h : memberValues? members = some ms) :
    ∀ m ∈ ms, m.2.Fits (membersDepth members) := by
  cases members with
  | nil =>
    cases h
    simp
  | cons m rest =>
    obtain ⟨units, w⟩ := m
    rw [memberValues?] at h
    obtain ⟨key, hkey, h⟩ := Option.bind_eq_some_iff.mp h
    obtain ⟨v, hv, h⟩ := Option.bind_eq_some_iff.mp h
    obtain ⟨ms, hms, h⟩ := Option.bind_eq_some_iff.mp h
    cases h
    have hfirst := fits_of_value? w hv
    have hrest := forall_fits_of_memberValues? rest hms
    rw [membersDepth, List.forall_mem_cons]
    exact ⟨hfirst.mono (Nat.le_max_left _ _),
      fun m hm => (hrest m hm).mono (Nat.le_max_right _ _)⟩

end

/-- Only a null is read as null. -/
theorem eq_null_of_value? {w : Written} (h : w.value? = some .null) : w = .null := by
  cases w with
  | null => rfl
  | bool b => cases h
  | numeral n =>
    obtain ⟨_, -, h⟩ := Option.map_eq_some_iff.mp h
    cases h
  | quoted units =>
    obtain ⟨_, -, h⟩ := Option.map_eq_some_iff.mp h
    cases h
  | array elements =>
    rw [value?] at h
    obtain ⟨_, -, h⟩ := Option.map_eq_some_iff.mp h
    cases h
  | object members =>
    rw [value?] at h
    obtain ⟨_, -, h⟩ := Option.map_eq_some_iff.mp h
    cases h

theorem valueWithin?_eq_some_iff {levels : Nat} {w : Written} {v : Json} :
    w.valueWithin? levels = some v ↔ w.depth ≤ levels ∧ w.value? = some v :=
  Option.ite_none_right_eq_some

theorem fits_of_valueWithin? {levels : Nat} {w : Written} {v : Json}
    (h : w.valueWithin? levels = some v) : v.Fits levels := by
  obtain ⟨hle, hv⟩ := valueWithin?_eq_some_iff.mp h
  exact (fits_of_value? w hv).mono hle

theorem valueWithin?_ofJson {levels : Nat} {v : Json} (h : v.Fits levels)
    (hd : ∀ x ∈ v.doubles, x.ReadsBack) : (ofJson v).valueWithin? levels = some v := by
  rw [valueWithin?, depth_ofJson, if_pos h.depth_le, value?_ofJson v h.isKeyed hd]

end Written

end FeatureSieve.Json
