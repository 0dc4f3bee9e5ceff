import FeatureSieve.Keyed
import Mathlib.Data.List.Nodup

/-! # Distinct keys

Where keys are distinct, the first match is the only one, and values that are put one by one
stay as they were put: none is overwritten, and their order is kept.
-/

namespace FeatureSieve

/-- Looking for a key finds the one element that has it. -/
theorem find?_eq_some_iff_of_nodup {α κ : Type} [DecidableEq κ] {key : α → κ} {xs : List α}
    (h : (xs.map key).Nodup) {k : κ} {x : α} :
    xs.find? (fun y => key y = k) = some x ↔ x ∈ xs ∧ key x = k := by
  constructor
  · intro hx
    exact ⟨List.mem_of_find?_eq_some hx, by simpa using List.find?_some hx⟩
  · rintro ⟨hx, rfl⟩
    cases hf : xs.find? (fun y => key y = key x) with
    | none => exact absurd (List.find?_eq_none.mp hf x hx) (by simp)
    | some y =>
      have hkey : key y = key x := by simpa using List.find?_some hf
      rw [List.inj_on_of_nodup_map h (List.mem_of_find?_eq_some hf) hx hkey]

namespace Keyed

variable {α : Type}

/-- A new key goes to the end. -/
theorem put_of_not_mem {key : String} {xs : Keyed α} (h : key ∉ keys xs) (value : α) :
    put key value xs = xs ++ [(key, value)] := by
  induction xs with
  | nil => rfl
  | cons x rest ih =>
    obtain ⟨k, v⟩ := x
    simp only [keys, List.map_cons, List.mem_cons, not_or] at h
    rw [put, if_neg (Ne.symm h.1), ih h.2, List.cons_append]

theorem foldl_put_of_nodup {xs pairs : Keyed α} (h : (keys (xs ++ pairs)).Nodup) :
    pairs.foldl (fun xs (k, v) => put k v xs) xs = xs ++ pairs := by
  induction pairs generalizing xs with
  | nil => simp
  | cons p rest ih =>
    obtain ⟨k, v⟩ := p
    have hnew : k ∉ keys xs := by
      simp only [keys, List.map_append, List.nodup_append, List.map_cons] at h
      exact fun hk => h.2.2 k hk k List.mem_cons_self rfl
    have hrest := @ih (xs ++ [(k, v)]) (by rwa [← List.append_cons])
    simp only [List.foldl_cons, put_of_not_mem hnew]
    exact hrest.trans (List.append_assoc xs [(k, v)] rest)

theorem ofPairs_of_nodup {pairs : Keyed α} (h : (keys pairs).Nodup) : ofPairs pairs = pairs :=
  foldl_put_of_nodup h

theorem get?_map {β : Type} (f : α → β) (key : String) (xs : Keyed α) :
    get? key (xs.map fun (k, v) => (k, f v)) = (get? key xs).map f := by
  induction xs with
  | nil => rfl
  | cons x rest ih =>
    obtain ⟨k, v⟩ := x
    rw [List.map_cons, get?, get?, ih]
    split
    · rfl
    · rfl

theorem get?_eq_head?_filter (key : String) (xs : Keyed α) :
    get? key xs = (xs.filter (·.1 = key)).head?.map Prod.snd := by
  induction xs with
  | nil => rfl
  | cons x rest ih =>
    obtain ⟨k, v⟩ := x
    by_cases hk : k = key
    · simp [get?, hk]
    · simp [get?, hk, ih]

/-- Where a key occurs once at most, a value is looked up exactly if it is the only one. -/
theorem get?_eq_some_iff_filter {key : String} {xs : Keyed α}
    (h : (xs.filter (·.1 = key)).length ≤ 1) {value : α} :
    get? key xs = some value ↔ xs.filter (·.1 = key) = [(key, value)] := by
  rw [get?_eq_head?_filter]
  constructor
  · intro hv
    obtain ⟨⟨k, v⟩, hhead, rfl⟩ := Option.map_eq_some_iff.mp hv
    obtain ⟨rest, hrest⟩ := List.head?_eq_some_iff.mp hhead
    have hmem : (k, v) ∈ xs.filter (·.1 = key) := hrest ▸ List.mem_cons_self
    have hk : k = key := by simpa using (List.mem_filter.mp hmem).2
    rw [hrest, List.length_cons] at h
    have hnil : rest = [] := List.eq_nil_of_length_eq_zero (by omega)
    rw [hrest, hk, hnil]
  · intro hv
    rw [hv]
    rfl

theorem length_filter_le_one {xs : Keyed α} (h : (keys xs).Nodup) (key : String) :
    (xs.filter (·.1 = key)).length ≤ 1 := by
  have hcount : (xs.filter (·.1 = key)).length = (keys xs).count key := by
    rw [keys, List.count_eq_countP, List.countP_map, List.countP_eq_length_filter]
    rfl
  rw [hcount]
  exact List.nodup_iff_count_le_one.mp h key

theorem mem_put {key : String} {value : α} {xs : Keyed α} {x : String × α}
    (h : x ∈ put key value xs) : x = (key, value) ∨ x ∈ xs := by
  induction xs with
  | nil => simpa [put] using h
  | cons y rest ih =>
    obtain ⟨k, v⟩ := y
    by_cases hk : k = key
    · rw [put, if_pos hk] at h
      rcases List.mem_cons.mp h with rfl | h
      · exact Or.inl (by rw [hk])
      · exact Or.inr (List.mem_cons_of_mem _ h)
    · rw [put, if_neg hk] at h
      rcases List.mem_cons.mp h with rfl | h
      · exact Or.inr List.mem_cons_self
      · exact (ih h).imp_right (List.mem_cons_of_mem _)

theorem keys_foldl_put_nodup {xs : Keyed α} (h : (keys xs).Nodup) (pairs : List (String × α)) :
    (keys (pairs.foldl (fun xs (k, v) => put k v xs) xs)).Nodup := by
  induction pairs generalizing xs with
  | nil => exact h
  | cons p rest ih => exact ih (keys_put_nodup h p.1 p.2)

theorem foldl_put_subset (xs : Keyed α) (pairs : List (String × α)) :
    pairs.foldl (fun xs (k, v) => put k v xs) xs ⊆ xs ++ pairs := by
  induction pairs generalizing xs with
  | nil => simp
  | cons p rest ih =>
    intro x hx
    rcases List.mem_append.mp (ih (put p.1 p.2 xs) hx) with hx | hx
    · rcases mem_put hx with rfl | hx
      · exact List.mem_append_right _ List.mem_cons_self
      · exact List.mem_append_left _ hx
    · exact List.mem_append_right _ (List.mem_cons_of_mem _ hx)

theorem keys_ofPairs_nodup (pairs : List (String × α)) : (keys (ofPairs pairs)).Nodup := by
  apply keys_foldl_put_nodup
  exact List.nodup_nil

/-- Of several values under one key, one that was put is kept. -/
theorem ofPairs_subset (pairs : List (String × α)) : ofPairs pairs ⊆ pairs :=
  foldl_put_subset [] pairs

end Keyed

end FeatureSieve
