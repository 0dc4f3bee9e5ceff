/-! # Ordered associations

Values under distinct keys, in the order in which the keys were first put.
-/

namespace FeatureSieve

abbrev Keyed (α : Type) := List (String × α)

namespace Keyed

variable {α : Type}

def keys (xs : Keyed α) : List String := xs.map Prod.fst

def get? (key : String) : Keyed α → Option α
  | [] => none
  | (k, v) :: rest => if k = key then some v else get? key rest

/-- A new key goes to the end; a known one keeps its place and takes the new value. -/
def put (key : String) (value : α) : Keyed α → Keyed α
  | [] => [(key, value)]
  | (k, v) :: rest => if k = key then (k, value) :: rest else (k, v) :: put key value rest

def ofPairs (pairs : List (String × α)) : Keyed α :=
  pairs.foldl (fun xs (k, v) => put k v xs) []

theorem get?_eq_none_iff {key : String} {xs : Keyed α} : get? key xs = none ↔ key ∉ keys xs := by
  induction xs with
  | nil => simp [get?, keys]
  | cons x rest ih =>
    obtain ⟨k, v⟩ := x
    by_cases hk : k = key
    · simp [get?, keys, hk]
    · simpa [get?, keys, hk, Ne.symm hk] using ih

theorem get?_put (xs : Keyed α) (key other : String) (value : α) :
    get? other (put key value xs) = if key = other then some value else get? other xs := by
  induction xs with
  | nil => simp [put, get?]
  | cons x rest ih =>
    obtain ⟨k, v⟩ := x
    by_cases hk : k = key
    · subst hk
      by_cases ho : k = other <;> simp [put, get?, ho]
    · by_cases ho : k = other
      · subst ho
        simp [put, get?, hk, Ne.symm hk]
      · simp [put, get?, hk, ho, ih]

theorem keys_put (xs : Keyed α) (key : String) (value : α) :
    keys (put key value xs) = if key ∈ keys xs then keys xs else keys xs ++ [key] := by
  induction xs with
  | nil => simp [put, keys]
  | cons x rest ih =>
    obtain ⟨k, v⟩ := x
    by_cases hk : k = key
    · simp [put, keys, hk]
    · simp only [keys] at ih
      by_cases hm : key ∈ rest.map Prod.fst <;> simp [put, keys, hk, ih, hm, Ne.symm hk]

theorem keys_put_nodup {xs : Keyed α} (h : (keys xs).Nodup) (key : String) (value : α) :
    (keys (put key value xs)).Nodup := by
  rw [keys_put]
  split
  · exact h
  · next hk =>
    rw [List.nodup_append]
    exact ⟨h, by simp, by simpa [eq_comm] using fun a ha (e : a = key) => hk (e ▸ ha)⟩

end Keyed

end FeatureSieve
