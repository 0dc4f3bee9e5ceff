import FeatureSieve.Json.Record
import FeatureSieve.Proofs.Except
import FeatureSieve.Proofs.Json.Text

/-! # Records as they are read

The fields of an object are found under their names, wherever they stand and whatever else there
is. An object that was written for a value gives back the fields that it was written from.
-/

namespace FeatureSieve.Json

namespace Written

/-- The members of an object under their names as texts. -/
def Named (members : List (List CodeUnit × Written)) (named : Keyed Written) : Prop :=
  List.Forall₂ (fun m n => CodeUnit.text? m.1 = some n.1 ∧ m.2 = n.2) members named

theorem mapM_text?_eq_some_iff {members : List (List CodeUnit × Written)} {named : Keyed Written} :
    (members.mapM fun (units, w) => (CodeUnit.text? units).map (·, w)) = some named ↔
      Named members named := by
  rw [mapM_eq_some_iff]
  apply iff_of_eq
  unfold Named
  congr 1
  funext m n
  simp [Prod.ext_iff]

theorem Named.unique {members : List (List CodeUnit × Written)} {named other : Keyed Written}
    (h : Named members named) (h' : Named members other) : named = other :=
  Option.some.inj ((mapM_text?_eq_some_iff.mpr h).symm.trans (mapM_text?_eq_some_iff.mpr h'))

theorem fields?_object_eq_some_iff {names : List String} {fields : List (Option Written)}
    {members : List (List CodeUnit × Written)} :
    fields? names (.object members) = some fields ↔ ∃ named, Named members named ∧
      (∀ name ∈ names, (named.filter (·.1 = name)).length ≤ 1) ∧
      fields = names.map (Keyed.get? · named) := by
  unfold fields?
  simp only [Option.bind_eq_bind, Option.bind_eq_some_iff, mapM_text?_eq_some_iff]
  apply exists_congr
  intro named
  apply and_congr_right
  intro _
  rw [Option.ite_none_right_eq_some, List.all_eq_true, Option.some.injEq, eq_comm (a := fields)]
  simp only [decide_eq_true_eq]

/-- One member has the name, and `x` is what is read of it. -/
def HoldsOnce {α : Type} (named : Keyed Written) (name : String) (readValue? : Written → Option α)
    (x : α) : Prop :=
  ∃ w, named.filter (·.1 = name) = [(name, w)] ∧ readValue? w = some x

theorem HoldsOnce.length_filter {α : Type} {named : Keyed Written} {name : String}
    {readValue? : Written → Option α} {x : α} (h : HoldsOnce named name readValue? x) :
    (named.filter (·.1 = name)).length = 1 := by
  obtain ⟨w, hw, -⟩ := h
  rw [hw]
  rfl

/-- The members of an object that was written, under their names. -/
def namedOf (ms : List (String × Json)) : Keyed Written := ms.map fun (key, v) => (key, ofJson v)

theorem named_ofMembers (ms : List (String × Json)) : Named (ofMembers ms) (namedOf ms) := by
  induction ms with
  | nil => exact .nil
  | cons m rest ih => exact .cons ⟨CodeUnit.text?_map_char m.1, rfl⟩ ih

theorem keys_namedOf (ms : List (String × Json)) : (namedOf ms).keys = Keyed.keys ms := by
  rw [Keyed.keys, namedOf, List.map_map]
  rfl

theorem holdsOnce_namedOf {α : Type} {readValue? : Written → Option α} {ms : List (String × Json)}
    {name : String} {v : Json} {x : α} (h : ms.filter (·.1 = name) = [(name, v)])
    (hv : readValue? (ofJson v) = some x) : HoldsOnce (namedOf ms) name readValue? x := by
  refine ⟨ofJson v, ?_, hv⟩
  rw [namedOf, List.filter_map]
  exact congrArg namedOf h

/-- An object with distinct keys gives back each field under its name. -/
theorem fields?_ofJson_object {ms : List (String × Json)} (h : (Keyed.keys ms).Nodup)
    (names : List String) : fields? names (ofJson (.object ms)) =
      some (names.map fun name => (Keyed.get? name ms).map ofJson) := by
  rw [ofJson, fields?_object_eq_some_iff]
  refine ⟨_, named_ofMembers ms, fun name _ => Keyed.length_filter_le_one ?_ name, ?_⟩
  · rwa [keys_namedOf]
  · apply List.map_congr_left
    intro name _
    exact (Keyed.get?_map ofJson name ms).symm

theorem string?_ofJson (s : String) : (ofJson (.string s)).string? = some s :=
  CodeUnit.text?_map_char s

theorem variant?_ofJson (s : String) : (ofJson (.string s)).variant? = some s :=
  CodeUnit.text?_map_char s

theorem list?_ofJson (vs : List Json) : (ofJson (.array vs)).list? = some (vs.map ofJson) := by
  rw [ofJson, list?]
  congr 1
  induction vs with
  | nil => rfl
  | cons v rest ih => rw [ofElements, ih, List.map_cons]

theorem read?_text (v : Json) : read? v.text = some (ofJson v) := by
  rw [read?, readFront?_text, Option.filter_some]
  rfl

end Written

end FeatureSieve.Json
