import FeatureSieve.Atlas.File
import FeatureSieve.Proofs.Json.Record
import FeatureSieve.Proofs.Json.Value

/-! # Files that are written again

A description that was read from a file is read again from what is written for it. The many
spellings of a file come to one: unknown members are gone, all fields stand under their names, and
a filter is left out where there is none. A filter that was read fits where it stands, and comes
back as it was if the reader finds its doubles again from their numerals.
-/

namespace FeatureSieve

open Json (Written)
open Json.Written (ofJson)

section Lists

variable {α : Type} {read? : Written → Option α}

theorem listOf?_ofJson {toJson : α → Json} {xs : List α}
    (h : ∀ x ∈ xs, read? (ofJson (toJson x)) = some x) :
    listOf? read? (ofJson (.array (xs.map toJson))) = some xs := by
  simp only [listOf?, Json.Written.list?_ofJson, Option.bind_eq_bind, Option.bind_some,
    List.map_map, mapM_eq_some_iff, List.forall₂_map_left_iff]
  exact List.forall₂_same.mpr h

theorem forall_of_listOf? {p : α → Prop} (hp : ∀ w x, read? w = some x → p x) {w : Written}
    {xs : List α} (h : listOf? read? w = some xs) : ∀ x ∈ xs, p x := by
  obtain ⟨ws, -, hws⟩ := Option.bind_eq_some_iff.mp h
  intro x hx
  obtain ⟨w, -, hw⟩ := exists_of_forall₂_of_mem (mapM_eq_some_iff.mp hws) hx
  exact hp w x hw

theorem forall_of_optionalField? {p : α → Prop} (hp : ∀ w x, read? w = some x → p x)
    {w : Option Written} {xs : List α} (h : optionalField? (listOf? read?) [] w = some xs) :
    ∀ x ∈ xs, p x := by
  cases w with
  | none =>
    cases h
    simp
  | some w => exact forall_of_listOf? hp h

end Lists

theorem ValueKind.ofWritten?_ofJson (kind : ValueKind) : ofWritten? (ofJson kind.toJson) = some kind := by
  rw [ofWritten?, toJson, Json.Written.variant?_ofJson, Option.bind_some, ofName?_name]

namespace TargetDescription

variable [Json.DoubleReader]

/-- The doubles in the filter of a target. -/
def doubles (t : TargetDescription) : List FiniteDouble := (t.filter.map Json.doubles).getD []

/-- The filter is no null, and it fits where it stands. -/
def IsWritable (t : TargetDescription) : Prop := ∀ v ∈ t.filter, v ≠ .null ∧ v.Fits filterLimit

theorem fits_of_filter? {w : Option Written} {filter : Option Json} (h : filter? w = some filter) :
    ∀ v ∈ filter, v ≠ .null ∧ v.Fits filterLimit := by
  unfold filter? at h
  split at h
  · cases h
    simp
  · cases h
    simp
  · next w hnull =>
    obtain ⟨v, hv, rfl⟩ := Option.map_eq_some_iff.mp h
    rintro _ ⟨⟩
    refine ⟨?_, Json.Written.fits_of_valueWithin? hv⟩
    rintro rfl
    obtain ⟨-, hv⟩ := Json.Written.valueWithin?_eq_some_iff.mp hv
    exact hnull (Json.Written.eq_null_of_value? hv)

theorem isWritable_of_ofWritten? (w : Written) (t : TargetDescription) (h : ofWritten? w = some t) :
    t.IsWritable := by
  unfold ofWritten? at h
  obtain ⟨fields, -, h⟩ := Option.bind_eq_some_iff.mp h
  split at h
  · obtain ⟨_, -, h⟩ := Option.bind_eq_some_iff.mp h
    obtain ⟨filter, hfilter, h⟩ := Option.bind_eq_some_iff.mp h
    cases h
    exact fits_of_filter? hfilter
  · cases h

theorem filter?_ofJson {t : TargetDescription} (h : t.IsWritable)
    (hd : ∀ x ∈ t.doubles, x.ReadsBack) : filter? (t.filter.map ofJson) = some t.filter := by
  rw [doubles] at hd
  cases hf : t.filter with
  | none => rfl
  | some v =>
    obtain ⟨hnull, hfits⟩ := h v hf
    rw [hf] at hd
    have hread := Json.Written.valueWithin?_ofJson hfits hd
    cases v with
    | null => exact absurd rfl hnull
    | bool b | number n | string s | array elements | object members =>
      exact congrArg (Option.map some) hread

omit [Json.DoubleReader] in
theorem fields?_ofJson (t : TargetDescription) : (ofJson t.toJson).fields? ["id", "filter"] =
    some [some (ofJson (.string t.id)), t.filter.map ofJson] := by
  obtain ⟨id, filter⟩ := t
  cases filter with
  | none | some v => exact Json.Written.fields?_ofJson_object (by simp [Keyed.keys]) _

theorem ofWritten?_ofJson {t : TargetDescription} (h : t.IsWritable)
    (hd : ∀ x ∈ t.doubles, x.ReadsBack) : ofWritten? (ofJson t.toJson) = some t := by
  rw [ofWritten?, fields?_ofJson]
  simp [Json.Written.string?_ofJson, filter?_ofJson h hd]

end TargetDescription

theorem FieldDescription.ofWritten?_ofJson (f : FieldDescription) :
    ofWritten? (ofJson f.toJson) = some f := by
  rw [ofWritten?, toJson, Json.Written.fields?_ofJson_object (by simp [Keyed.keys])]
  simp [Keyed.get?, Json.Written.string?_ofJson, ValueKind.ofWritten?_ofJson, optionalField?]

namespace LayerDescription

variable [Json.DoubleReader]

def doubles (l : LayerDescription) : List FiniteDouble := l.targets.flatMap TargetDescription.doubles

def IsWritable (l : LayerDescription) : Prop := ∀ t ∈ l.targets, t.IsWritable

theorem isWritable_of_ofWritten? (w : Written) (l : LayerDescription) (h : ofWritten? w = some l) :
    l.IsWritable := by
  unfold ofWritten? at h
  obtain ⟨fields, -, h⟩ := Option.bind_eq_some_iff.mp h
  split at h
  · obtain ⟨_, -, h⟩ := Option.bind_eq_some_iff.mp h
    obtain ⟨_, -, h⟩ := Option.bind_eq_some_iff.mp h
    obtain ⟨_, -, h⟩ := Option.bind_eq_some_iff.mp h
    obtain ⟨targets, htargets, h⟩ := Option.bind_eq_some_iff.mp h
    obtain ⟨_, -, h⟩ := Option.bind_eq_some_iff.mp h
    cases h
    exact forall_of_optionalField? TargetDescription.isWritable_of_ofWritten? htargets
  · cases h

theorem ofWritten?_ofJson {l : LayerDescription} (h : l.IsWritable)
    (hd : ∀ x ∈ l.doubles, x.ReadsBack) : ofWritten? (ofJson l.toJson) = some l := by
  have htargets : listOf? TargetDescription.ofWritten?
      (ofJson (.array (l.targets.map TargetDescription.toJson))) = some l.targets :=
    listOf?_ofJson fun t ht => TargetDescription.ofWritten?_ofJson (h t ht) fun x hx =>
      hd x (List.mem_flatMap_of_mem ht hx)
  have hfields : listOf? FieldDescription.ofWritten?
      (ofJson (.array (l.fields.map FieldDescription.toJson))) = some l.fields :=
    listOf?_ofJson fun f _ => f.ofWritten?_ofJson
  rw [ofWritten?, toJson, Json.Written.fields?_ofJson_object (by simp [Keyed.keys])]
  simp [Keyed.get?, Json.Written.string?_ofJson, optionalField?, htargets, hfields]

end LayerDescription

namespace AtlasDescription

section Reading

variable [Json.DoubleReader]

/-- The doubles in the filters of a description. -/
def doubles (d : AtlasDescription) : List FiniteDouble := d.layers.flatMap LayerDescription.doubles

def IsWritable (d : AtlasDescription) : Prop := ∀ l ∈ d.layers, l.IsWritable

theorem isWritable_of_ofWritten? {w : Written} {d : AtlasDescription} (h : ofWritten? w = some d) :
    d.IsWritable := by
  unfold ofWritten? at h
  obtain ⟨fields, -, h⟩ := Option.bind_eq_some_iff.mp h
  split at h
  · obtain ⟨layers, hlayers, h⟩ := Option.bind_eq_some_iff.mp h
    cases h
    exact forall_of_optionalField? LayerDescription.isWritable_of_ofWritten? hlayers
  · cases h

theorem ofWritten?_ofJson {d : AtlasDescription} (h : d.IsWritable)
    (hd : ∀ x ∈ d.doubles, x.ReadsBack) : ofWritten? (ofJson d.toJson) = some d := by
  have hlayers : listOf? LayerDescription.ofWritten?
      (ofJson (.array (d.layers.map LayerDescription.toJson))) = some d.layers :=
    listOf?_ofJson fun l hl => LayerDescription.ofWritten?_ofJson (h l hl) fun x hx =>
      hd x (List.mem_flatMap_of_mem hl hx)
  rw [ofWritten?, toJson, Json.Written.fields?_ofJson_object (by simp [Keyed.keys])]
  simp [Keyed.get?, optionalField?, hlayers]

/-- What is written for a description that can be written is read as the same description. -/
theorem read?_text {d : AtlasDescription} (h : d.IsWritable)
    (hd : ∀ x ∈ d.doubles, x.ReadsBack) : read? d.text = some d := by
  rw [read?, text, Json.Written.read?_text, Option.bind_some, ofWritten?_ofJson h hd]

theorem isWritable_of_read? {text : String} {d : AtlasDescription} (h : read? text = some d) :
    d.IsWritable := by
  obtain ⟨w, -, hw⟩ := Option.bind_eq_some_iff.mp h
  exact isWritable_of_ofWritten? hw

/-- Where the reader finds each double of a filter again from its numeral, a file that was read and
written again is read as the same description, with its strings and the filters of its targets,
and is written the same way again. It gives the same atlas, or the same fault. No filter is a null,
since a null is read as none. -/
theorem rewriting_is_stable {text : String} {d : AtlasDescription} (h : read? text = some d)
    (hdoubles : ∀ x ∈ d.doubles, x.ReadsBack) :
    read? d.text = some d ∧ (read? d.text).map AtlasDescription.text = some d.text ∧
    Atlas.ofText d.text = Atlas.ofText text ∧
    ∀ l ∈ d.layers, ∀ t ∈ l.targets, t.filter ≠ some .null := by
  have hd : d.IsWritable := isWritable_of_read? h
  have hread : read? d.text = some d := read?_text hd hdoubles
  refine ⟨hread, by rw [hread, Option.map_some], ?_, ?_⟩
  · rw [Atlas.ofText, Atlas.ofText, ofText, ofText, hread, h]
  · intro l hl t ht hnull
    exact (hd l hl t ht .null hnull).1 rfl

end Reading

/-- Arrays in place of objects, members in any order, unknown ones among them, a repeated member of
a filter, a filter that is null and an old name of a kind all come to one text, which stays, since
a reader that scales finds the doubles here again. -/
theorem spellings_come_to_one_text :
    let file := "[[[\"w\",\"Wells\",\"\",[\x7b\"filter\":\x7b\"a\":1,\"b\":-0,\"a\":[1.50]\x7d," ++
      "\"remark\":1e999,\"id\":\"\\u0070\"\x7d,[\"q\",null]],[[\"d\",\"Depth\",\"numeric\"]]]]]"
    let rewritten := "\x7b\"layers\":[\x7b\"id\":\"w\",\"name\":\"Wells\",\"description\":\"\"," ++
      "\"targets\":[\x7b\"id\":\"p\",\"filter\":\x7b\"a\":[1.5],\"b\":-0.0\x7d\x7d,\x7b\"id\":\"q\"\x7d]," ++
      "\"fields\":[\x7b\"field\":\"d\",\"name\":\"Depth\",\"type\":\"number\",\"help\":\"\"\x7d]\x7d]\x7d"
    ∃ d, read? file = some d ∧ d.text = rewritten ∧ read? rewritten = some d ∧
      Atlas.ofText rewritten = Atlas.ofText file := by
  intro file rewritten
  have hfile : (read? file).map AtlasDescription.text = some rewritten := by decide +kernel
  have hdoubles : ∀ d ∈ read? file, ∀ x ∈ d.doubles, x.ReadsBack := by decide +kernel
  obtain ⟨d, hread, htext⟩ := Option.map_eq_some_iff.mp hfile
  obtain ⟨hagain, -, hatlas, -⟩ := rewriting_is_stable hread (hdoubles d hread)
  rw [htext] at hagain hatlas
  exact ⟨d, hread, htext, hagain, hatlas⟩

end AtlasDescription

end FeatureSieve
