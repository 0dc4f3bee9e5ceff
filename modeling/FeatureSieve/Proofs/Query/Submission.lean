import FeatureSieve.Proofs.Json.Record
import FeatureSieve.Query.Submission
import Mathlib.Tactic.TFAE

/-! # Submissions and operators as they are read

A submission is read from the four fields of an object, wherever they stand, and from no object
that lacks one of them or gives one twice. An operator is typed, shown and stored under one and
the same symbol.
-/

namespace FeatureSieve

open Json (CodeUnit Written)
open Json.Written (HoldsOnce Named holdsOnce_namedOf named_ofMembers namedOf ofJson ofMembers)

namespace Operator

theorem ofSymbol?_eq_some_iff {text : String} {operator : Operator} :
    ofSymbol? text = some operator ↔ text = operator.symbol := by
  constructor
  · intro h
    unfold ofSymbol? at h
    split at h
    · cases h
      rfl
    · cases h
      rfl
    · cases h
      rfl
    · cases h
      rfl
    · cases h
      rfl
    · cases h
  · rintro rfl
    exact ofSymbol?_symbol operator

theorem parse_eq_ok_iff {text : String} {operator : Operator} :
    parse text = .ok operator ↔ text = operator.symbol := by
  rw [← ofSymbol?_eq_some_iff]
  unfold parse
  split
  · next h => simp [h]
  · next h => simp [h]

theorem parse_eq_error_iff {text : String} :
    parse text = .error ⟨text⟩ ↔ ∀ operator : Operator, text ≠ operator.symbol := by
  constructor
  · rintro h operator hs
    rw [parse_eq_ok_iff.mpr hs] at h
    cases h
  · intro h
    have hnone : ofSymbol? text = none :=
      Option.eq_none_iff_forall_ne_some.mpr fun operator hs => h operator (ofSymbol?_eq_some_iff.mp hs)
    rw [parse, hnone]

theorem wireName_eq_symbol (operator : Operator) : operator.wireName = operator.symbol := by
  cases operator with
  | equals | lessThan | greaterThan | between | oneOf => rfl

theorem mem_all (operator : Operator) : operator ∈ all := by
  cases operator with
  | equals | lessThan | greaterThan | between | oneOf => decide

theorem ofWireName?_eq_some_iff {name : String} {operator : Operator} :
    ofWireName? name = some operator ↔ name = operator.symbol := by
  have hnames : (all.map wireName).Nodup := by decide
  rw [ofWireName?, find?_eq_some_iff_of_nodup hnames, wireName_eq_symbol, eq_comm]
  exact and_iff_right operator.mem_all

theorem ofWritten?_ofJson (operator : Operator) : ofWritten? (ofJson operator.toJson) = some operator := by
  rw [ofWritten?, toJson, Json.Written.variant?_ofJson, Option.bind_some, ofWireName?_eq_some_iff,
    wireName_eq_symbol]

/-- However a string is spelled in JSON, it is read as an operator by its characters. -/
theorem read?_eq_some_iff {json name : String} {units : List CodeUnit} {operator : Operator}
    (hjson : Json.Written.read? json = some (.quoted units)) (hname : CodeUnit.text? units = some name) :
    read? json = some operator ↔ name = operator.symbol := by
  have hvariant : (Written.quoted units).variant? = some name := hname
  rw [read?, hjson, Option.bind_some, ofWritten?, hvariant, Option.bind_some, ofWireName?_eq_some_iff]

theorem read?_text_eq_some_iff {name : String} {operator : Operator} :
    read? (Json.string name).text = some operator ↔ name = operator.symbol :=
  read?_eq_some_iff (Json.Written.read?_text _) (CodeUnit.text?_map_char name)

end Operator

namespace Submission

/-- Each field of a submission stands once among named members. -/
structure StandsIn (s : Submission) (named : Keyed Written) : Prop where
  layer : HoldsOnce named "layer_id" Written.string? s.layer
  field : HoldsOnce named "field" Written.string? s.field
  operator : HoldsOnce named "operator" Operator.ofWritten? s.operator
  text : HoldsOnce named "text" Written.string? s.text

theorem StandsIn.length_filter {s : Submission} {named : Keyed Written} (h : s.StandsIn named) :
    ∀ name ∈ fieldNames, (named.filter (·.1 = name)).length = 1 := by
  simp only [fieldNames, List.forall_mem_cons, List.not_mem_nil, false_implies, implies_true, and_true]
  exact ⟨h.layer.length_filter, h.field.length_filter, h.operator.length_filter, h.text.length_filter⟩

theorem ofWritten?_eq_some_iff {w : Written} {s : Submission} :
    ofWritten? w = some s ↔ ∃ layer field operator text,
      w.fields? fieldNames = some [some layer, some field, some operator, some text] ∧
      layer.string? = some s.layer ∧ field.string? = some s.field ∧
      Operator.ofWritten? operator = some s.operator ∧ text.string? = some s.text := by
  constructor
  · intro h
    obtain ⟨fields, hfields, h⟩ := Option.bind_eq_some_iff.mp h
    split at h
    · next layer field operator text =>
      obtain ⟨_, hl, h⟩ := Option.bind_eq_some_iff.mp h
      obtain ⟨_, hf, h⟩ := Option.bind_eq_some_iff.mp h
      obtain ⟨_, ho, h⟩ := Option.bind_eq_some_iff.mp h
      obtain ⟨_, ht, h⟩ := Option.bind_eq_some_iff.mp h
      cases h
      exact ⟨layer, field, operator, text, hfields, hl, hf, ho, ht⟩
    · cases h
  · rintro ⟨layer, field, operator, text, hfields, hl, hf, ho, ht⟩
    simp [ofWritten?, hfields, hl, hf, ho, ht]

theorem ofWritten?_object_eq_some_iff {members : List (List CodeUnit × Written)} {s : Submission} :
    ofWritten? (.object members) = some s ↔ ∃ named, Named members named ∧ s.StandsIn named := by
  rw [ofWritten?_eq_some_iff]
  constructor
  · rintro ⟨layer, field, operator, text, hfields, hl, hf, ho, ht⟩
    obtain ⟨named, hnamed, hone, hvalues⟩ := Json.Written.fields?_object_eq_some_iff.mp hfields
    simp only [fieldNames, List.map_cons, List.map_nil, List.cons.injEq, and_true] at hvalues
    have hstands (name : String) (hn : name ∈ fieldNames) {w : Written}
        (hw : some w = Keyed.get? name named) : named.filter (·.1 = name) = [(name, w)] :=
      (Keyed.get?_eq_some_iff_filter (hone name hn)).mp hw.symm
    obtain ⟨hlayer, hfield, hoperator, htext⟩ := hvalues
    exact ⟨named, hnamed, ⟨layer, hstands _ (by decide) hlayer, hl⟩,
      ⟨field, hstands _ (by decide) hfield, hf⟩, ⟨operator, hstands _ (by decide) hoperator, ho⟩,
      ⟨text, hstands _ (by decide) htext, ht⟩⟩
  · rintro ⟨named, hnamed, h⟩
    have hone (name : String) (hn : name ∈ fieldNames) :
        (named.filter (·.1 = name)).length ≤ 1 := (h.length_filter name hn).le
    obtain ⟨⟨layer, hlayer, hl⟩, ⟨field, hfield, hf⟩, ⟨operator, hoperator, ho⟩, text, htext, ht⟩ := h
    refine ⟨layer, field, operator, text, ?_, hl, hf, ho, ht⟩
    refine Json.Written.fields?_object_eq_some_iff.mpr ⟨named, hnamed, hone, ?_⟩
    simp only [fieldNames, List.map_cons, List.map_nil, Keyed.get?_eq_head?_filter, hlayer, hfield,
      hoperator, htext, List.head?_cons, Option.map_some]

theorem read?_eq_some_iff {json : String} {members : List (List CodeUnit × Written)}
    (hjson : Json.Written.read? json = some (.object members)) {s : Submission} :
    read? json = some s ↔ ∃ named, Named members named ∧ s.StandsIn named := by
  rw [read?, hjson, Option.bind_some, ofWritten?_object_eq_some_iff]

/-- A field that is missing or repeated spoils the object. -/
theorem read?_eq_none {json : String} {members : List (List CodeUnit × Written)}
    {named : Keyed Written} {name : String}
    (hjson : Json.Written.read? json = some (.object members)) (hnamed : Named members named)
    (hn : name ∈ fieldNames) (hlength : (named.filter (·.1 = name)).length ≠ 1) :
    read? json = none := by
  rw [Option.eq_none_iff_forall_ne_some]
  intro s hs
  obtain ⟨other, hother, h⟩ := (read?_eq_some_iff hjson).mp hs
  rw [hnamed.unique hother] at hlength
  exact hlength (h.length_filter name hn)

/-- The members of the object that is written for a submission. -/
def members (s : Submission) : List (String × Json) :=
  fieldNames.zip [.string s.layer, .string s.field, s.operator.toJson, .string s.text]

/-- Members in any order, with others under unknown names among them. -/
theorem standsIn_namedOf {s : Submission} {ms others : List (String × Json)}
    (hms : ms.Perm (s.members ++ others)) (hothers : ∀ m ∈ others, m.1 ∉ fieldNames) :
    s.StandsIn (namedOf ms) := by
  have hunknown (name : String) (hn : name ∈ fieldNames) : others.filter (·.1 = name) = [] := by
    rw [List.filter_eq_nil_iff]
    intro m hm hname
    exact hothers m hm (of_decide_eq_true hname ▸ hn)
  have honce {name : String} (hn : name ∈ fieldNames) {v : Json}
      (hv : s.members.filter (·.1 = name) = [(name, v)]) : ms.filter (·.1 = name) = [(name, v)] := by
    have hperm := hms.filter (·.1 = name)
    rwa [List.filter_append, hunknown name hn, List.append_nil, hv, List.perm_singleton] at hperm
  have hstring {name : String} (hn : name ∈ fieldNames) {text : String}
      (hv : s.members.filter (·.1 = name) = [(name, .string text)]) :
      HoldsOnce (namedOf ms) name Written.string? text :=
    holdsOnce_namedOf (honce hn hv) (Json.Written.string?_ofJson text)
  exact ⟨hstring (by decide) rfl, hstring (by decide) rfl,
    holdsOnce_namedOf (honce (by decide) rfl) s.operator.ofWritten?_ofJson, hstring (by decide) rfl⟩

theorem read?_text_of_perm {s : Submission} {ms others : List (String × Json)}
    (hms : ms.Perm (s.members ++ others)) (hothers : ∀ m ∈ others, m.1 ∉ fieldNames) :
    read? (Json.object ms).text = some s :=
  (read?_eq_some_iff (Json.Written.read?_text _)).mpr
    ⟨_, named_ofMembers ms, standsIn_namedOf hms hothers⟩

/-- A submission is read back from what is written for it, and from every object in which its
fields stand once, in any order and among others. If one of the names is missing or repeated
nothing is read. The symbol of an operator is the one string that is read as it, typed or as
JSON. -/
theorem read_by_fields_and_symbols :
    (∀ s : Submission, read? s.toJson.text = some s ∧
      ∀ ms others : List (String × Json), ms.Perm (s.members ++ others) →
        (∀ m ∈ others, m.1 ∉ fieldNames) → read? (Json.object ms).text = some s) ∧
    (∀ (json : String) (members : List (List CodeUnit × Written)),
      Json.Written.read? json = some (.object members) →
        (∀ s, read? json = some s ↔ ∃ named, Named members named ∧ s.StandsIn named) ∧
        ∀ named, Named members named → ∀ name ∈ fieldNames,
          (named.filter (·.1 = name)).length ≠ 1 → read? json = none) ∧
    (∀ (t : String) (operator : Operator), [Operator.parse t = .ok operator, t = operator.symbol,
      t = toString operator, Operator.read? (Json.string t).text = some operator].TFAE) ∧
    (∀ (json t : String) (units : List CodeUnit), Json.Written.read? json = some (.quoted units) →
      CodeUnit.text? units = some t →
        Operator.read? json = Operator.read? (Json.string t).text) ∧
    ∀ t : String, (∀ operator : Operator, t ≠ operator.symbol) →
      Operator.parse t = .error ⟨t⟩ ∧ Operator.read? (Json.string t).text = none := by
  refine ⟨fun s => ⟨?_, fun ms others => read?_text_of_perm⟩, fun json members hjson =>
    ⟨fun s => read?_eq_some_iff hjson, fun named hnamed name hn => read?_eq_none hjson hnamed hn⟩,
    ?_, ?_, ?_⟩
  · have hms : s.members.Perm (s.members ++ []) := by rw [List.append_nil]
    exact read?_text_of_perm hms (by simp)
  · intro t operator
    tfae_have 1 ↔ 2 := Operator.parse_eq_ok_iff
    tfae_have 2 ↔ 3 := Iff.rfl
    tfae_have 4 ↔ 2 := Operator.read?_text_eq_some_iff
    tfae_finish
  · intro json t units hjson ht
    apply Option.ext
    intro operator
    rw [Operator.read?_text_eq_some_iff]
    exact Operator.read?_eq_some_iff hjson ht
  · intro t ht
    refine ⟨Operator.parse_eq_error_iff.mpr ht, ?_⟩
    rw [Option.eq_none_iff_forall_ne_some]
    exact fun operator h => ht operator (Operator.read?_text_eq_some_iff.mp h)

/-- The fields stand in another order, with an unknown member that is no number, an escaped name
and an escaped symbol. Without a layer, or with two texts, nothing is read, and `<=` is no
operator. -/
theorem depth_below_read_from_any_order :
    let s : Submission := ⟨"wells", "depth", .lessThan, "5\n"⟩
    let twice := s.members ++ [("text", .string "")]
    let json := "\x7b\"remark\":1e999,\"\\u0074ext\":\"5\\u000a\",\"field\":\"depth\"," ++
      " \"operator\":\x7b\"\\u003c\":null\x7d,\"layer_id\":\"wells\"\x7d"
    read? (Json.object (s.members ++ [("remark", Json.null)]).reverse).text = some s ∧
    read? json = some s ∧
    (∃ members named, Json.Written.read? json = some (.object members) ∧
      Named members named ∧ s.StandsIn named) ∧
    read? (Json.object s.members.tail).text = none ∧ read? (Json.object twice).text = none ∧
    Operator.read? "\"\\u003c\"" = some .lessThan ∧
    Operator.parse "<=" = .error ⟨"<="⟩ ∧ Operator.read? (Json.string "<=").text = none := by
  intro s twice json
  obtain ⟨hback, hobject, hsame, hspelled, hother⟩ := read_by_fields_and_symbols
  have hreverse : read? (Json.object (s.members ++ [("remark", Json.null)]).reverse).text = some s :=
    (hback s).2 _ [("remark", Json.null)] (List.reverse_perm _) (by decide)
  have hread : read? json = some s := by decide +kernel
  have hlist : ((Json.Written.read? json).bind Written.list?).isNone = true := by decide +kernel
  obtain ⟨w, hjson, hw⟩ := Option.bind_eq_some_iff.mp hread
  obtain ⟨members, rfl⟩ : ∃ members, w = .object members := by
    cases w with
    | object members => exact ⟨members, rfl⟩
    | array elements =>
      rw [hjson] at hlist
      cases hlist
    | null | bool b | numeral n | quoted units => cases hw
  obtain ⟨named, hnamed, hstands⟩ := ((hobject json members hjson).1 s).mp hread
  have hnone : read? (Json.object s.members.tail).text = none :=
    (hobject _ _ (Json.Written.read?_text (.object s.members.tail))).2 _ (named_ofMembers _)
      "layer_id" (by decide) (by decide)
  have htwice : read? (Json.object twice).text = none :=
    (hobject _ _ (Json.Written.read?_text (.object twice))).2 _ (named_ofMembers twice) "text"
      (by decide) (by decide)
  have hless : Operator.read? "\"\\u003c\"" = some .lessThan := by
    have hstring : (Json.Written.read? "\"\\u003c\"").bind Written.string? = some "<" := by
      decide +kernel
    obtain ⟨w, hquoted, hw⟩ := Option.bind_eq_some_iff.mp hstring
    cases w with
    | quoted units =>
      rw [hspelled _ "<" units hquoted hw]
      exact ((hsame "<" .lessThan).out 3 1).mpr rfl
    | null | bool b | numeral n | array elements | object members => cases hw
  have hnoOperator : ∀ operator : Operator, "<=" ≠ operator.symbol := by
    intro operator
    cases operator with
    | equals | lessThan | greaterThan | between | oneOf => decide
  exact ⟨hreverse, hread, ⟨members, named, hjson, hnamed, hstands⟩, hnone, htwice, hless,
    hother "<=" hnoOperator⟩

end Submission

end FeatureSieve
