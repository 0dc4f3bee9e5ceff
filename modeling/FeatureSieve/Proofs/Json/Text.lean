import FeatureSieve.Json.Printer
import FeatureSieve.Json.Written
import FeatureSieve.Proofs.Json.Numeral
import FeatureSieve.Proofs.Json.Quoted
import FeatureSieve.Proofs.Keyed

/-! # Compact text is read back

The text of a value starts with the tree that spells it, whatever value it is and however deep.
A tree gives its value back where the keys of each object are distinct and each double is read
back, so a compact text is read as the value that it was written for, unless that nests too deep.
-/

namespace FeatureSieve.Json

open Numeral (goesOn)

namespace Token

/-- The text starts with a token, and `rest` follows it. -/
def Fronts (token : Token) (rest cs : List Char) : Prop :=
  ∃ c tail, cs = c :: tail ∧ isSpace c = false ∧ read? c tail = some (token, rest)

theorem fronts_punctuation {c : Char} {token : Token} (h : punctuation? c = some token)
    (rest : List Char) : Fronts token rest (c :: rest) := by
  refine ⟨c, rest, rfl, ?_, by rw [read?, h]⟩
  unfold punctuation? at h
  split at h
  · decide
  · decide
  · decide
  · decide
  · decide
  · decide
  · cases h

theorem fronts_quote (cs rest : List Char) :
    Fronts (.quoted (cs.map .char)) rest (quote cs ++ rest) := by
  refine ⟨'"', cs.flatMap escape ++ '"' :: rest, by simp [quote], rfl, ?_⟩
  have hread : read? '"' (cs.flatMap escape ++ '"' :: rest) =
      quoted? (cs.flatMap escape ++ '"' :: rest) := rfl
  rw [hread, quoted?, CodeUnit.readBody?_flatMap_escape]
  rfl

/-- A digit or a minus starts a numeral and nothing else. -/
theorem read?_of_numeral {c : Char} (h : c.isDigit = true ∨ c = '-') (tail : List Char) :
    isSpace c = false ∧ read? c tail = numeral? (c :: tail) := by
  have hother : ∀ d ∈ [' ', '\t', '\n', '\r', '[', ']', '\x7b', '\x7d', ':', ',', '"'],
      ¬ (d.isDigit = true ∨ d = '-') := by simp
  have hc : ∀ d ∈ [' ', '\t', '\n', '\r', '[', ']', '\x7b', '\x7d', ':', ',', '"'], c ≠ d :=
    fun d hd hcd => hother d hd (hcd ▸ h)
  have hpunctuation : punctuation? c = none := by
    unfold punctuation?
    split
    · exact absurd rfl (hc '[' (by decide))
    · exact absurd rfl (hc ']' (by decide))
    · exact absurd rfl (hc '\x7b' (by decide))
    · exact absurd rfl (hc '\x7d' (by decide))
    · exact absurd rfl (hc ':' (by decide))
    · exact absurd rfl (hc ',' (by decide))
    · rfl
  constructor
  · simp [isSpace, hc]
  · rw [read?, hpunctuation]
    simp only [if_neg (hc '"' (by decide)), if_pos h]

theorem fronts_numeral {n : Numeral} (hn : n.IsSpelled) (hs : n.isStrict = true) {rest : List Char}
    (hr : EndsBefore goesOn rest) : Fronts (.numeral n) rest (n.chars ++ rest) := by
  have hfirst : ∃ c tail, n.chars = c :: tail ∧ (c.isDigit = true ∨ c = '-') := by
    obtain ⟨c, cs, hcs⟩ := List.exists_cons_of_ne_nil hn.whole_ne
    have hdigit : c.isDigit = true := hn.whole c (hcs ▸ List.mem_cons_self)
    cases hsign : n.sign with
    | none => exact ⟨c, _, by rw [Numeral.chars, hsign, hcs]; rfl, Or.inl hdigit⟩
    | some s =>
      cases s with
      | plus => exact absurd hsign (Numeral.isStrict_iff.mp hs).1
      | minus => exact ⟨'-', _, by rw [Numeral.chars, hsign]; rfl, Or.inr rfl⟩
  obtain ⟨c, tail, hchars, hc⟩ := hfirst
  obtain ⟨hspace, hread⟩ := read?_of_numeral hc (tail ++ rest)
  refine ⟨c, tail ++ rest, by rw [hchars, List.cons_append], hspace, ?_⟩
  rw [hread, ← List.cons_append, ← hchars, numeral?, Numeral.split?_chars_append hn hr,
    Option.filter_some, if_pos hs]
  rfl

end Token

mutual

/-- The keys of each object are distinct. -/
def IsKeyed : Json → Prop
  | .array elements => ElementsKeyed elements
  | .object members => (Keyed.keys members).Nodup ∧ MembersKeyed members
  | _ => True

def ElementsKeyed : List Json → Prop
  | [] => True
  | v :: rest => v.IsKeyed ∧ ElementsKeyed rest

def MembersKeyed : List (String × Json) → Prop
  | [] => True
  | (_, v) :: rest => v.IsKeyed ∧ MembersKeyed rest

end

mutual

/-- The doubles in a value. -/
def doubles : Json → List FiniteDouble
  | .number n => n.doubles
  | .array elements => elementsDoubles elements
  | .object members => membersDoubles members
  | _ => []

def elementsDoubles : List Json → List FiniteDouble
  | [] => []
  | v :: rest => v.doubles ++ elementsDoubles rest

def membersDoubles : List (String × Json) → List FiniteDouble
  | [] => []
  | (_, v) :: rest => v.doubles ++ membersDoubles rest

end

namespace Written

mutual

/-- The tree that the compact text of a value spells. -/
def ofJson : Json → Written
  | .null => .null
  | .bool b => .bool b
  | .number n => .numeral n.numeral
  | .string s => .quoted (s.toList.map .char)
  | .array elements => .array (ofElements elements)
  | .object members => .object (ofMembers members)

def ofElements : List Json → List Written
  | [] => []
  | v :: rest => ofJson v :: ofElements rest

def ofMembers : List (String × Json) → List (List CodeUnit × Written)
  | [] => []
  | (key, v) :: rest => (key.toList.map .char, ofJson v) :: ofMembers rest

end

mutual

theorem depth_ofJson (v : Json) : (ofJson v).depth = v.depth := by
  cases v with
  | null | bool b | number n | string s => rfl
  | array elements => rw [ofJson, depth, Json.depth, elementsDepth_ofElements elements]
  | object members => rw [ofJson, depth, Json.depth, membersDepth_ofMembers members]

theorem elementsDepth_ofElements (vs : List Json) :
    elementsDepth (ofElements vs) = Json.elementsDepth vs := by
  cases vs with
  | nil => rfl
  | cons v rest =>
    rw [ofElements, elementsDepth, Json.elementsDepth, depth_ofJson v,
      elementsDepth_ofElements rest]

theorem membersDepth_ofMembers (ms : List (String × Json)) :
    membersDepth (ofMembers ms) = Json.membersDepth ms := by
  cases ms with
  | nil => rfl
  | cons m rest =>
    obtain ⟨key, v⟩ := m
    rw [ofMembers, membersDepth, Json.membersDepth, depth_ofJson v, membersDepth_ofMembers rest]

end

section Values

variable [DoubleReader]

theorem elementValues?_ofElements_cons {v : Json} {rest vs : List Json}
    (h : elementValues? (ofElements (v :: rest)) = some vs) : ∃ w ws, (ofJson v).value? = some w ∧
      elementValues? (ofElements rest) = some ws ∧ vs = w :: ws := by
  rw [ofElements, elementValues?] at h
  obtain ⟨w, hw, h⟩ := Option.bind_eq_some_iff.mp h
  obtain ⟨ws, hws, h⟩ := Option.bind_eq_some_iff.mp h
  exact ⟨w, ws, hw, hws, (Option.some.inj h).symm⟩

/-- The head of an expression is a string, so it is the same for every reader. -/
theorem value?_ofJson_headed {head : String} {args : List Json} {v : Json}
    (h : (ofJson (.array (.string head :: args))).value? = some v) : ∃ vs,
      elementValues? (ofElements args) = some vs ∧ v = .array (.string head :: vs) := by
  rw [ofJson, value?] at h
  obtain ⟨_, hall, rfl⟩ := Option.map_eq_some_iff.mp h
  obtain ⟨w, vs, hw, hvs, rfl⟩ := elementValues?_ofElements_cons hall
  rw [ofJson, value?, CodeUnit.text?_map_char] at hw
  cases hw
  exact ⟨vs, hvs, rfl⟩

mutual

theorem value?_ofJson (v : Json) (h : v.IsKeyed) (hd : ∀ x ∈ v.doubles, x.ReadsBack) :
    (ofJson v).value? = some v := by
  cases v with
  | null | bool b => rfl
  | number n =>
    rw [ofJson, value?, n.ofNumeral?_numeral hd]
    rfl
  | string s =>
    rw [ofJson, value?, CodeUnit.text?_map_char]
    rfl
  | array elements =>
    rw [ofJson, value?, elementValues?_ofElements elements h hd]
    rfl
  | object members =>
    rw [ofJson, value?, memberValues?_ofMembers members h.2 hd, Option.map_some,
      Keyed.ofPairs_of_nodup h.1]

theorem elementValues?_ofElements (vs : List Json) (h : ElementsKeyed vs)
    (hd : ∀ x ∈ elementsDoubles vs, x.ReadsBack) : elementValues? (ofElements vs) = some vs := by
  cases vs with
  | nil => rfl
  | cons v rest =>
    rw [elementsDoubles, List.forall_mem_append] at hd
    rw [ofElements, elementValues?, value?_ofJson v h.1 hd.1,
      elementValues?_ofElements rest h.2 hd.2]
    rfl

theorem memberValues?_ofMembers (ms : List (String × Json)) (h : MembersKeyed ms)
    (hd : ∀ x ∈ membersDoubles ms, x.ReadsBack) : memberValues? (ofMembers ms) = some ms := by
  cases ms with
  | nil => rfl
  | cons m rest =>
    obtain ⟨key, v⟩ := m
    rw [membersDoubles, List.forall_mem_append] at hd
    rw [ofMembers, memberValues?, CodeUnit.text?_map_char, value?_ofJson v h.1 hd.1,
      memberValues?_ofMembers rest h.2 hd.2]
    rfl

end

end Values

section Reading

open State

variable {state next : State} {stack : List Frame} {rest cs : List Char}

/-- One token takes the reader one step on. -/
theorem readFrom_of_fronts {token : Token} (h : token.Fronts rest cs) (hr : state.result? = none)
    (hs : state.step token = some next) : readFrom state cs = readFrom next rest := by
  obtain ⟨c, tail, rfl, hspace, hread⟩ := h
  rw [readFrom.eq_def]
  simp only [hr, hspace, Bool.false_eq_true, if_false]
  split
  · next hnone =>
    rw [hread] at hnone
    cases hnone
  · next token' after hsome =>
    rw [hread] at hsome
    cases hsome
    rw [hs]

theorem readFrom_punctuation {c : Char} {token : Token} (hc : Token.punctuation? c = some token)
    (hr : state.result? = none) (hs : state.step token = some next) :
    readFrom state (c :: rest) = readFrom next rest :=
  readFrom_of_fronts (Token.fronts_punctuation hc rest) hr hs

/-- A value may come next, inside the open containers. -/
structure State.Awaits (state : State) (stack : List Frame) : Prop where
  result? : state.result? = none
  step : ∀ token, token ≠ .closeArray → state.step token = begin stack token

theorem awaits_value (stack : List Frame) : (value stack).Awaits stack := ⟨rfl, fun _ _ => rfl⟩

theorem awaits_openedArray (stack : List Frame) :
    (openedArray stack).Awaits (.elements [] :: stack) := by
  refine ⟨rfl, fun token h => ?_⟩
  cases token with
  | closeArray => exact absurd rfl h
  | openArray | openObject | closeObject | colon | comma | null | bool b | numeral n
  | quoted units => rfl

/-- A key and its colon come before a value. -/
theorem readFrom_key {before : List (List CodeUnit × Written)} (hr : state.result? = none)
    (hs : ∀ units, state.step (.quoted units) = some (colon before units stack)) (key : String) :
    readFrom state (quote key.toList ++ ':' :: cs) =
      readFrom (value (.members before (key.toList.map .char) :: stack)) cs := by
  rw [readFrom_of_fronts (Token.fronts_quote key.toList _) hr (hs _)]
  exact readFrom_punctuation rfl rfl rfl

theorem separated_cons (xs : List Char) (more : List (List Char)) :
    separated (xs :: more) = xs ++ more.flatMap (',' :: ·) := by
  induction more generalizing xs with
  | nil => simp [separated]
  | cons ys more ih =>
    have hstep : separated (xs :: ys :: more) = xs ++ ',' :: separated (ys :: more) := by
      simp [separated]
    rw [hstep, ih, List.flatMap_cons, List.cons_append]

/-- What follows a value inside a container does not belong to its last numeral. -/
theorem endsBefore_flatMap_comma (more : List (List Char)) {close : Char}
    (h : goesOn close = false) : EndsBefore goesOn (more.flatMap (',' :: ·) ++ close :: rest) := by
  cases more with
  | nil =>
    rintro c ⟨⟩
    exact h
  | cons xs more =>
    rintro c ⟨⟩
    rfl

mutual

/-- The text of a value takes the reader from where a value may come next to where one is
complete. The containers that are open stay open, so the induction is for all of them. -/
theorem readFrom_chars (v : Json) {state : State} {stack : List Frame} {rest : List Char}
    (h : state.Awaits stack) (hr : EndsBefore goesOn rest) :
    readFrom state (v.chars ++ rest) = readFrom (complete (ofJson v) stack) rest := by
  cases v with
  | null => exact readFrom_of_fronts ⟨'n', _, rfl, rfl, rfl⟩ h.result? (h.step .null (by decide))
  | bool b =>
    cases b with
    | false =>
      exact readFrom_of_fronts ⟨'f', _, rfl, rfl, rfl⟩ h.result? (h.step (.bool false) (by decide))
    | true =>
      exact readFrom_of_fronts ⟨'t', _, rfl, rfl, rfl⟩ h.result? (h.step (.bool true) (by decide))
  | number n =>
    obtain ⟨_, _, hw⟩ := n.exists_numeral_writes
    exact readFrom_of_fronts (Token.fronts_numeral hw.isSpelled hw.isStrict hr) h.result?
      (h.step (.numeral n.numeral) (by simp))
  | string s =>
    exact readFrom_of_fronts (Token.fronts_quote s.toList rest) h.result?
      (h.step (.quoted _) (by simp))
  | array elements =>
    have hopen {after : List Char} :
        readFrom state ('[' :: after) = readFrom (openedArray stack) after :=
      readFrom_punctuation rfl h.result? (h.step .openArray (by decide))
    cases elements with
    | nil =>
      rw [chars]
      exact hopen.trans (readFrom_punctuation rfl rfl rfl)
    | cons v more =>
      rw [chars, elementChars, separated_cons]
      simp only [List.cons_append, List.append_assoc, List.nil_append]
      rw [hopen, readFrom_chars v (awaits_openedArray stack) (endsBefore_flatMap_comma _ rfl),
        readFrom_elements more]
      rfl
  | object members =>
    have hopen {after : List Char} :
        readFrom state ('\x7b' :: after) = readFrom (openedObject stack) after :=
      readFrom_punctuation rfl h.result? (h.step .openObject (by decide))
    cases members with
    | nil =>
      rw [chars]
      exact hopen.trans (readFrom_punctuation rfl rfl rfl)
    | cons m more =>
      obtain ⟨key, v⟩ := m
      rw [chars, memberChars, separated_cons]
      simp only [List.cons_append, List.append_assoc, List.nil_append]
      rw [hopen, readFrom_key rfl (fun _ => rfl),
        readFrom_chars v (awaits_value _) (endsBefore_flatMap_comma _ rfl), readFrom_members more]
      rfl

theorem readFrom_elements (vs : List Json) (w : Written) (before : List Written)
    (stack : List Frame) (rest : List Char) :
    readFrom (complete w (.elements before :: stack))
        ((elementChars vs).flatMap (',' :: ·) ++ ']' :: rest) =
      readFrom (complete (.array ((w :: before).reverse ++ ofElements vs)) stack) rest := by
  cases vs with
  | nil =>
    rw [ofElements, List.append_nil]
    exact readFrom_punctuation rfl rfl rfl
  | cons v more =>
    have hcomma {after : List Char} :
        readFrom (complete w (.elements before :: stack)) (',' :: after) =
          readFrom (value (.elements (w :: before) :: stack)) after :=
      readFrom_punctuation rfl rfl rfl
    rw [elementChars, List.flatMap_cons, ofElements]
    simp only [List.cons_append, List.append_assoc]
    rw [hcomma, readFrom_chars v (awaits_value _) (endsBefore_flatMap_comma _ rfl),
      readFrom_elements more]
    simp

theorem readFrom_members (ms : List (String × Json)) (w : Written) (units : List CodeUnit)
    (before : List (List CodeUnit × Written)) (stack : List Frame) (rest : List Char) :
    readFrom (complete w (.members before units :: stack))
        ((memberChars ms).flatMap (',' :: ·) ++ '\x7d' :: rest) =
      readFrom (complete (.object (((units, w) :: before).reverse ++ ofMembers ms)) stack) rest := by
  cases ms with
  | nil =>
    rw [ofMembers, List.append_nil]
    exact readFrom_punctuation rfl rfl rfl
  | cons m more =>
    obtain ⟨name, v⟩ := m
    have hcomma {after : List Char} :
        readFrom (complete w (.members before units :: stack)) (',' :: after) =
          readFrom (key ((units, w) :: before) stack) after :=
      readFrom_punctuation rfl rfl rfl
    rw [memberChars, List.flatMap_cons, ofMembers]
    simp only [List.cons_append, List.append_assoc]
    rw [hcomma, readFrom_key rfl (fun _ => rfl),
      readFrom_chars v (awaits_value _) (endsBefore_flatMap_comma _ rfl), readFrom_members more]
    simp

end

/-- The text of a value is read to its end. -/
theorem readFront?_text (v : Json) : readFront? v.text = some (ofJson v, []) := by
  have hend : EndsBefore goesOn [] := by simp [EndsBefore]
  have hread := readFrom_chars v (awaits_value []) hend
  rw [List.append_nil] at hread
  rw [readFront?, text, String.toList_ofList, hread, readFrom.eq_def]
  rfl

end Reading

end Written

/-- What was written is read, unless it nests too deep. -/
theorem readFront?_text [DoubleReader] {v : Json} (h : v.IsKeyed)
    (hd : ∀ x ∈ v.doubles, x.ReadsBack) : readFront? v.text = if v.depth ≤ nestingLimit then some (v, []) else none := by
  rw [readFront?, Written.readFront?_text]
  simp only [Option.bind_eq_bind, Option.bind_some, Written.valueWithin?, Written.depth_ofJson,
    Written.value?_ofJson v h hd]
  split
  · rfl
  · rfl

end FeatureSieve.Json
