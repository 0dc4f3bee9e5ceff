import FeatureSieve.Json.Quoted

/-! # Quoted strings are read back

Every character survives quoting: the escaped ones by their escapes, control characters by
their codes, and all others as themselves. No surrogate is ever written.
-/

namespace FeatureSieve.Json

namespace CodeUnit

theorem ofHex?_hexDigit : ∀ n < 0x20,
    ofHex? '0' '0' (hexDigit (n / 16)) (hexDigit (n % 16)) = some (.char (Char.ofNat n)) := by
  decide

/-- A body with one character in front of it. -/
def consChar (c : Char) :
    Option (List CodeUnit × List Char) → Option (List CodeUnit × List Char) :=
  Option.map fun (units, after) => (.char c :: units, after)

theorem readBody?_letter {e c : Char} (hu : e ≠ 'u') (he : ofEscape? e = some c)
    (body : List Char) : readBody? ('\\' :: e :: body) = consChar c (readBody? body) := by
  rw [readBody?.eq_def]
  split
  · next h => cases h
  · next h => cases h
  · next h =>
    cases h
    exact absurd rfl hu
  · next h =>
    cases h
    rw [he]
    cases readBody? body with
    | none | some r => rfl
  · next hne h =>
    cases h
    exact absurd rfl (hne _ _ rfl)

theorem readBody?_code {a b c d : Char} {unit : Char} (h : ofHex? a b c d = some (.char unit))
    (body : List Char) :
    readBody? ('\\' :: 'u' :: a :: b :: c :: d :: body) = consChar unit (readBody? body) := by
  rw [readBody?, h]
  cases readBody? body with
  | none | some r => rfl

theorem readBody?_plain {c : Char} (hquote : c ≠ '"') (hslash : c ≠ '\\') (hcode : ¬ c.toNat < 0x20)
    (body : List Char) : readBody? (c :: body) = consChar c (readBody? body) := by
  rw [readBody?.eq_def]
  split
  · next h => cases h
  · next h =>
    cases h
    exact absurd rfl hquote
  · next h =>
    cases h
    exact absurd rfl hslash
  · next h =>
    cases h
    exact absurd rfl hslash
  · next h =>
    cases h
    rw [if_neg hcode]
    cases readBody? body with
    | none | some r => rfl

/-- How a character is escaped, if it is. -/
theorem escape_cases (c : Char) :
    (∃ e, e ≠ 'u' ∧ ofEscape? e = some c ∧ escape c = ['\\', e]) ∨
    (c.toNat < 0x20 ∧
      escape c = ['\\', 'u', '0', '0', hexDigit (c.toNat / 16), hexDigit (c.toNat % 16)]) ∨
    (c ≠ '"' ∧ c ≠ '\\' ∧ ¬ c.toNat < 0x20 ∧ escape c = [c]) := by
  by_cases hletter : c ∈ ['"', '\\', '\x08', '\x0c', '\n', '\r', '\t']
  · left
    simp only [List.mem_cons, List.not_mem_nil, or_false] at hletter
    rcases hletter with rfl | rfl | rfl | rfl | rfl | rfl | rfl
    · exact ⟨'"', by decide, rfl, rfl⟩
    · exact ⟨'\\', by decide, rfl, rfl⟩
    · exact ⟨'b', by decide, rfl, rfl⟩
    · exact ⟨'f', by decide, rfl, rfl⟩
    · exact ⟨'n', by decide, rfl, rfl⟩
    · exact ⟨'r', by decide, rfl, rfl⟩
    · exact ⟨'t', by decide, rfl, rfl⟩
  · right
    simp only [List.mem_cons, List.not_mem_nil, or_false, not_or] at hletter
    obtain ⟨hquote, hslash, hb, hf, hn, hr, ht⟩ := hletter
    simp only [escape, hquote, hslash, hb, hf, hn, hr, ht, if_false]
    split
    · next hcode => exact Or.inl ⟨hcode, rfl⟩
    · next hcode => exact Or.inr ⟨hquote, hslash, hcode, rfl⟩

theorem readBody?_escape_append (c : Char) (body : List Char) :
    readBody? (escape c ++ body) = consChar c (readBody? body) := by
  rcases escape_cases c with ⟨e, hu, he, hc⟩ | ⟨hcode, hc⟩ | ⟨hquote, hslash, hcode, hc⟩
  · rw [hc]
    exact readBody?_letter hu he body
  · have hread := ofHex?_hexDigit c.toNat hcode
    rw [Char.ofNat_toNat] at hread
    rw [hc]
    exact readBody?_code hread body
  · rw [hc]
    exact readBody?_plain hquote hslash hcode body

theorem readBody?_flatMap_escape (cs rest : List Char) :
    readBody? (cs.flatMap escape ++ '"' :: rest) = some (cs.map .char, rest) := by
  induction cs with
  | nil => rfl
  | cons c cs ih =>
    rw [List.flatMap_cons, List.append_assoc, readBody?_escape_append, ih]
    rfl

theorem join?_map_char (cs : List Char) : join? (cs.map .char) = some cs := by
  induction cs with
  | nil => rfl
  | cons c cs ih => rw [List.map_cons, join?, ih, Option.map_some]

theorem text?_map_char (s : String) : text? (s.toList.map .char) = some s := by
  rw [text?, join?_map_char, Option.map_some, String.ofList_toList]

end CodeUnit

end FeatureSieve.Json
