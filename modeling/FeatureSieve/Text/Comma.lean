/-! # Comma-separated text

`segments` cuts at every comma and `cut` at the first one only.
-/

namespace FeatureSieve.Text

/-- The parts between the commas; always one more than there are commas. -/
def segments : List Char → List (List Char)
  | [] => [[]]
  | c :: rest =>
    let parts := segments rest
    if c = ',' then [] :: parts else (c :: parts.headD []) :: parts.tail

/-- What stands before the first comma and what follows it. -/
def cut (cs : List Char) : List Char × List Char :=
  (cs.takeWhile (· ≠ ','), (cs.dropWhile (· ≠ ',')).drop 1)

/-- Some comma has a space right before or after it. -/
def hasSpaceAtComma : List Char → Bool
  | c :: d :: rest => (c = ',' && d = ' ') || (c = ' ' && d = ',') || hasSpaceAtComma (d :: rest)
  | _ => false

theorem segments_ne_nil (cs : List Char) : segments cs ≠ [] := by
  cases cs with
  | nil => simp [segments]
  | cons c rest => simp only [segments]; split <;> simp

theorem length_segments (cs : List Char) : (segments cs).length = cs.count ',' + 1 := by
  induction cs with
  | nil => rfl
  | cons c rest ih =>
    have hpos : 0 < (segments rest).length := List.length_pos_iff.2 (segments_ne_nil rest)
    by_cases hc : c = ','
    · simp [segments, hc, ih]
    · have hcount : (c :: rest).count ',' = rest.count ',' := by simp [hc]
      simp only [segments, hc, if_false, List.length_cons, List.length_tail, hcount]
      omega

end FeatureSieve.Text
