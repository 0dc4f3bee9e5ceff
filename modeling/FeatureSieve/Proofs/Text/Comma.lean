import FeatureSieve.Text.Comma
import Mathlib.Data.List.Basic
import Mathlib.Data.List.TakeWhile

/-! # Texts with one comma

A text in two segments has exactly one comma, and cutting it there gives the same two
parts. So what is screened by segments may be read by cutting.
-/

namespace FeatureSieve.Text

theorem segments_of_not_mem {cs : List Char} (h : ',' ∉ cs) : segments cs = [cs] := by
  induction cs with
  | nil => rfl
  | cons c rest ih =>
    have hc : c ≠ ',' := fun he => h (he ▸ List.mem_cons_self)
    have hr := mt (List.mem_cons_of_mem c) h
    simp [segments, hc, ih hr]

theorem segments_append_comma {before : List Char} (h : ',' ∉ before) (rest : List Char) :
    segments (before ++ ',' :: rest) = before :: segments rest := by
  induction before with
  | nil => simp [segments]
  | cons c before ih =>
    have hc : c ≠ ',' := fun he => h (he ▸ List.mem_cons_self)
    have hr := mt (List.mem_cons_of_mem c) h
    simp [segments, hc, ih hr]

theorem decide_ne_comma_of_mem {cs : List Char} (h : ',' ∉ cs) :
    ∀ c ∈ cs, decide (c ≠ ',') = true := by
  intro c hc
  have hne : c ≠ ',' := fun he => h (he ▸ hc)
  exact decide_eq_true hne

theorem cut_append_comma {before : List Char} (h : ',' ∉ before) (rest : List Char) :
    cut (before ++ ',' :: rest) = (before, rest) := by
  have hb := decide_ne_comma_of_mem h
  unfold cut
  rw [List.takeWhile_append_of_pos hb, List.dropWhile_append_of_pos hb]
  simp

theorem length_segments_eq_two_iff {cs : List Char} :
    (segments cs).length = 2 ↔ ∃ before rest, cs = before ++ ',' :: rest ∧ ',' ∉ before ∧ ',' ∉ rest := by
  rw [length_segments]
  constructor
  · intro h
    have hm : ',' ∈ cs := List.count_pos_iff.mp (by omega)
    obtain ⟨before, rest, rfl, hb⟩ := List.eq_append_cons_of_mem hm
    refine ⟨before, rest, rfl, hb, ?_⟩
    have hzero : before.count ',' = 0 := List.count_eq_zero.mpr hb
    rw [List.count_append, List.count_cons_self] at h
    exact List.count_eq_zero.mp (by omega)
  · rintro ⟨before, rest, rfl, hb, hr⟩
    rw [List.count_append, List.count_cons_self, List.count_eq_zero.mpr hb,
      List.count_eq_zero.mpr hr]

theorem cut_of_not_mem {cs : List Char} (h : ',' ∉ cs) : cut cs = (cs, []) := by
  have hcs := decide_ne_comma_of_mem h
  rw [cut, List.takeWhile_eq_self_iff.mpr hcs, List.dropWhile_eq_nil_iff.mpr hcs, List.drop_nil]

theorem segments_eq_splitOn (cs : List Char) : segments cs = cs.splitOn ',' := by
  induction cs with
  | nil => rfl
  | cons c rest ih =>
    rw [segments, List.splitOn_eq_splitOnP, List.splitOnP_cons_eq_if_modifyHead,
      ← List.splitOn_eq_splitOnP, ← ih]
    by_cases hc : c = ','
    · simp [hc]
    · obtain ⟨first, others, hseg⟩ := List.exists_cons_of_ne_nil (segments_ne_nil rest)
      simp [hc, hseg]

/-- There is only one way to take a text with one comma apart. -/
theorem eq_of_append_comma {before rest before' rest' : List Char} (hb : ',' ∉ before)
    (hr : ',' ∉ rest) (h : before ++ ',' :: rest = before' ++ ',' :: rest') :
    before = before' ∧ rest = rest' := by
  have hcount := congrArg (List.count ',') h
  rw [List.count_append, List.count_append, List.count_cons_self, List.count_cons_self,
    List.count_eq_zero.mpr hb, List.count_eq_zero.mpr hr] at hcount
  have hb' : ',' ∉ before' := List.count_eq_zero.mp (by omega)
  have hcut := cut_append_comma hb rest
  rw [h, cut_append_comma hb' rest'] at hcut
  exact ⟨(congrArg Prod.fst hcut).symm, (congrArg Prod.snd hcut).symm⟩

end FeatureSieve.Text
