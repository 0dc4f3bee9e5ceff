import FeatureSieve.Proofs.History.Locality
import FeatureSieve.Proofs.Viewer.OneFilter

/-! # Layers apart

The requests of a run that concern one layer are its submissions and the reversions of what
these were accepted as. Put to a new viewer alone, they get the answers they got in the run,
up to the numbers of the entries, and leave the layer as the run leaves it. So it does not
matter how the requests of different layers are interleaved.
-/

namespace FeatureSieve

/-! ## What concerns a layer -/

inductive Answer where
  | submitted (result : Except Failure FilterId)
  | checked (result : Except Rejection Unit)
  | reverted (result : Except Failure Entry)

section Renumbering

variable (number : FilterId → FilterId)

def Failure.renumber : Failure → Failure
  | entryNotFound id => entryNotFound (number id)
  | failure => failure

def Entry.renumber (e : Entry) : Entry := ⟨e.toFilter, number e.id⟩

def Request.renumber : Request → Request
  | revert id => revert (number id)
  | q => q

def Answer.renumber : Answer → Answer
  | submitted (.ok id) => submitted (.ok (number id))
  | submitted (.error failure) => submitted (.error (failure.renumber number))
  | checked result => checked result
  | reverted (.ok e) => reverted (.ok (e.renumber number))
  | reverted (.error failure) => reverted (.error (failure.renumber number))

end Renumbering

theorem Failure.renumber_eq_self {failure : Failure} (h : ∀ id, failure ≠ .entryNotFound id)
    (number : FilterId → FilterId) : failure.renumber number = failure := by
  cases failure with
  | entryNotFound id => exact absurd rfl (h id)
  | _ => rfl

def Viewer.answer {ε : Type} [Renderer ε] (s : Viewer ε) : Request → Answer
  | .submit i => .submitted (s.submit i).1
  | .check i => .checked (s.check i)
  | .revert id => .reverted (s.revert id).1

namespace Turn

variable {ε : Type} [Renderer ε]

def answer (x : Turn ε) : Answer := x.before.answer x.request

/-- The id of an accepted submission to the layer. -/
def issued (layer : String) (x : Turn ε) : List FilterId :=
  match x.request with
  | .submit i =>
    match (x.before.submit i).1 with
    | .ok id => if i.layer = layer then [id] else []
    | .error _ => []
  | _ => []

/-- Whether the turn is a submission to the layer, or reverts what one was accepted as. -/
def isOn (layer : String) (earlier : List FilterId) (x : Turn ε) : Bool :=
  match x.request with
  | .submit i => i.layer = layer
  | .check _ => false
  | .revert id => id ∈ earlier

theorem issued_of_not_isOn {layer : String} {earlier : List FilterId} {x : Turn ε}
    (h : x.isOn layer earlier = false) : x.issued layer = [] := by
  obtain ⟨s, q⟩ := x
  cases q with
  | submit i =>
    have hne : i.layer ≠ layer := by simpa [isOn] using h
    unfold issued
    cases hs : (s.submit i).1 <;> simp [hs, hne]
  | check i => rfl
  | revert id => rfl

end Turn

section Concerning

variable {ε : Type} [Renderer ε]

/-- The ids of the accepted submissions to a layer, in order. -/
def issuedTo (layer : String) (xs : List (Turn ε)) : List FilterId := xs.flatMap (Turn.issued layer)

/-- The turns that concern a layer, whose ids `earlier` were issued before them. -/
def turnsOn (layer : String) : (earlier : List FilterId) → List (Turn ε) → List (Turn ε)
  | _, [] => []
  | earlier, x :: rest =>
    let later := turnsOn layer (earlier ++ x.issued layer) rest
    if x.isOn layer earlier then x :: later else later

end Concerning

/-- The ids in order of issue, numbered one by one from `n`. -/
def numbered (n : Nat) (ids : List FilterId) (id : FilterId) : FilterId := ⟨n + ids.idxOf id⟩

theorem numbered_inj {n : Nat} {ids : List FilterId} {a b : FilterId} (ha : a ∈ ids)
    (h : numbered n ids a = numbered n ids b) : a = b := by
  have hidx : ids.idxOf a = ids.idxOf b := Nat.add_left_cancel (congrArg FilterId.number h)
  exact (List.idxOf_inj ha).mp hidx

theorem numbered_of_new {n : Nat} {ids earlier : List FilterId} {id : FilterId} (hid : id ∉ earlier)
    (h : earlier ++ [id] <+: ids) : numbered n ids id = ⟨n + earlier.length⟩ := by
  obtain ⟨rest, rfl⟩ := h
  unfold numbered
  rw [List.append_assoc, List.idxOf_append_of_notMem hid]
  simp

namespace Viewer

section Alone

variable {ε : Type} [Renderer ε]

/-- How the entries on a layer are numbered where there are no others. -/
def numberAlone (s : Viewer ε) (layer : String) (qs : List Request) : FilterId → FilterId :=
  numbered s.history.nextNumber (issuedTo layer (s.turns qs))

/-- The requests that concern a layer, without the others. -/
def alone (s : Viewer ε) (layer : String) (qs : List Request) : List Request :=
  (turnsOn layer [] (s.turns qs)).map fun x => x.request.renumber (s.numberAlone layer qs)

omit [Renderer ε] in
theorem judge_ne_entryNotFound {s : Viewer ε} {i : Submission} {failure : Failure}
    (h : s.judge i = .error failure) (id : FilterId) : failure ≠ .entryNotFound id := by
  unfold judge at h
  rintro rfl
  split at h
  · cases h
  · split at h
    · cases h
    · split at h
      · cases h
      · split at h
        · cases h
        · cases h

end Alone

/-! ## One viewer for all layers and one for a single layer -/

section Frame

variable {s : Viewer Slots} {target : String}

theorem get?_submit_of_not_mem {i : Submission}
    (h : ∀ l, s.atlas.layer? i.layer = some l → target ∉ l.targetIds) :
    (s.submit i).2.renderer.table.get? target = s.renderer.table.get? target := by
  unfold submit
  cases hj : s.judge i with
  | error failure => rfl
  | ok found =>
    obtain ⟨l, field⟩ := found
    have ht : target ∉ (s.filter l field i).targets := h l (judge_eq_ok_iff.mp hj).1
    exact s.history.get?_apply_of_not_mem ht

theorem get?_revert_of_not_mem {id : FilterId}
    (h : ∀ e, s.history.entry? id = some e → target ∉ e.targets) :
    (s.revert id).2.renderer.table.get? target = s.renderer.table.get? target :=
  History.get?_revert_of_not_mem h

end Frame

/-- The viewer `t` is as far on one layer as `s` is among the other layers. The ids of that
layer are `ids`, of which `earlier` were issued so far. -/
structure Mirrors (layer : String) (n : Nat) (ids earlier : List FilterId) (s t : Viewer Slots) :
    Prop where
  atlas_eq : t.atlas = s.atlas
  nextNumber_eq : t.history.nextNumber = n + earlier.length
  entries_eq : t.history.entries =
    (s.history.entries.filter (·.layer = layer)).map (Entry.renumber (numbered n ids))
  mem_earlier_iff : ∀ e ∈ s.history.entries, e.id ∈ earlier ↔ e.layer = layer
  earlier_lt : ∀ id ∈ earlier, id.number < s.history.nextNumber
  starts : earlier <+: ids
  agreeOn : ∀ l, s.atlas.layer? layer = some l → Slots.AgreeOn l.targetIds s.renderer t.renderer

variable {layer : String} {n : Nat} {ids earlier : List FilterId} {s t : Viewer Slots}

theorem mirrors_start (atlas : Atlas) (slots : Slots) :
    Mirrors layer n ids [] (start atlas slots n) (start atlas slots n) := by
  constructor
  · rfl
  · rfl
  · rfl
  · simp [start, History.empty]
  · simp
  · exact ⟨ids, rfl⟩
  · exact fun l _ target _ => rfl

theorem Mirrors.next_not_mem (h : Mirrors layer n ids earlier s t) :
    ⟨s.history.nextNumber⟩ ∉ earlier := fun hin => Nat.lt_irrefl _ (h.earlier_lt _ hin)

/-- A request that does not concern the layer is written to the targets of another. -/
theorem Mirrors.agreeOn_skip (h : Mirrors layer n ids earlier s t) (ha : s.atlas.Exclusive)
    (h1 : s.OneFilter) {q : Request} (hq : (Turn.mk s q).isOn layer earlier = false) {l : Layer}
    (hl : s.atlas.layer? layer = some l) :
    Slots.AgreeOn l.targetIds (s.after q).renderer s.renderer := by
  intro target ht
  obtain ⟨hm, hid⟩ := Atlas.mem_layers_of_layer? hl
  -- a target has one layer, so a write to it would make the request concern that layer
  cases q with
  | submit i =>
    apply get?_submit_of_not_mem
    intro other ho ht'
    obtain ⟨hm', hid'⟩ := Atlas.mem_layers_of_layer? ho
    obtain rfl := ha.eq_of_mem_targetIds hm hm' ht ht'
    simp [Turn.isOn, ← hid, ← hid'] at hq
  | check i => rfl
  | revert id =>
    apply get?_revert_of_not_mem
    intro e he ht'
    obtain ⟨hme, rfl⟩ := History.mem_of_entry_eq_some he
    obtain ⟨other, hm', hid', hts, -⟩ := h1.exists_layer e hme
    obtain rfl := ha.eq_of_mem_targetIds hm hm' ht (hts ▸ ht')
    have hin := (h.mem_earlier_iff e hme).mpr (hid'.trans hid)
    simp [Turn.isOn, hin] at hq

theorem Mirrors.entries_skip (h : Mirrors layer n ids earlier s t) (ha : s.atlas.Exclusive)
    {q : Request} (hq : (Turn.mk s q).isOn layer earlier = false) :
    (s.after q).history.entries.filter (·.layer = layer) =
      s.history.entries.filter (·.layer = layer) ∧
    ∀ e ∈ (s.after q).history.entries, e.id ∈ earlier ↔ e.layer = layer := by
  rcases entries_after_cases ha q with he | ⟨i, l, field, rfl, hj, -, he⟩ | ⟨id, rfl, he⟩
  · rw [he]
    exact ⟨rfl, h.mem_earlier_iff⟩
  · have hne : l.id ≠ layer := by
      rw [(Atlas.mem_layers_of_layer? (judge_eq_ok_iff.mp hj).1).2]
      simpa [Turn.isOn] using hq
    rw [he]
    constructor
    · simp [List.filter_append, filter, hne]
    · intro e hm
      rcases List.mem_append.mp hm with hm | hm
      · exact h.mem_earlier_iff e hm
      · obtain rfl := List.mem_singleton.mp hm
        simp [filter, hne, h.next_not_mem]
  · have hid : id ∉ earlier := by simpa [Turn.isOn] using hq
    rw [he]
    constructor
    · rw [List.filter_filter]
      apply List.filter_congr
      intro e hm
      by_cases hl : e.layer = layer
      · have hin := (h.mem_earlier_iff e hm).mpr hl
        have hne : e.id ≠ id := fun heq => hid (heq ▸ hin)
        simp [hl, hne]
      · simp [hl]
    · exact fun e hm => h.mem_earlier_iff e (List.mem_filter.mp hm).1

/-- A turn that does not concern the layer leaves it as it is. -/
theorem Mirrors.skip (h : Mirrors layer n ids earlier s t) (ha : s.atlas.Exclusive)
    (h1 : s.OneFilter) {q : Request} (hq : (Turn.mk s q).isOn layer earlier = false) :
    Mirrors layer n ids earlier (s.after q) t := by
  obtain ⟨hentries, hmem⟩ := h.entries_skip ha hq
  constructor
  · exact h.atlas_eq.trans (atlas_after s q).symm
  · exact h.nextNumber_eq
  · rw [hentries]
    exact h.entries_eq
  · exact hmem
  · intro id hid
    exact Nat.lt_of_lt_of_le (h.earlier_lt id hid) (nextNumber_le_after ha q)
  · exact h.starts
  · intro l hl
    rw [atlas_after] at hl
    exact (h.agreeOn_skip ha h1 hq hl).trans (h.agreeOn l hl)

/-- Both viewers have an entry of the layer that concerns its name, or neither has. -/
theorem Mirrors.exists_concerns_iff (h : Mirrors layer n ids earlier s t) (ha : s.atlas.Exclusive)
    (h1 : s.OneFilter) (hl : layer ∈ s.atlas.layers.map Layer.id) :
    (∃ e ∈ t.history.entries, e.concerns layer = true) ↔
      ∃ e ∈ s.history.entries, e.concerns layer = true := by
  rw [h.entries_eq]
  constructor
  · rintro ⟨_, he, hc⟩
    obtain ⟨e, hm, rfl⟩ := List.mem_map.mp he
    exact ⟨e, (List.mem_filter.mp hm).1, hc⟩
  · rintro ⟨e, hm, hc⟩
    have hon : e.layer = layer := (h1.concerns_iff ha hm hl).mp hc
    exact ⟨_, List.mem_map_of_mem (List.mem_filter.mpr ⟨hm, by simpa using hon⟩), hc⟩

theorem Mirrors.judge_eq (h : Mirrors layer n ids earlier s t) (ha : s.atlas.Exclusive)
    (h1 : s.OneFilter) {i : Submission} (hi : i.layer = layer) : t.judge i = s.judge i := by
  unfold judge
  rw [h.atlas_eq]
  cases hl : s.atlas.layer? i.layer with
  | none => rfl
  | some l =>
    obtain ⟨hm, hid⟩ := Atlas.mem_layers_of_layer? hl
    have hname : layer ∈ s.atlas.layers.map Layer.id :=
      List.mem_map.mpr ⟨l, hm, hid.trans hi⟩
    have hc : t.check i = s.check i := by
      unfold check
      rw [Operator.screen_with_history, Operator.screen_with_history, hi]
      simp only [h.exists_concerns_iff ha h1 hname]
    simp only [hc]

theorem Mirrors.filter_eq (h : Mirrors layer n ids earlier s t) {i : Submission} {l : Layer}
    (hl : s.atlas.layer? layer = some l) (field : Field) :
    t.filter l field i = s.filter l field i := by
  have hpriors : l.targetIds.map (Renderer.held t.renderer) =
      l.targetIds.map (Renderer.held s.renderer) :=
    List.map_congr_left fun target ht => ((h.agreeOn l hl).held_eq ht).symm
  simp only [filter, hpriors]

/-- An id that was issued leads both viewers to the same entry, or neither to any. -/
theorem Mirrors.entry?_numbered (h : Mirrors layer n ids earlier s t) {id : FilterId}
    (hid : id ∈ earlier) : t.history.entry? (numbered n ids id) =
      (s.history.entry? id).map (Entry.renumber (numbered n ids)) := by
  cases he : s.history.entry? id with
  | some e =>
    obtain ⟨hm, rfl⟩ := History.mem_of_entry_eq_some he
    have hon := (h.mem_earlier_iff e hm).mp hid
    apply History.entry?_eq_some_iff.mpr
    rw [h.entries_eq]
    exact ⟨List.mem_map_of_mem (List.mem_filter.mpr ⟨hm, by simpa using hon⟩), rfl⟩
  | none =>
    have hnone := List.find?_eq_none.mp he
    apply List.find?_eq_none.mpr
    rw [h.entries_eq]
    intro e' hm' heq
    obtain ⟨e, hm, rfl⟩ := List.mem_map.mp hm'
    have hids : id = e.id :=
      numbered_inj (h.starts.subset hid) (by simpa [Entry.renumber, eq_comm] using heq)
    exact hnone e (List.mem_filter.mp hm).1 (by simp [hids])

/-- Writes that leave the slots of the layer alike, and no entry more or less. -/
theorem Mirrors.of_agreeOn (h : Mirrors layer n ids earlier s t) {a b : Slots} {l : Layer}
    (hl : s.atlas.layer? layer = some l) (hab : Slots.AgreeOn l.targetIds a b) :
    Mirrors layer n ids earlier ⟨s.atlas, a, s.history⟩ ⟨t.atlas, b, t.history⟩ where
  atlas_eq := h.atlas_eq
  nextNumber_eq := h.nextNumber_eq
  entries_eq := h.entries_eq
  mem_earlier_iff := h.mem_earlier_iff
  earlier_lt := h.earlier_lt
  starts := h.starts
  agreeOn other ho := by
    cases hl.symm.trans ho
    exact hab

/-- Both viewers are about to issue the same id. -/
theorem Mirrors.numbered_next (h : Mirrors layer n ids earlier s t)
    (hids : earlier ++ [⟨s.history.nextNumber⟩] <+: ids) :
    numbered n ids ⟨s.history.nextNumber⟩ = ⟨t.history.nextNumber⟩ := by
  rw [numbered_of_new h.next_not_mem hids, h.nextNumber_eq]

/-- Both viewers enter the same filter on the layer. -/
theorem Mirrors.record (h : Mirrors layer n ids earlier s t) {f : Filter} (hf : f.layer = layer)
    (hids : earlier ++ [⟨s.history.nextNumber⟩] <+: ids) :
    Mirrors layer n ids (earlier ++ [⟨s.history.nextNumber⟩])
      { s with history := s.history.record f } { t with history := t.history.record f } := by
  have hnumber := h.numbered_next hids
  constructor
  · exact h.atlas_eq
  · simp [History.record, h.nextNumber_eq, Nat.add_assoc]
  · simp [History.record, h.entries_eq, hf, Entry.renumber, hnumber]
  · intro e hm
    rcases List.mem_append.mp hm with hm | hm
    · have hne : e.id ≠ ⟨s.history.nextNumber⟩ := by
        intro heq
        have hlt := s.history.numbers_lt e hm
        rw [heq] at hlt
        exact Nat.lt_irrefl _ hlt
      simpa [hne] using h.mem_earlier_iff e hm
    · obtain rfl := List.mem_singleton.mp hm
      simp [hf]
  · intro id hid
    rcases List.mem_append.mp hid with hid | hid
    · exact Nat.lt_succ_of_lt (h.earlier_lt id hid)
    · obtain rfl := List.mem_singleton.mp hid
      exact Nat.lt_succ_self _
  · exact hids
  · exact h.agreeOn

/-- Both viewers remove the same entry of the layer. -/
theorem Mirrors.remove (h : Mirrors layer n ids earlier s t) {id : FilterId} (hid : id ∈ earlier) :
    Mirrors layer n ids earlier { s with history := s.history.remove id }
      { t with history := t.history.remove (numbered n ids id) } := by
  have hsame : ∀ e : Entry, (e.renumber (numbered n ids)).id = numbered n ids id ↔ e.id = id := by
    intro e
    constructor
    · intro heq
      exact (numbered_inj (h.starts.subset hid) heq.symm).symm
    · rintro rfl
      rfl
  constructor
  · exact h.atlas_eq
  · exact h.nextNumber_eq
  · simp only [History.remove, h.entries_eq, List.filter_map, List.filter_filter]
    congr 1
    apply List.filter_congr
    intro e _
    simp [hsame, Bool.and_comm]
  · exact fun e hm => h.mem_earlier_iff e (List.mem_filter.mp hm).1
  · exact h.earlier_lt
  · exact h.starts
  · exact h.agreeOn

/-- The viewers answer a request alike, up to the numbers of entries, and go on alike. -/
structure Mirrors.Follows (layer : String) (n : Nat) (ids earlier : List FilterId)
    (s t : Viewer Slots) (q : Request) : Prop where
  answer_eq : t.answer (q.renumber (numbered n ids)) = (s.answer q).renumber (numbered n ids)
  issued_eq : (Turn.mk t (q.renumber (numbered n ids))).issued layer =
    ((Turn.mk s q).issued layer).map (numbered n ids)
  mirrors : Mirrors layer n ids (earlier ++ (Turn.mk s q).issued layer) (s.after q)
    (t.after (q.renumber (numbered n ids)))

theorem Mirrors.Follows.of_refused_submit {i : Submission} {failure : Failure}
    {s' t' : Viewer Slots} (hs : s.submit i = (.error failure, s'))
    (ht : t.submit i = (.error failure, t')) (hne : ∀ id, failure ≠ .entryNotFound id)
    (h : Mirrors layer n ids earlier s' t') :
    Mirrors.Follows layer n ids earlier s t (.submit i) := by
  have hself := Failure.renumber_eq_self hne (numbered n ids)
  constructor
  · simp [Request.renumber, answer, hs, ht, Answer.renumber, hself]
  · simp [Request.renumber, Turn.issued, hs, ht]
  · simpa [Request.renumber, Turn.issued, after, hs, ht] using h

theorem Mirrors.Follows.of_refused_revert {id : FilterId} {failure : Failure}
    {s' t' : Viewer Slots} (hs : s.revert id = (.error failure, s'))
    (ht : t.revert (numbered n ids id) = (.error (failure.renumber (numbered n ids)), t'))
    (h : Mirrors layer n ids earlier s' t') :
    Mirrors.Follows layer n ids earlier s t (.revert id) := by
  constructor
  · simp [Request.renumber, answer, hs, ht, Answer.renumber]
  · rfl
  · simpa [Request.renumber, Turn.issued, after, hs, ht] using h

theorem Mirrors.follow_submit (h : Mirrors layer n ids earlier s t) (ha : s.atlas.Exclusive)
    (h1 : s.OneFilter) {i : Submission} (hi : i.layer = layer)
    (hids : earlier ++ (Turn.mk s (.submit i)).issued layer <+: ids) :
    Mirrors.Follows layer n ids earlier s t (.submit i) := by
  have hjudge := h.judge_eq ha h1 hi
  cases hj : s.judge i with
  | error failure =>
    have hs : s.submit i = (.error failure, s) := by simp only [submit, hj]
    have ht : t.submit i = (.error failure, t) := by simp only [submit, hjudge, hj]
    exact .of_refused_submit hs ht (judge_ne_entryNotFound hj) h
  | ok found =>
    obtain ⟨l, field⟩ := found
    obtain ⟨hl, -⟩ := judge_eq_ok_iff.mp hj
    rw [hi] at hl
    obtain ⟨hm, hid⟩ := Atlas.mem_layers_of_layer? hl
    have hfilter := h.filter_eq (i := i) hl field
    have hlayer : (s.filter l field i).layer = layer := hid
    obtain ⟨a, b, hab, ⟨hsa, htb⟩ | ⟨failure, hne, hsa, htb⟩⟩ :=
      s.history.apply_agreeOn t.history (f := s.filter l field i) (h.agreeOn l hl)
    · have hs : s.submit i = (.ok ⟨s.history.nextNumber⟩,
          ⟨s.atlas, a, s.history.record (s.filter l field i)⟩) := by
        simp only [submit, hj, hsa]
      have ht : t.submit i = (.ok ⟨t.history.nextNumber⟩,
          ⟨t.atlas, b, t.history.record (s.filter l field i)⟩) := by
        simp only [submit, hjudge, hj, hfilter, htb]
      have hissued : (Turn.mk s (.submit i)).issued layer = [⟨s.history.nextNumber⟩] := by
        simp [Turn.issued, hs, hi]
      rw [hissued] at hids
      have hnumber := h.numbered_next hids
      constructor
      · simp [Request.renumber, answer, hs, ht, Answer.renumber, hnumber]
      · rw [hissued]
        simp [Request.renumber, Turn.issued, ht, hi, hnumber]
      · rw [hissued]
        simp only [Request.renumber, after, hs, ht]
        exact (h.of_agreeOn hl hab).record hlayer hids
    · have hs : s.submit i = (.error failure, ⟨s.atlas, a, s.history⟩) := by
        simp only [submit, hj, hsa]
      have ht : t.submit i = (.error failure, ⟨t.atlas, b, t.history⟩) := by
        simp only [submit, hjudge, hj, hfilter, htb]
      exact .of_refused_submit hs ht hne (h.of_agreeOn hl hab)

theorem Mirrors.follow_revert (h : Mirrors layer n ids earlier s t) (ha : s.atlas.Exclusive)
    (h1 : s.OneFilter) {id : FilterId} (hid : id ∈ earlier) :
    Mirrors.Follows layer n ids earlier s t (.revert id) := by
  have hentry := h.entry?_numbered hid
  cases he : s.history.entry? id with
  | none =>
    rw [he] at hentry
    have hs : s.revert id = (.error (.entryNotFound id), s) := by
      simp only [revert, History.revert_of_entry?_eq_none he]
    have ht : t.revert (numbered n ids id) = (.error (.entryNotFound (numbered n ids id)), t) := by
      simp only [revert, History.revert_of_entry?_eq_none hentry]
    exact .of_refused_revert hs ht h
  | some e =>
    rw [he] at hentry
    obtain ⟨hm, rfl⟩ := History.mem_of_entry_eq_some he
    have hon := (h.mem_earlier_iff e hm).mp hid
    obtain ⟨l, hml, hlid, hts, -⟩ := h1.exists_layer e hm
    have hl : s.atlas.layer? layer = some l :=
      ha.layer?_eq_some_iff.mpr ⟨hml, hlid.symm.trans hon⟩
    have hagree : Slots.AgreeOn e.targets s.renderer t.renderer := hts ▸ h.agreeOn l hl
    obtain ⟨a, b, hab, ⟨hsa, htb⟩ | ⟨failure, hne, hsa, htb⟩⟩ :=
      History.revert_agreeOn he hentry rfl hagree
    · have hs : s.revert e.id = (.ok e, ⟨s.atlas, a, s.history.remove e.id⟩) := by
        simp only [revert, hsa]
      have ht : t.revert (numbered n ids e.id) = (.ok (e.renumber (numbered n ids)),
          ⟨t.atlas, b, t.history.remove (numbered n ids e.id)⟩) := by
        simp only [revert, htb]
      constructor
      · simp [Request.renumber, answer, hs, ht, Answer.renumber]
      · rfl
      · simpa [Request.renumber, Turn.issued, after, hs, ht] using
          (h.of_agreeOn hl (hts ▸ hab)).remove hid
    · have hself := Failure.renumber_eq_self hne (numbered n ids)
      have hs : s.revert e.id = (.error failure, ⟨s.atlas, a, s.history⟩) := by
        simp only [revert, hsa]
      have ht : t.revert (numbered n ids e.id) =
          (.error (failure.renumber (numbered n ids)), ⟨t.atlas, b, t.history⟩) := by
        simp only [revert, htb, hself]
      exact .of_refused_revert hs ht (h.of_agreeOn hl (hts ▸ hab))

theorem Mirrors.follow (h : Mirrors layer n ids earlier s t) (ha : s.atlas.Exclusive)
    (h1 : s.OneFilter) {q : Request} (hq : (Turn.mk s q).isOn layer earlier = true)
    (hids : earlier ++ (Turn.mk s q).issued layer <+: ids) :
    Mirrors.Follows layer n ids earlier s t q := by
  cases q with
  | submit i => exact h.follow_submit ha h1 (by simpa [Turn.isOn] using hq) hids
  | check i => cases hq
  | revert id => exact h.follow_revert ha h1 (by simpa [Turn.isOn] using hq)

/-- A viewer that is put only what concerns the layer stays as far on it as the other. -/
theorem Mirrors.run (h : Mirrors layer n ids earlier s t) (ha : s.atlas.Exclusive)
    (h1 : s.OneFilter) (qs : List Request) (hids : earlier ++ issuedTo layer (s.turns qs) = ids) :
    let own := turnsOn layer earlier (s.turns qs)
    let solo := own.map fun x => x.request.renumber (numbered n ids)
    (t.turns solo).map Turn.answer = own.map (fun x => x.answer.renumber (numbered n ids)) ∧
    issuedTo layer (t.turns solo) = (issuedTo layer (s.turns qs)).map (numbered n ids) ∧
    Mirrors layer n ids ids (s.run qs) (t.run solo) := by
  -- a turn that concerns the layer moves both viewers on, any other the first one only
  induction qs generalizing earlier s t with
  | nil =>
    have hall : earlier = ids := by simpa [turns, issuedTo] using hids
    exact ⟨rfl, rfl, hall ▸ h⟩
  | cons q rest ih =>
    have hat : (s.after q).atlas.Exclusive := by rwa [atlas_after]
    have h1' : (s.after q).OneFilter := h1.after ha q
    have hids' : (earlier ++ (Turn.mk s q).issued layer) ++
        issuedTo layer ((s.after q).turns rest) = ids := by
      rw [List.append_assoc]
      exact hids
    cases hq : (Turn.mk s q).isOn layer earlier with
    | true =>
      obtain ⟨hanswer, hissued, hm⟩ := h.follow ha h1 hq ⟨_, hids'⟩
      obtain ⟨hanswers, hissues, hend⟩ := ih hm hat h1' hids'
      simp only [turns, turnsOn, hq, if_true, List.map_cons]
      refine ⟨?_, ?_, hend⟩
      · rw [hanswers]
        exact congrArg (· :: _) hanswer
      · unfold issuedTo at hissues ⊢
        rw [List.flatMap_cons, List.flatMap_cons, List.map_append, hissues, hissued]
    | false =>
      have hnone := Turn.issued_of_not_isOn hq
      have hm := h.skip ha h1 hq
      rw [hnone, List.append_nil] at hids'
      obtain ⟨hanswers, hissues, hend⟩ := ih hm hat h1' hids'
      simp only [turns, turnsOn, hq, hnone, List.append_nil, issuedTo, List.flatMap_cons,
        List.nil_append]
      exact ⟨hanswers, hissues, hend⟩

/-- A target that no layer lists is never written. -/
theorem get?_after_of_unlisted (h1 : s.OneFilter) {target : String}
    (ht : ∀ l ∈ s.atlas.layers, target ∉ l.targetIds) (q : Request) :
    (s.after q).renderer.table.get? target = s.renderer.table.get? target := by
  cases q with
  | submit i =>
    apply get?_submit_of_not_mem
    intro l hl
    exact ht l (Atlas.mem_layers_of_layer? hl).1
  | check i => rfl
  | revert id =>
    apply get?_revert_of_not_mem
    intro e he
    obtain ⟨hm, -⟩ := History.mem_of_entry_eq_some he
    obtain ⟨l, hl, -, hts, -⟩ := h1.exists_layer e hm
    rw [hts]
    exact ht l hl

theorem get?_run_of_unlisted (ha : s.atlas.Exclusive) (h1 : s.OneFilter) {target : String}
    (ht : ∀ l ∈ s.atlas.layers, target ∉ l.targetIds) (qs : List Request) :
    (s.run qs).renderer.table.get? target = s.renderer.table.get? target := by
  induction qs using List.reverseRecOn with
  | nil => rfl
  | append_singleton qs q ih =>
    have hlast := get?_after_of_unlisted (h1.run ha qs) (by rwa [atlas_run]) q
    rw [run_concat, hlast, ih]

/-- Lists are alike up to their order if for each key they have the same elements in the same
order. -/
theorem perm_of_filter_eq {α κ : Type} [DecidableEq α] [DecidableEq κ] (key : α → κ)
    {xs ys : List α} (h : ∀ k, xs.filter (key · = k) = ys.filter (key · = k)) : xs.Perm ys := by
  rw [List.perm_iff_count]
  intro a
  have hcount : ∀ zs : List α, (zs.filter (key · = key a)).count a = zs.count a :=
    fun zs => List.count_filter (by simp)
  rw [← hcount xs, ← hcount ys, h]

/-- What a run leaves on a layer of the atlas is what the layer's requests leave alone. -/
theorem mirrors_alone {atlas : Atlas} (ha : atlas.Exclusive) (slots : Slots) (n : Nat)
    (layer : String) (qs : List Request) :
    let s := start atlas slots n
    let number := s.numberAlone layer qs
    (s.turns (s.alone layer qs)).map Turn.answer =
      (turnsOn layer [] (s.turns qs)).map (fun x => x.answer.renumber number) ∧
    issuedTo layer (s.turns (s.alone layer qs)) = (issuedTo layer (s.turns qs)).map number ∧
    Mirrors layer n (issuedTo layer (s.turns qs)) (issuedTo layer (s.turns qs)) (s.run qs)
      (s.run (s.alone layer qs)) :=
  (mirrors_start atlas slots).run ha (oneFilter_start atlas slots n) qs rfl

/-- The filters that a run leaves on a layer are those that its requests leave alone. -/
theorem filters_on_eq {atlas : Atlas} (ha : atlas.Exclusive) (slots : Slots) (n : Nat)
    (layer : String) (qs : List Request) :
    let s := start atlas slots n
    ((s.run qs).history.entries.map Entry.toFilter).filter (·.layer = layer) =
      (s.run (s.alone layer qs)).history.entries.map Entry.toFilter := by
  intro s
  obtain ⟨-, -, hm⟩ := mirrors_alone ha slots n layer qs
  rw [hm.entries_eq, List.map_map, List.filter_map]
  rfl

theorem filters_on_unknown {atlas : Atlas} (ha : atlas.Exclusive) (slots : Slots) (n : Nat)
    {layer : String} (h : ∀ l ∈ atlas.layers, l.id ≠ layer) (qs : List Request) :
    (((start atlas slots n).run qs).history.entries.map Entry.toFilter).filter (·.layer = layer) =
      [] := by
  rw [List.filter_map, List.map_eq_nil_iff, List.filter_eq_nil_iff]
  intro e hm hl
  obtain ⟨l, hmem, hid, -⟩ := ((oneFilter_start atlas slots n).run ha qs).exists_layer e hm
  rw [atlas_run] at hmem
  exact h l hmem (hid.symm.trans (by simpa using hl))

section Interleavings

variable {atlas : Atlas} (ha : atlas.Exclusive) (slots : Slots) (n : Nat) {qs others : List Request}
  (h : ∀ l ∈ atlas.layers,
    (start atlas slots n).alone l.id qs = (start atlas slots n).alone l.id others)

include ha h

theorem get?_run_eq_of_alone_eq (target : String) :
    ((start atlas slots n).run qs).renderer.table.get? target =
      ((start atlas slots n).run others).renderer.table.get? target := by
  have h1 := oneFilter_start atlas slots n
  by_cases ht : ∃ l ∈ atlas.layers, target ∈ l.targetIds
  · obtain ⟨l, hl, ht⟩ := ht
    have hlayer : atlas.layer? l.id = some l := ha.layer?_eq_some_iff.mpr ⟨hl, rfl⟩
    obtain ⟨-, -, hm⟩ := mirrors_alone ha slots n l.id qs
    obtain ⟨-, -, hm'⟩ := mirrors_alone ha slots n l.id others
    have hq := hm.agreeOn l (by rwa [atlas_run]) target ht
    have ho := hm'.agreeOn l (by rwa [atlas_run]) target ht
    rw [h l hl] at hq
    exact hq.trans ho.symm
  · have hunlisted : ∀ l ∈ atlas.layers, target ∉ l.targetIds := fun l hl hin => ht ⟨l, hl, hin⟩
    rw [get?_run_of_unlisted ha h1 hunlisted, get?_run_of_unlisted ha h1 hunlisted]

theorem filters_perm_of_alone_eq :
    (((start atlas slots n).run qs).history.entries.map Entry.toFilter).Perm
      (((start atlas slots n).run others).history.entries.map Entry.toFilter) := by
  apply perm_of_filter_eq Filter.layer
  intro layer
  by_cases hl : ∃ l ∈ atlas.layers, l.id = layer
  · obtain ⟨l, hl, rfl⟩ := hl
    rw [filters_on_eq ha, filters_on_eq ha, h l hl]
  · have hunknown : ∀ l ∈ atlas.layers, l.id ≠ layer := fun l hmem hid => hl ⟨l, hmem, hid⟩
    rw [filters_on_unknown ha slots n hunknown, filters_on_unknown ha slots n hunknown]

end Interleavings

/-- Every layer fares in a run as its own requests let it fare alone. So two interleavings of the
same requests of each layer leave the same slots, and the same filters up to order and ids. -/
theorem layers_do_not_interfere {d : AtlasDescription} {atlas : Atlas}
    (hb : Atlas.build d = .ok atlas) (slots : Slots) (n : Nat) (qs : List Request) :
    let s := start atlas slots n
    (∀ layer,
      let number := s.numberAlone layer qs
      let alone := s.alone layer qs
      (s.turns alone).map Turn.answer =
        (turnsOn layer [] (s.turns qs)).map (fun x => x.answer.renumber number) ∧
      issuedTo layer (s.turns alone) = (issuedTo layer (s.turns qs)).map number ∧
      (s.run alone).history.entries =
        ((s.run qs).history.entries.filter (·.layer = layer)).map (Entry.renumber number) ∧
      ∀ l, atlas.layer? layer = some l →
        Slots.AgreeOn l.targetIds (s.run qs).renderer (s.run alone).renderer) ∧
    ∀ others, (∀ l ∈ atlas.layers, s.alone l.id qs = s.alone l.id others) →
      (∀ target, (s.run qs).renderer.table.get? target =
        (s.run others).renderer.table.get? target) ∧
      ((s.run qs).history.entries.map Entry.toFilter).Perm
        ((s.run others).history.entries.map Entry.toFilter) := by
  intro s
  have ha := Atlas.exclusive_of_build hb
  constructor
  · intro layer number alone
    obtain ⟨hanswers, hissued, hm⟩ := mirrors_alone ha slots n layer qs
    refine ⟨hanswers, hissued, hm.entries_eq, fun l hl => hm.agreeOn l ?_⟩
    rwa [atlas_run]
  · intro others hsame
    exact ⟨get?_run_eq_of_alone_eq ha slots n hsame, filters_perm_of_alone_eq ha slots n hsame⟩

/-- The wells are filtered, then the roads, then the wells anew. -/
def wellsFirst : List Request :=
  [.submit ⟨"wells", "depth", .lessThan, "5"⟩, .submit ⟨"roads", "surface", .equals, "gravel"⟩,
    .submit ⟨"wells", "code", .oneOf, "A,B"⟩, .revert ⟨0⟩,
    .submit ⟨"wells", "code", .oneOf, "A,B"⟩, .revert ⟨1⟩]

/-- The requests of `wellsFirst` for each layer, in which the roads come first. -/
def roadsFirst : List Request :=
  [.submit ⟨"roads", "surface", .equals, "gravel"⟩, .revert ⟨0⟩, .revert ⟨7⟩,
    .submit ⟨"wells", "depth", .lessThan, "5"⟩, .submit ⟨"wells", "code", .oneOf, "A,B"⟩,
    .revert ⟨1⟩, .submit ⟨"wells", "code", .oneOf, "A,B"⟩]

theorem wells_first_or_roads_first :
    let s := start .sample (Slots.ofAtlas .sample) 0
    Atlas.build Atlas.sampleDescription = .ok .sample ∧
    (∀ l ∈ Atlas.sample.layers, s.alone l.id wellsFirst = s.alone l.id roadsFirst) ∧
    (∀ target, (s.run wellsFirst).renderer.table.get? target =
      (s.run roadsFirst).renderer.table.get? target) ∧
    ((s.run wellsFirst).history.entries.map Entry.toFilter).Perm
      ((s.run roadsFirst).history.entries.map Entry.toFilter) := by
  have hsame : ∀ l ∈ Atlas.sample.layers,
      (start .sample (Slots.ofAtlas .sample) 0).alone l.id wellsFirst =
        (start .sample (Slots.ofAtlas .sample) 0).alone l.id roadsFirst := by
    decide +kernel
  obtain ⟨-, h⟩ := layers_do_not_interfere Atlas.build_sample (Slots.ofAtlas .sample) 0 wellsFirst
  exact ⟨Atlas.build_sample, hsame, h roadsFirst hsame⟩

end Viewer

end FeatureSieve
