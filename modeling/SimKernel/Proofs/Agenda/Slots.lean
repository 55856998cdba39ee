import SimKernel.Agenda.Slots

/-!
# The event slots as a table

What the slots hold is the table `record?`. The free slots are the vacant ones (`Valid`). An event goes into a vacant
slot (`Valid.record?_nextSlot`) and changes the table there only (`record?_insert`); it is found and taken by its slot and
number, which again changes the table there only (`take?_eq_some`).
-/

namespace SimKernel.EventSlots

variable {α : Type}

/-- The event in a slot. -/
def record? (s : EventSlots α) (slot : Nat) : Option (EventRecord α) := (s.slots[slot]?).join

/-- The free slots are the vacant ones, each free once, and `live` counts the others. -/
structure Valid (s : EventSlots α) : Prop where
  nodup_free : s.free.Nodup
  mem_free : ∀ slot, slot ∈ s.free ↔ s.slots[slot]? = some none
  live_eq : s.live = s.records.length

theorem valid_empty : (empty : EventSlots α).Valid :=
  ⟨List.nodup_nil, by simp [empty], rfl⟩

theorem record?_empty (slot : Nat) : (empty : EventSlots α).record? slot = none := by
  simp [record?, empty]

theorem record?_eq_some_iff {s : EventSlots α} {slot : Nat} {r : EventRecord α} :
    s.record? slot = some r ↔ s.slots[slot]? = some (some r) := by
  simp [record?, Option.join_eq_some_iff]

/-- An event is found under its slot only with its own number. -/
theorem get?_eq_some_iff {s : EventSlots α} {slot uid : Nat} {r : EventRecord α} :
    s.get? slot uid = some r ↔ s.record? slot = some r ∧ r.uid = uid := by
  simp only [get?, record?, Option.bind_eq_bind, Option.bind_eq_some_iff]
  constructor
  · rintro ⟨r', h, h'⟩
    split at h'
    · cases h'; exact ⟨h, ‹_›⟩
    · cases h'
  · rintro ⟨h, rfl⟩
    exact ⟨r, h, if_pos rfl⟩

/-- The events that are held are those in some slot. -/
theorem mem_records_iff {s : EventSlots α} {r : EventRecord α} : r ∈ s.records ↔ ∃ slot, s.record? slot = some r := by
  simp only [records, List.mem_filterMap, id_eq, exists_eq_right, record?_eq_some_iff]
  rw [List.mem_iff_getElem?]
  simp only [Array.getElem?_toList]

/-- Filling a vacant place adds one to what a list of places holds. -/
theorem filterMap_set_perm {β : Type} {places : List (Option β)} {i : Nat} (h : places[i]? = some none) (b : β) :
    ((places.set i (some b)).filterMap id).Perm (b :: places.filterMap id) := by
  induction places generalizing i with
  | nil => cases h
  | cons place places ih =>
    cases i with
    | zero =>
      obtain rfl : place = none := by simpa using h
      exact .refl _
    | succ i =>
      have := ih (i := i) (by simpa using h)
      cases place with
      | none => exact this
      | some c => exact (this.cons c).trans (.swap b c _)

/-- Vacating a place takes one from what a list of places holds. -/
theorem filterMap_set_none_perm {β : Type} {places : List (Option β)} {i : Nat} {b : β} (h : places[i]? = some (some b)) :
    (places.filterMap id).Perm (b :: (places.set i none).filterMap id) := by
  obtain ⟨hi, hb⟩ := List.getElem?_eq_some_iff.1 h
  have hvacant : (places.set i none)[i]? = some none := by simp [hi]
  have := filterMap_set_perm hvacant b
  rwa [List.set_set, ← hb, List.set_getElem_self] at this

/-- The free slot that the next event gets, or the number of slots if none is free. -/
def nextSlot (s : EventSlots α) : Nat := s.free.headD s.slots.size

theorem insert_fst (s : EventSlots α) (r : EventRecord α) : (s.insert r).1 = s.nextSlot := by
  unfold insert nextSlot
  cases s.free <;> rfl

/-- The slot for the next event is vacant, or not there yet. -/
theorem Valid.record?_nextSlot {s : EventSlots α} (h : s.Valid) : s.record? s.nextSlot = none := by
  unfold record? nextSlot
  cases hf : s.free with
  | nil => simp
  | cons slot free => simp [(h.mem_free slot).1 (by simp [hf])]

/-- The next event goes into its slot, and all others stay in theirs. -/
theorem record?_insert {s : EventSlots α} (h : s.Valid) (r : EventRecord α) (slot : Nat) :
    (s.insert r).2.record? slot = if slot = s.nextSlot then some r else s.record? slot := by
  unfold insert record? nextSlot
  cases hf : s.free with
  | nil => simp only [Array.getElem?_push, List.headD_nil]; split <;> simp [*]
  | cons first free =>
    have hv := (h.mem_free first).1 (by simp [hf])
    have hlt := (Array.getElem?_eq_some_iff.1 hv).1
    simp only [List.headD_cons, Array.getElem?_setIfInBounds, hlt, if_true]
    by_cases hs : first = slot
    · simp [hs]
    · simp [hs, Ne.symm hs]

/-- An event that is put in is added to those that are held. -/
theorem records_insert_perm {s : EventSlots α} (h : s.Valid) (r : EventRecord α) :
    (s.insert r).2.records.Perm (r :: s.records) := by
  unfold insert records
  cases hf : s.free with
  | nil => simp
  | cons first free =>
    have hv := (h.mem_free first).1 (by simp [hf])
    rw [Array.toList_setIfInBounds]
    exact filterMap_set_perm (by simpa using hv) r

/-- The slot that is given away is no longer free, and a slot made at the end never was. -/
theorem Valid.insert {s : EventSlots α} (h : s.Valid) (r : EventRecord α) : (s.insert r).2.Valid := by
  have hrec := (records_insert_perm h r).length_eq
  refine ⟨?_, ?_, ?_⟩
  · have := h.nodup_free
    unfold EventSlots.insert
    cases hf : s.free with
    | nil => exact List.nodup_nil
    | cons first free => rw [hf] at this; exact this.of_cons
  · intro slot
    have hm := h.mem_free slot
    unfold EventSlots.insert
    cases hf : s.free with
    | nil =>
      rw [hf] at hm
      simp only [Array.getElem?_push]
      split <;> simp_all
    | cons first free =>
      have hv := (h.mem_free first).1 (by simp [hf])
      have hlt := (Array.getElem?_eq_some_iff.1 hv).1
      have hn := h.nodup_free
      rw [hf] at hm hn
      simp only [Array.getElem?_setIfInBounds, hlt, if_true]
      by_cases hs : first = slot
      · subst hs; simpa using (List.nodup_cons.1 hn).1
      · simpa [hs, Ne.symm hs] using hm
  · rw [hrec]
    unfold EventSlots.insert
    cases s.free <;> simp [h.live_eq]

/-- A further slot is made only when all are taken, so there are at no time more slots than events at once. -/
theorem Valid.size_insert_le {s : EventSlots α} (h : s.Valid) (r : EventRecord α) :
    (s.insert r).2.slots.size ≤ max s.slots.size (s.insert r).2.live := by
  unfold EventSlots.insert
  cases hf : s.free with
  | cons first free => simp only [Array.size_setIfInBounds]; exact Nat.le_max_left _ _
  | nil =>
    have htaken : s.records.length = s.slots.toList.length := by
      refine List.filterMap_length_eq_length.2 ?_
      intro place hm
      obtain ⟨slot, hslot⟩ := List.mem_iff_getElem?.1 hm
      cases place with
      | some r => rfl
      | none =>
        rw [Array.getElem?_toList] at hslot
        exact absurd ((h.mem_free slot).2 hslot) (hf ▸ List.not_mem_nil)
    simp only [Array.size_push, h.live_eq, htaken, Array.length_toList]
    exact Nat.le_max_right _ _

/-- What can be found can be taken. -/
theorem take?_eq_none_iff {s : EventSlots α} {slot uid : Nat} : s.take? slot uid = none ↔ s.get? slot uid = none := by
  unfold take?
  split <;> simp_all

/-- What taking an event does: the slot is vacant after it, and nothing else changes. -/
theorem take?_eq_some {s s' : EventSlots α} {slot uid : Nat} {r : EventRecord α} (h : s.Valid)
    (ht : s.take? slot uid = some (r, s')) :
    s.get? slot uid = some r ∧ s'.Valid ∧ (∀ i, s'.record? i = if i = slot then none else s.record? i) ∧
      s.records.Perm (r :: s'.records) ∧ s'.free = slot :: s.free ∧ s'.slots.size = s.slots.size := by
  unfold take? at ht
  split at ht
  case h_2 => cases ht
  case h_1 r' hg =>
    cases ht
    have hr := record?_eq_some_iff.1 (get?_eq_some_iff.1 hg).1
    have hlt := (Array.getElem?_eq_some_iff.1 hr).1
    have hperm : s.records.Perm (r :: (s.slots.setIfInBounds slot none).toList.filterMap id) := by
      rw [Array.toList_setIfInBounds]
      exact filterMap_set_none_perm (by simpa using hr)
    refine ⟨hg, ⟨?_, ?_, ?_⟩, ?_, hperm, rfl, by simp⟩
    · refine List.nodup_cons.2 ⟨?_, h.nodup_free⟩
      intro hm
      have := (h.mem_free slot).1 hm
      simp [hr] at this
    · intro i
      have := h.mem_free i
      simp only [List.mem_cons, Array.getElem?_setIfInBounds, hlt, if_true]
      by_cases hs : slot = i
      · simp [hs]
      · simpa [hs, Ne.symm hs] using this
    · have := hperm.length_eq
      have := h.live_eq
      simp only [records, List.length_cons] at *
      omega
    · intro i
      simp only [record?, Array.getElem?_setIfInBounds, hlt, if_true]
      by_cases hs : slot = i
      · simp [hs]
      · simp [hs, Ne.symm hs]

/-- What is left after taking an event lay in the other slots. -/
theorem record?_of_take? {s s' : EventSlots α} {slot uid : Nat} {r : EventRecord α} (h : s.Valid)
    (ht : s.take? slot uid = some (r, s')) {i : Nat} {r' : EventRecord α} (hr : s'.record? i = some r') :
    i ≠ slot ∧ s.record? i = some r' := by
  obtain ⟨-, -, hrec, -⟩ := take?_eq_some h ht
  rw [hrec] at hr
  split at hr
  · cases hr
  · exact ⟨‹_›, hr⟩

end SimKernel.EventSlots
