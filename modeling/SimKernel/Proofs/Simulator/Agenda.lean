import Mathlib.Data.List.Nodup
import SimKernel.Proofs.Agenda.Queue
import SimKernel.Proofs.Agenda.Slots
import SimKernel.Proofs.Simulator.History
import SimKernel.Proofs.Simulator.Requests

/-!
# Queue and slots together

Every pending event lies in one slot and has one key in the queue; other keys belong to cancelled events (`Sound`).
Passing over those, the next event is the least of the pending ones, by time and then by number
(`Sound.nextEvent_eq_some`), and there is none only if no event is pending (`Sound.nextEvent_eq_none`). The clock is at no
time past a pending event. All this holds at every moment of a history (`Sound.step`, `sound_history`).
-/

namespace SimKernel

namespace Simulator

variable {α : Type}

/-- The key that a pending event has in the queue. -/
def keyOf {β : Type} (slot : Nat) (r : EventRecord β) : EventKey := ⟨r.time, r.uid, slot⟩

/-- Queue, slots and clock of a simulator agree. -/
structure Sound (s : Simulator α) : Prop where
  queue : s.queue.Valid
  slots : s.slots.Valid
  keyed : ∀ {slot r}, s.slots.record? slot = some r → keyOf slot r ∈ s.queue.toList
  nodup : (s.queue.toList.map EventKey.sequence).Nodup
  lt_next : ∀ k ∈ s.queue.toList, k.sequence < s.nextUid
  due : ∀ {slot r}, s.slots.record? slot = some r → s.now.femtos ≤ r.time.femtos
  now_nonneg : 0 ≤ s.now.femtos

theorem sound_ofConfig (owner : Nat) (config : Config) : (ofConfig owner config : Simulator α).Sound where
  queue := EventQueue.valid_empty
  slots := EventSlots.valid_empty
  keyed h := absurd (h.symm.trans (EventSlots.record?_empty _)) (Option.some_ne_none _)
  nodup := List.nodup_nil
  lt_next _ hk := absurd hk List.not_mem_nil
  due h := absurd (h.symm.trans (EventSlots.record?_empty _)) (Option.some_ne_none _)
  now_nonneg := Int.le_refl 0

section Sound

variable {s s' : Simulator α}

/-- A number occurs in one key only, so a pending event has the one with its number. -/
theorem Sound.eq_keyOf (h : s.Sound) {key : EventKey} {slot : Nat} {r : EventRecord (Action α)}
    (hk : key ∈ s.queue.toList) (hr : s.slots.record? slot = some r) (hu : r.uid = key.sequence) : key = keyOf slot r :=
  List.inj_on_of_nodup_map h.nodup hk (h.keyed hr) hu.symm

/-- Events with one number are one event. -/
theorem Sound.slot_unique (h : s.Sound) {slot slot' : Nat} {r r' : EventRecord (Action α)}
    (hr : s.slots.record? slot = some r) (hr' : s.slots.record? slot' = some r') (hu : r.uid = r'.uid) :
    slot = slot' ∧ r = r' := by
  have hk := h.eq_keyOf (h.keyed hr) hr' hu.symm
  obtain rfl : slot = slot' := congrArg EventKey.slot hk
  rw [hr] at hr'
  exact ⟨rfl, Option.some.inj hr'⟩

theorem Sound.uid_lt (h : s.Sound) {slot : Nat} {r : EventRecord (Action α)} (hr : s.slots.record? slot = some r) :
    r.uid < s.nextUid :=
  h.lt_next _ (h.keyed hr)

/-! ## The next event -/

/-- The simulator after a key of no pending event was passed over. -/
def passOver (s : Simulator α) (queue : EventQueue) : Simulator α :=
  { s with queue, metrics := { s.metrics with stale := s.metrics.stale + 1 } }

theorem Sound.passOver (h : s.Sound) {key : EventKey} {queue : EventQueue} (hp : s.queue.pop? = some (key, queue))
    (hg : s.slots.get? key.slot key.sequence = none) : (s.passOver queue).Sound := by
  obtain ⟨hv, hperm, -⟩ := EventQueue.pop?_eq_some h.queue hp
  have hnodup := (hperm.map EventKey.sequence).nodup_iff.1 h.nodup
  refine ⟨hv, h.slots, ?_, (List.nodup_cons.1 hnodup).2, ?_, h.due, h.now_nonneg⟩
  · intro slot r hr
    rcases List.mem_cons.1 (hperm.mem_iff.1 (h.keyed hr)) with rfl | hm
    · cases hg.symm.trans (EventSlots.get?_eq_some_iff.2 ⟨hr, rfl⟩)
    · exact hm
  · intro k hk
    exact h.lt_next k (hperm.mem_iff.2 (List.mem_cons_of_mem _ hk))

/-- The simulator after an event was taken from its slot and its key from the queue. -/
def takeOut (s : Simulator α) (queue : EventQueue) (slots : EventSlots (Action α)) : Simulator α :=
  { s with queue, slots }

/-- Taking out the event of the earliest key. -/
theorem Sound.takeOut (h : s.Sound) {key : EventKey} {queue : EventQueue} {r : EventRecord (Action α)}
    {slots : EventSlots (Action α)} (hp : s.queue.pop? = some (key, queue))
    (ht : s.slots.take? key.slot key.sequence = some (r, slots)) :
    (s.takeOut queue slots).Sound ∧ s.slots.record? key.slot = some r ∧ r.uid = key.sequence ∧
      ∀ slot r', s.slots.record? slot = some r' → slot ≠ key.slot → r.before r' := by
  obtain ⟨hv, hperm, hleast⟩ := EventQueue.pop?_eq_some h.queue hp
  have hnodup := (hperm.map EventKey.sequence).nodup_iff.1 h.nodup
  obtain ⟨hg, hs, -⟩ := EventSlots.take?_eq_some h.slots ht
  obtain ⟨hr, hu⟩ := EventSlots.get?_eq_some_iff.1 hg
  have hk : key = keyOf key.slot r := h.eq_keyOf (hperm.mem_iff.2 List.mem_cons_self) hr hu
  refine ⟨⟨hv, hs, ?_, (List.nodup_cons.1 hnodup).2, ?_, ?_, h.now_nonneg⟩, hr, hu, ?_⟩
  · intro slot r' hr'
    obtain ⟨hne, hr'⟩ := EventSlots.record?_of_take? h.slots ht hr'
    rcases List.mem_cons.1 (hperm.mem_iff.1 (h.keyed hr')) with he | hm
    · exact absurd (congrArg EventKey.slot he) hne
    · exact hm
  · intro k hk
    exact h.lt_next k (hperm.mem_iff.2 (List.mem_cons_of_mem _ hk))
  · intro slot r' hr'
    exact h.due (EventSlots.record?_of_take? h.slots ht hr').2
  · intro slot r' hr' hne
    have hle := hleast _ (h.keyed hr')
    rw [hk, EventKey.precedes_iff] at hle
    have hne' : r.uid ≠ r'.uid := fun he => hne (h.slot_unique hr hr' he).1.symm
    simp only [keyOf] at hle
    unfold EventRecord.before
    omega

/-- Two simulators that differ at most in their queues, slots, and count of keys passed over. -/
def SameBesides (s s' : Simulator α) : Prop :=
  s' = { s with queue := s'.queue, slots := s'.slots, metrics := { s.metrics with stale := s'.metrics.stale } }

/-- If no event is found, none waits, and only stale keys are gone. -/
theorem Sound.nextEvent_eq_none (h : s.Sound) (hn : s.nextEvent = (none, s')) :
    s'.Sound ∧ (∀ slot, s.slots.record? slot = none) ∧ SameBesides s s' ∧ s'.slots = s.slots := by
  fun_induction nextEvent s with
  | case1 s hp =>
    cases hn
    refine ⟨h, fun slot => ?_, rfl, rfl⟩
    cases hr : s'.slots.record? slot with
    | none => rfl
    | some r =>
      have := h.keyed hr
      rw [EventQueue.pop?_eq_none_iff.1 hp] at this
      cases this
  | case2 s key queue r slots hp ht => cases hn
  | case3 s key queue hp ht ih =>
    obtain ⟨hs', hr, he, hsl⟩ := ih (h.passOver hp (EventSlots.take?_eq_none_iff.1 ht)) hn
    exact ⟨hs', hr, by rw [SameBesides] at he ⊢; rw [he], hsl⟩

/-- The next event is the least of the pending ones, and it is no longer pending then. -/
theorem Sound.nextEvent_eq_some (h : s.Sound) {r : EventRecord (Action α)} (hn : s.nextEvent = (some r, s')) :
    s'.Sound ∧ SameBesides s s' ∧
      ∃ slot, s.slots.record? slot = some r ∧ s.slots.take? slot r.uid = some (r, s'.slots) ∧
        ∀ slot' r', s.slots.record? slot' = some r' → slot' ≠ slot → r.before r' := by
  fun_induction nextEvent s with
  | case1 s hp => cases hn
  | case2 s key queue hp r' slots ht =>
    cases hn
    obtain ⟨hs', hr, hu, hleast⟩ := h.takeOut hp ht
    exact ⟨hs', rfl, key.slot, hr, by rw [hu]; exact ht, hleast⟩
  | case3 s key queue hp ht ih =>
    obtain ⟨hs', he, hr⟩ := ih (h.passOver hp (EventSlots.take?_eq_none_iff.1 ht)) hn
    exact ⟨hs', by rw [SameBesides] at he ⊢; rw [he], hr⟩

/-! ## Every step keeps it -/

/-- A new event gets a key for the slot into which it goes. -/
theorem Sound.insert (h : s.Sound) {time : Time} (ht : s.now.femtos ≤ time.femtos) (context : ContextId)
    (action : Action α) : (s.insert time context action).2.Sound := by
  have hfst := EventSlots.insert_fst s.slots ⟨s.nextUid, time, context, action⟩
  have hperm := EventQueue.push_perm s.queue ⟨time, s.nextUid, s.slots.nextSlot⟩
  have hrec := EventSlots.record?_insert h.slots ⟨s.nextUid, time, context, action⟩
  simp only [Simulator.insert, hfst]
  refine ⟨h.queue.push _, h.slots.insert _, fun {slot r} hr => hperm.mem_iff.2 ?_,
    (hperm.map EventKey.sequence).nodup_iff.2 (List.nodup_cons.2 ⟨?_, h.nodup⟩), ?_,
    ?_, h.now_nonneg⟩
  · rw [hrec] at hr
    split at hr
    · cases hr; subst slot; exact List.mem_cons_self
    · exact List.mem_cons_of_mem _ (h.keyed hr)
  · intro hm
    obtain ⟨k, hk, he⟩ := List.mem_map.1 hm
    exact absurd he (Nat.ne_of_lt (h.lt_next k hk))
  · intro k hk
    rcases List.mem_cons.1 (hperm.mem_iff.1 hk) with rfl | hk
    · exact Nat.lt_succ_self _
    · exact Nat.lt_succ_of_lt (h.lt_next k hk)
  · intro slot r hr
    rw [hrec] at hr
    split at hr
    · cases hr; exact ht
    · exact h.due hr

theorem Sound.take (h : s.Sound) {slot uid : Nat} {r : EventRecord (Action α)} {slots : EventSlots (Action α)}
    (ht : s.slots.take? slot uid = some (r, slots)) : { s with slots }.countCancelled.Sound := by
  obtain ⟨-, hs, -⟩ := EventSlots.take?_eq_some h.slots ht
  have hsub {i r'} (hr : slots.record? i = some r') := (EventSlots.record?_of_take? h.slots ht hr).2
  exact ⟨h.queue, hs, fun hr => h.keyed (hsub hr), h.nodup, h.lt_next, fun hr => h.due (hsub hr), h.now_nonneg⟩

/-- Whatever a request does to the simulator, it stays sound. -/
theorem Sound.effect (h : s.Sound) (he : s.Effect s') : s'.Sound := by
  cases he with
  | unchanged => exact h
  | inserted ht context action => exact h.insert ht context action
  | registered a => exact { h with lt_next := fun k hk => Nat.lt_succ_of_lt (h.lt_next k hk) }
  | cancelled ht => exact h.take ht
  | unregistered => exact { h with }
  | stopped => exact { h with }
  | drawn => exact { h with }

/-- Time goes on to that of the event, and never back. -/
theorem advance_eq_ok {r : EventRecord (Action α)} (h : s.advance r = .ok s') :
    s.now.femtos ≤ r.time.femtos ∧
      s' = { s with
        now := r.time, context := r.context, metrics := { s.metrics with executed := s.metrics.executed + 1 } } := by
  unfold advance at h
  split at h
  · cases h
  · cases h
    exact ⟨Int.not_lt.1 ‹_›, rfl⟩

/-- The clock can always be moved to the next event. -/
theorem Sound.advance (h : s.Sound) {r : EventRecord (Action α)} {s₁ : Simulator α} (hn : s.nextEvent = (some r, s₁)) :
    ∃ s₂, s₁.advance r = .ok s₂ := by
  obtain ⟨-, he, slot, hr, -⟩ := h.nextEvent_eq_some hn
  have hnow : s₁.now = s.now := by rw [he]
  refine ⟨_, if_neg (Int.not_lt.2 ?_)⟩
  rw [hnow]
  exact h.due hr

/-- After the clock was moved to the least pending event, it is at no time past one of the others. -/
theorem Sound.begin (h : s.Sound) {r : EventRecord (Action α)} {s₁ s₂ : Simulator α} (hn : s.nextEvent = (some r, s₁))
    (ha : s₁.advance r = .ok s₂) : s₂.Sound := by
  obtain ⟨h₁, -, slot, hr, ht, hleast⟩ := h.nextEvent_eq_some hn
  obtain ⟨hle, rfl⟩ := advance_eq_ok ha
  refine { h₁ with due := fun {slot' r'} hr' => ?_, now_nonneg := Int.le_trans h.now_nonneg (h.due hr) }
  obtain ⟨hne, hr'⟩ := EventSlots.record?_of_take? h.slots ht hr'
  have := hleast slot' r' hr' hne
  unfold EventRecord.before at this
  change r.time.femtos ≤ r'.time.femtos
  omega

theorem Sound.clear (h : s.Sound) : s.clear.2.Sound where
  queue := EventQueue.valid_empty
  slots := EventSlots.valid_empty
  keyed h := absurd (h.symm.trans (EventSlots.record?_empty _)) (Option.some_ne_none _)
  nodup := List.nodup_nil
  lt_next _ hk := absurd hk List.not_mem_nil
  due h := absurd (h.symm.trans (EventSlots.record?_empty _)) (Option.some_ne_none _)
  now_nonneg := h.now_nonneg

/-- Whatever happens to the simulator, it stays sound. -/
theorem Sound.step (s : Simulator α) (m : Moment α) (h : s.Sound) (hs : s.Step m) : m.state.Sound := by
  cases hs with
  | called hc => exact h.effect (effect_of_perform hc)
  | began hn ha => exact h.begin hn ha
  | idled hn => exact (h.nextEvent_eq_none hn).1
  | tornDown => exact { h with }
  | cleared => exact Sound.clear { h with }
  | switched => exact { h with }

/-- At every moment of a history, queue, slots and clock agree. -/
theorem sound_history {ω ρ : Type} (meaning : Meaning α ω) (fuel : Nat) (p : Program α ω ρ) (h : s.Sound) (w : ω) :
    ∀ m ∈ history meaning fuel p s w, m.state.Sound := by
  obtain ⟨t, hp, -⟩ := path_history meaning fuel p s w
  exact (hp.invariant Sound.step h).2

end Sound

end Simulator

end SimKernel
