import SimKernel.Proofs.Outcome
import SimKernel.Proofs.Simulator.Accounting

/-!
# The table of pending events

What a step does to the slots, event by event. An event that is pending after a step was pending before, or the step
scheduled it (`Sound.record?_of_step`); an event that was pending still is, unless the step took it away
(`Sound.record?_step`).

Whoever schedules events for one action and keeps the name of the last one can rely on it: `AtMost s a id?` says that no
other event is pending that performs `a`, and `Tracks` says the same of any kind of events. Scheduling one when there is
none makes it the one with the new name, and cancelling by the name leaves none.

As long as the name of an event is one that the simulator issued (`Issued`), every question about it has an answer. For an
event that does not wait, all the answers say so (`cancel_of_isPending`, `delayLeft_of_isPending`).
-/

namespace SimKernel

variable {α : Type}

/-- The action of the event that a call schedules. -/
def Call.schedules? : Call α → Option (Action α)
  | schedule _ a | scheduleIn _ _ a | scheduleAt _ a | scheduleNow a | scheduleDestroy a => some (.perform a)
  | stopAt _ | stopAfter _ => some .stop
  | cancel _ | stop | setRng _ => none

/-- The action of an event that is scheduled or begins. -/
def Deed.action? : Deed α → Option (Action α)
  | called c _ => c.schedules?
  | began r => some r.action
  | tornDown e => some (.perform e.action)
  | idled | cleared | switched => none

/-- The action of an event that was pending and is not any more. -/
def Deed.removed? : Deed α → Option (Action α)
  | called (.cancel _) answer => answer
  | began r => some r.action
  | _ => none

namespace Simulator

variable {s s' : Simulator α}

/-- The pending events that perform `a` are at most the one with the name. -/
def AtMost (s : Simulator α) (a : α) (id? : Option EventId) : Prop :=
  ∀ slot r, s.slots.record? slot = some r → r.action = .perform a → id? = some ⟨r.uid, s.owner, slot⟩

/-- An event is pending that performs `a` at the time. -/
def Awaits (s : Simulator α) (a : α) (time : Time) : Prop :=
  ∃ slot r, s.slots.record? slot = some r ∧ r.action = .perform a ∧ r.time = time

/-! ## Steps -/

theorem insert_fst (s : Simulator α) (time : Time) (context : ContextId) (action : Action α) :
    (s.insert time context action).1 = ⟨s.nextUid, s.owner, s.slots.nextSlot⟩ := by
  simp only [insert, EventSlots.insert_fst]

theorem Sound.record?_insert (h : s.Sound) (time : Time) (context : ContextId) (action : Action α) (slot : Nat) :
    (s.insert time context action).2.slots.record? slot =
      if slot = s.slots.nextSlot then some ⟨s.nextUid, time, context, action⟩ else s.slots.record? slot :=
  EventSlots.record?_insert h.slots _ slot

/-- A new event lies in a slot that was vacant. -/
theorem Sound.record?_insert_of_some (h : s.Sound) (time : Time) (context : ContextId) (action : Action α) {slot : Nat}
    {r : EventRecord (Action α)} (hr : s.slots.record? slot = some r) :
    (s.insert time context action).2.slots.record? slot = some r := by
  rw [h.record?_insert, if_neg, hr]
  rintro rfl
  rw [h.slots.record?_nextSlot] at hr
  cases hr

/-- A further slot is only made for an event. -/
theorem Sound.size_insert_le (h : s.Sound) {time : Time} {context : ContextId} {action : Action α} {n : Nat}
    (hsize : s.slots.slots.size ≤ n) (hpending : (s.insert time context action).2.pending ≤ n) :
    (s.insert time context action).2.slots.slots.size ≤ n :=
  Nat.le_trans (h.slots.size_insert_le _) (Nat.max_le.2 ⟨hsize, hpending⟩)

/-- The simulators agree but for events and counters. -/
structure SameEvents (s s' : Simulator α) : Prop where
  owner : s'.owner = s.owner
  config : s'.config = s.config
  now : s'.now = s.now
  slots : s'.slots = s.slots

/-- A request schedules an event, takes one away, or leaves the pending events as they are. -/
theorem perform_cases {c : Call α} {answer : c.Answer} (h : c.perform s = .ok (answer, s')) :
    (∃ (time : Time) (context : ContextId) (action : Action α), c.schedules? = some action ∧
      s.now.femtos ≤ time.femtos ∧ s' = (s.insert time context action).2) ∨
    (∃ (id : EventId) (r : EventRecord (Action α)) (slots : EventSlots (Action α)),
      s.slots.take? id.slot id.uid = some (r, slots) ∧ (Deed.called c answer).removed? = some r.action ∧
      s' = { s with slots }.countCancelled) ∨
    SameEvents s s' := by
  cases c with
  | schedule | scheduleIn | stopAfter =>
    rcases keep_cases (Except.ok.inj h) with rfl | ⟨time, hle, rfl⟩
    · exact .inr (.inr ⟨rfl, rfl, rfl, rfl⟩)
    · exact .inl ⟨time, _, _, rfl, hle, rfl⟩
  | scheduleAt | stopAt =>
    rcases keep_scheduleAt_cases h with rfl | ⟨time, hle, rfl⟩
    · exact .inr (.inr ⟨rfl, rfl, rfl, rfl⟩)
    · exact .inl ⟨time, _, _, rfl, hle, rfl⟩
  | scheduleNow a =>
    obtain rfl := congrArg Prod.snd (Except.ok.inj h)
    exact .inl ⟨s.now, s.context, _, rfl, Int.le_refl _, rfl⟩
  | scheduleDestroy a => cases h; exact .inr (.inr ⟨rfl, rfl, rfl, rfl⟩)
  | cancel id =>
    rcases cancel_eq_ok h with ⟨rfl, rfl, -⟩ | ⟨e, -, -, -, -, rfl⟩ | ⟨r, slots, -, ht, rfl, rfl⟩
    · exact .inr (.inr ⟨rfl, rfl, rfl, rfl⟩)
    · exact .inr (.inr ⟨rfl, rfl, rfl, rfl⟩)
    · exact .inr (.inl ⟨id, r, slots, ht, rfl, rfl⟩)
  | stop => cases h; exact .inr (.inr ⟨rfl, rfl, rfl, rfl⟩)
  | setRng g => cases h; exact .inr (.inr ⟨rfl, rfl, rfl, rfl⟩)

/-- The event that begins was the least of the pending ones, and it is the only one that is not pending any more. -/
theorem Sound.step_began (h : s.Sound) {r : EventRecord (Action α)} (hs : s.Step ⟨.began r, s'⟩) :
    s'.now = r.time ∧ s'.owner = s.owner ∧ s'.config = s.config ∧ s'.slots.slots.size = s.slots.slots.size ∧
      ∃ slot, s.slots.record? slot = some r ∧
        (∀ i, s'.slots.record? i = if i = slot then none else s.slots.record? i) ∧
        ∀ i r', s.slots.record? i = some r' → i ≠ slot → r.before r' := by
  cases hs with
  | @began _ s₁ _ hn ha =>
    obtain ⟨-, he, slot, hr, ht, hleast⟩ := h.nextEvent_eq_some hn
    obtain ⟨-, rfl⟩ := advance_eq_ok ha
    obtain ⟨-, -, hrec, -, -, hsize⟩ := EventSlots.take?_eq_some h.slots ht
    have howner : s₁.owner = s.owner := by rw [he]
    have hconfig : s₁.config = s.config := by rw [he]
    exact ⟨rfl, howner, hconfig, hsize, slot, hr, hrec, hleast⟩

/-- When an event begins, none is added. -/
theorem Sound.record?_of_began (h : s.Sound) {r : EventRecord (Action α)} (hs : s.Step ⟨.began r, s'⟩) {slot : Nat}
    {r' : EventRecord (Action α)} (hr : s'.slots.record? slot = some r') : s.slots.record? slot = some r' := by
  obtain ⟨-, -, -, -, slot', -, hrec, -⟩ := h.step_began hs
  rw [hrec] at hr
  split at hr
  · cases hr
  · exact hr

theorem Sound.step_idled (h : s.Sound) (hs : s.Step ⟨.idled, s'⟩) :
    SameEvents s s' := by
  cases hs with
  | idled hn =>
    obtain ⟨-, -, he, hslots⟩ := h.nextEvent_eq_none hn
    exact ⟨by rw [he], by rw [he], by rw [he], hslots⟩

variable {m : Moment α}

theorem Sound.step_owner (h : s.Sound) (hs : s.Step m) : m.state.owner = s.owner ∧ m.state.config = s.config := by
  cases hs with
  | called hc =>
    rcases perform_cases hc with ⟨time, context, action, -, -, rfl⟩ | ⟨id, r, slots, -, -, rfl⟩ | he
    · exact ⟨rfl, rfl⟩
    · exact ⟨rfl, rfl⟩
    · exact ⟨he.owner, he.config⟩
  | began hn ha =>
    obtain ⟨-, howner, hconfig, -⟩ := h.step_began (.began hn ha)
    exact ⟨howner, hconfig⟩
  | idled hn =>
    have he := h.step_idled (.idled hn)
    exact ⟨he.owner, he.config⟩
  | tornDown | cleared | switched => exact ⟨rfl, rfl⟩

/-- Along a path a simulator stays sound, and keeps its settings. -/
theorem Path.sound_settings {t : Simulator α} {ms : List (Moment α)} (hp : Path s ms t) (h : s.Sound) :
    t.Sound ∧ t.owner = s.owner ∧ t.config = s.config := by
  refine (hp.invariant (I := fun u => u.Sound ∧ u.owner = s.owner ∧ u.config = s.config) ?_ ⟨h, rfl, rfl⟩).1
  intro u m ⟨hu, howner, hconfig⟩ hs
  obtain ⟨howner', hconfig'⟩ := hu.step_owner hs
  exact ⟨Sound.step u m hu hs, howner'.trans howner, hconfig'.trans hconfig⟩

/-- Further slots are only made for pending events. -/
theorem Sound.step_size_le (h : s.Sound) (hs : s.Step m) {n : Nat} (hsize : s.slots.slots.size ≤ n)
    (hpending : m.state.pending ≤ n) : m.state.slots.slots.size ≤ n := by
  cases hs with
  | called hc =>
    rcases perform_cases hc with ⟨time, context, action, -, -, rfl⟩ | ⟨id, r, slots, ht, -, rfl⟩ | he
    · exact h.size_insert_le hsize hpending
    · obtain ⟨-, -, -, -, -, hsame⟩ := EventSlots.take?_eq_some h.slots ht
      exact Nat.le_trans (Nat.le_of_eq hsame) hsize
    · exact he.slots ▸ hsize
  | began hn ha =>
    obtain ⟨-, -, -, hsame, -⟩ := h.step_began (.began hn ha)
    exact Nat.le_trans (Nat.le_of_eq hsame) hsize
  | idled hn => exact (h.step_idled (.idled hn)).slots ▸ hsize
  | tornDown | switched => exact hsize
  | cleared => exact Nat.zero_le n

/-- An event that is pending after a step was so before, or the step scheduled it under the next number. -/
theorem Sound.record?_of_step (h : s.Sound) (hs : s.Step m) {slot : Nat} {r : EventRecord (Action α)}
    (hr : m.state.slots.record? slot = some r) :
    s.slots.record? slot = some r ∨ m.deed.action? = some r.action ∧ r.uid = s.nextUid := by
  cases hs with
  | called hc =>
    rcases perform_cases hc with ⟨time, context, action, ha, -, rfl⟩ | ⟨id, r', slots, ht, -, rfl⟩ | he
    · rw [h.record?_insert] at hr
      split at hr
      · cases hr; exact .inr ⟨ha, rfl⟩
      · exact .inl hr
    · exact .inl (EventSlots.record?_of_take? h.slots ht hr).2
    · exact .inl (he.slots ▸ hr)
  | began hn ha => exact .inl (h.record?_of_began (.began hn ha) hr)
  | idled hn => exact .inl ((h.step_idled (.idled hn)).slots ▸ hr)
  | tornDown | switched => exact .inl hr
  | cleared => exact absurd (hr.symm.trans (EventSlots.record?_empty slot)) (Option.some_ne_none r)

/-- An event that was pending still is after a step, unless the step took it away. -/
theorem Sound.record?_step (h : s.Sound) (hs : s.Step m) {slot : Nat} {r : EventRecord (Action α)}
    (hr : s.slots.record? slot = some r) :
    m.state.slots.record? slot = some r ∨ m.deed.removed? = some r.action ∨ m.deed = .cleared := by
  cases hs with
  | called hc =>
    rcases perform_cases hc with ⟨time, context, action, -, -, rfl⟩ | ⟨id, r', slots, ht, ha, rfl⟩ | he
    · exact .inl (h.record?_insert_of_some time context action hr)
    · obtain ⟨hg, -, hrec, -⟩ := EventSlots.take?_eq_some h.slots ht
      change slots.record? slot = some r ∨ _
      rw [hrec]
      split
      case isTrue he =>
        subst slot
        obtain rfl : r' = r := Option.some.inj ((EventSlots.get?_eq_some_iff.1 hg).1.symm.trans hr)
        exact .inr (.inl ha)
      case isFalse => exact .inl hr
    · exact .inl (he.slots.symm ▸ hr)
  | @began r' _ _ hn ha =>
    obtain ⟨-, -, -, -, slot', hr', hrec, -⟩ := h.step_began (.began hn ha)
    rw [hrec]
    split
    case isTrue he =>
      subst slot
      obtain rfl : r' = r := Option.some.inj (hr'.symm.trans hr)
      exact .inr (.inl rfl)
    case isFalse => exact .inl hr
  | idled hn => exact .inl ((h.step_idled (.idled hn)).slots.symm ▸ hr)
  | tornDown | switched => exact .inl hr
  | cleared => exact .inr (.inr rfl)

/-! ## One event at least -/

theorem Sound.awaits_insert (h : s.Sound) (time : Time) (context : ContextId) (a : α) :
    (s.insert time context (.perform a)).2.Awaits a time :=
  ⟨s.slots.nextSlot, _, by rw [h.record?_insert, if_pos rfl], rfl, rfl⟩

theorem Awaits.insert {a : α} {time : Time} (h : s.Awaits a time) (hs : s.Sound) (time' : Time) (context : ContextId)
    (action : Action α) : (s.insert time' context action).2.Awaits a time := by
  obtain ⟨slot, r, hr, ha, ht⟩ := h
  exact ⟨slot, r, hs.record?_insert_of_some time' context action hr, ha, ht⟩

/-- The event still waits after a step that neither takes it away nor forgets everything. -/
theorem Awaits.step {a : α} {time : Time} (h : s.Awaits a time) (hs : s.Sound) (hstep : s.Step m)
    (hremoved : m.deed.removed? ≠ some (.perform a)) (hcleared : m.deed ≠ .cleared) : m.state.Awaits a time := by
  obtain ⟨slot, r, hr, ha, ht⟩ := h
  rcases hs.record?_step hstep hr with hr | hr | hd
  · exact ⟨slot, r, hr, ha, ht⟩
  · exact absurd (ha ▸ hr) hremoved
  · exact absurd hd hcleared

/-! ## One event at most -/

/-- The pending events with the property are at most the one with the name. -/
def Tracks (s : Simulator α) (P : EventRecord (Action α) → Prop) (id? : Option EventId) : Prop :=
  ∀ slot r, s.slots.record? slot = some r → P r → id? = some ⟨r.uid, s.owner, slot⟩

/-- The slot of a pending event is not the one that stands for the teardown. -/
theorem ne_destroySlot (hsize : s.slots.slots.size ≤ destroySlot) {slot : Nat} {r : EventRecord (Action α)}
    (hr : s.slots.record? slot = some r) : slot ≠ destroySlot :=
  Nat.ne_of_lt (Nat.lt_of_lt_of_le (Array.getElem?_eq_some_iff.1 (EventSlots.record?_eq_some_iff.1 hr)).1 hsize)

/-- After the one with the name was cancelled there is none. -/
theorem Tracks.cancel {P : EventRecord (Action α) → Prop} {id : EventId} (h : Tracks s P (some id)) (hs : s.Sound)
    (hsize : s.slots.slots.size ≤ destroySlot) {answer : Option (Action α)} (hc : s.cancel id = .ok (answer, s')) :
    Tracks s' P none := by
  intro slot r hr hP
  exfalso
  rcases cancel_eq_ok hc with ⟨-, rfl, hnone⟩ | ⟨e, -, hd, -, -, rfl⟩ | ⟨r', slots, -, ht, -, rfl⟩
  · obtain rfl := Option.some.inj (h slot r hr hP)
    have hg : s'.slots.get? slot r.uid = some r := EventSlots.get?_eq_some_iff.2 ⟨hr, rfl⟩
    cases hg.symm.trans (EventSlots.take?_eq_none_iff.1 (hnone (ne_destroySlot hsize hr)))
  · obtain rfl := Option.some.inj (h slot r hr hP)
    exact ne_destroySlot hsize hr hd
  · obtain ⟨hne, hr⟩ := EventSlots.record?_of_take? hs.slots ht hr
    obtain rfl := Option.some.inj (h slot r hr hP)
    exact hne rfl

namespace AtMost

variable {a : α} {id? : Option EventId}

/-- The one event waits at the time. -/
theorem time_eq (h : AtMost s a id?) {time : Time} (hw : s.Awaits a time) {slot : Nat} {r : EventRecord (Action α)}
    (hr : s.slots.record? slot = some r) (ha : r.action = .perform a) : r.time = time := by
  obtain ⟨slot', r', hr', ha', rfl⟩ := hw
  have he := Option.some.inj ((h slot r hr ha).symm.trans (h slot' r' hr' ha'))
  obtain rfl : slot = slot' := congrArg EventId.slot he
  rw [Option.some.inj (hr.symm.trans hr')]

/-- No event is pending that performs `a`, so none is known by a wrong name. -/
theorem of_none (h : AtMost s a none) (id? : Option EventId) : AtMost s a id? :=
  fun slot r hr ha => nomatch h slot r hr ha

/-- Nothing that performs `a` was added. -/
theorem of_fewer (h : AtMost s a id?) (howner : s'.owner = s.owner)
    (hsub : ∀ slot r, s'.slots.record? slot = some r → r.action = .perform a → s.slots.record? slot = some r) :
    AtMost s' a id? :=
  fun slot r hr ha => howner ▸ h slot r (hsub slot r hr ha) ha

theorem insert_other (h : AtMost s a id?) (hs : s.Sound) (time : Time) (context : ContextId) {action : Action α}
    (hne : action ≠ .perform a) : AtMost (s.insert time context action).2 a id? := by
  refine h.of_fewer rfl fun slot r hr ha => ?_
  rw [hs.record?_insert] at hr
  split at hr
  · cases hr; exact absurd ha hne
  · exact hr

/-- The event that is scheduled is the only one. -/
theorem insert_self (h : AtMost s a none) (hs : s.Sound) (time : Time) (context : ContextId) :
    AtMost (s.insert time context (.perform a)).2 a (some (s.insert time context (.perform a)).1) := by
  intro slot r hr ha
  rw [hs.record?_insert] at hr
  split at hr
  case isTrue he => cases hr; rw [he, insert_fst]; rfl
  case isFalse => exact nomatch h slot r hr ha

/-- After the one with the name was cancelled there is none. -/
theorem cancel {id : EventId} (h : AtMost s a (some id)) (hs : s.Sound) (hsize : s.slots.slots.size ≤ destroySlot)
    {answer : Option (Action α)} (hc : s.cancel id = .ok (answer, s')) : AtMost s' a none :=
  Tracks.cancel h hs hsize hc

/-- An event that is not pending does not begin. -/
theorem not_began (h : AtMost s a none) (hs : s.Sound) {r : EventRecord (Action α)} (hstep : s.Step ⟨.began r, s'⟩) :
    r.action ≠ .perform a := by
  intro ha
  obtain ⟨-, -, -, -, slot, hr, -⟩ := hs.step_began hstep
  exact nomatch h slot r hr ha

/-- After the event began there is none that performs its action. -/
theorem begin (h : AtMost s a id?) (hs : s.Sound) {r : EventRecord (Action α)} (hstep : s.Step ⟨.began r, s'⟩)
    (ha : r.action = .perform a) : AtMost s' a none := by
  obtain ⟨-, -, -, -, slot', hr', hrec, -⟩ := hs.step_began hstep
  intro slot r'' hr ha'
  rw [hrec] at hr
  split at hr
  case isTrue => cases hr
  case isFalse hne =>
    have he := Option.some.inj ((h slot r'' hr ha').symm.trans (h slot' r hr' ha))
    exact absurd (congrArg EventId.slot he) hne

end AtMost

/-! ## Questions about events -/

/-- The simulator issued an event of that name. -/
structure Issued (s : Simulator α) (id : EventId) : Prop where
  owner : id.owner = s.owner
  uid_lt : id.uid < s.nextUid

namespace Issued

variable {id : EventId}

theorem checkIssued_eq (h : s.Issued id) : s.checkIssued id = .ok () :=
  if_pos ⟨h.owner, h.uid_lt⟩

theorem isPending_eq (h : s.Issued id) (hslot : id.slot ≠ destroySlot) :
    s.isPending id = .ok (s.slots.get? id.slot id.uid).isSome := by
  simp only [isPending, h.checkIssued_eq, bind, Except.bind, hslot, if_false]
  rfl

theorem delayLeft_of_none (h : s.Issued id) (hg : id.slot = destroySlot ∨ s.slots.get? id.slot id.uid = none) :
    s.delayLeft id = .ok Time.zero := by
  simp only [delayLeft, h.checkIssued_eq, bind, Except.bind]
  by_cases hslot : id.slot = destroySlot
  · simp only [hslot, if_true]
    rfl
  · simp only [hslot, if_false, hg.resolve_left hslot]
    rfl

/-- A pending event is due at a time that is not past, so the time until then is a time. -/
theorem delayLeft_of_get? (h : s.Issued id) (hs : s.Sound) (hslot : id.slot ≠ destroySlot) {r : EventRecord (Action α)}
    (hg : s.slots.get? id.slot id.uid = some r) :
    ∃ d, s.delayLeft id = .ok d ∧ d.femtos = r.time.femtos - s.now.femtos := by
  have hdue := hs.due (EventSlots.get?_eq_some_iff.1 hg).1
  have hnow := hs.now_nonneg
  have hlt := r.time.lt_bound
  obtain ⟨d, hd⟩ : ∃ d, Time.ofFemtos? (r.time.femtos - s.now.femtos) = some d := ⟨_, dif_pos ⟨by omega, by omega⟩⟩
  refine ⟨d, ?_, Time.ofFemtos?_eq_some_iff.1 hd⟩
  simp only [delayLeft, h.checkIssued_eq, bind, Except.bind, hslot, if_false, hg, Time.sub, Time.ofFemtos, hd]

theorem exists_delayLeft_eq (h : s.Issued id) (hs : s.Sound) : ∃ d, s.delayLeft id = .ok d := by
  by_cases hslot : id.slot = destroySlot
  · exact ⟨_, h.delayLeft_of_none (.inl hslot)⟩
  cases hg : s.slots.get? id.slot id.uid with
  | none => exact ⟨_, h.delayLeft_of_none (.inr hg)⟩
  | some r =>
    obtain ⟨d, hd, -⟩ := h.delayLeft_of_get? hs hslot hg
    exact ⟨d, hd⟩

/-- An event of that name can be cancelled. -/
theorem cancel_eq (h : s.Issued id) : ∃ answer s', s.cancel id = .ok (answer, s') := by
  simp only [cancel, h.checkIssued_eq, bind, Except.bind, pure, Except.pure]
  split
  · split <;> exact ⟨_, _, rfl⟩
  · split <;> exact ⟨_, _, rfl⟩

end Issued

section Waiting

variable {id : EventId}

theorem issued_of_isPending {waits : Bool} (h : s.isPending id = .ok waits) : s.Issued id := by
  obtain ⟨_, hc, -⟩ := Outcome.bind_eq_ok_iff.1 h
  by_cases hid : id.owner = s.owner ∧ id.uid < s.nextUid
  · exact ⟨hid.1, hid.2⟩
  · cases (if_neg hid).symm.trans hc

/-- No event that waits has the name, be it in a slot or for the teardown. -/
theorem isPending_eq_false_iff (hid : s.Issued id) : s.isPending id = .ok false ↔
    if id.slot = destroySlot then (∀ e ∈ s.destroyEvents, e.uid ≠ id.uid) else s.slots.get? id.slot id.uid = none := by
  simp only [isPending, hid.checkIssued_eq, bind, Except.bind]
  split
  · simp [pure, Except.pure]
  · simp [pure, Except.pure]

theorem cancel_of_isPending (h : s.isPending id = .ok false) : s.cancel id = .ok (none, s) := by
  have hid := issued_of_isPending h
  have hnone := (isPending_eq_false_iff hid).1 h
  simp only [cancel, hid.checkIssued_eq, bind, Except.bind]
  by_cases hslot : id.slot = destroySlot
  · rw [if_pos hslot] at hnone
    have hfind : (s.destroyEvents.find? fun e => e.uid == id.uid) = none := by simpa using hnone
    simp only [hslot, if_true, hfind]
    rfl
  · rw [if_neg hslot] at hnone
    simp only [hslot, if_false, EventSlots.take?_eq_none_iff.2 hnone]
    rfl

theorem delayLeft_of_isPending (h : s.isPending id = .ok false) : s.delayLeft id = .ok Time.zero := by
  have hid := issued_of_isPending h
  have hnone := (isPending_eq_false_iff hid).1 h
  refine hid.delayLeft_of_none ?_
  by_cases hslot : id.slot = destroySlot
  · exact .inl hslot
  · exact .inr (by rwa [if_neg hslot] at hnone)

end Waiting

end Simulator

end SimKernel
