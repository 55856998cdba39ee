import SimKernel.Proofs.Simulator.Agenda
import SimKernel.Proofs.Simulator.Plan

/-!
# The simulator keeps to the plan

A simulator with its slots, keys and stale keys does what the plan does that it stands for (`Refines`). While it does, all
questions about events have the same answers, for every name that was ever given out (`Refines.agrees`), and what happens
to the simulator next may happen to the plan as well (`Refines.step`). So a whole history is a history of the plan, as
long as there are fewer pending events at once than slots can be numbered (`follows_history`).
-/

namespace SimKernel

namespace Simulator

variable {α ω ρ : Type}

/-- The answers to everything that can be asked about events, and to every request, are those of the plan. -/
structure Agrees (s : Simulator α) (a : Plan α) : Prop where
  now : s.now = a.now
  context : s.context = a.context
  pending : s.pending = a.count
  hasPending : (s.pending != 0) = !a.pending.isEmpty
  isPending : ∀ id ∈ a.names, s.isPending id = .ok (a.isPending id)
  isExpired : ∀ id ∈ a.names, (s.isPending id).map (!·) = .ok (!a.isPending id)
  delayLeft : ∀ id ∈ a.names, ∃ t, s.delayLeft id = .ok t ∧ t.femtos = a.delayLeft id
  cancel : ∀ id ∈ a.names, (s.cancel id).map Prod.fst = .ok (a.cancel id.uid).1
  perform : ∀ c : Call α, ∃ slot, (c.perform s).map Prod.fst = (a.perform slot c).map Prod.fst
  progress : a.pending ≠ [] → ∃ r s₁ s₂, s.nextEvent = (some r, s₁) ∧ s₁.advance r = .ok s₂

/-- A plan to which everything happens that happens in the history, and which agrees with the simulator at each moment. -/
def Follows : Plan α → List (Moment α) → Prop
  | _, [] => True
  | a, m :: ms => ∃ a', a.Step m.deed a' ∧ m.state.Agrees a' ∧ Follows a' ms

/-- The simulator stands for the plan. -/
structure Refines (s : Simulator α) (a : Plan α) : Prop where
  sound : s.Sound
  owner : a.owner = s.owner
  resolution : a.resolution = s.config.resolution
  now : a.now = s.now
  context : a.context = s.context
  nextUid : a.nextUid = s.nextUid
  destroyEvents : a.destroyEvents = s.destroyEvents
  records : a.pending.Perm s.slots.records
  /-- No slot has the number that is kept for destroy events. -/
  size_le : s.slots.slots.size ≤ destroySlot
  named : ∀ {slot r}, s.slots.record? slot = some r → ⟨r.uid, s.owner, slot⟩ ∈ a.names
  torn : ∀ e ∈ s.destroyEvents, ⟨e.uid, s.owner, destroySlot⟩ ∈ a.names
  issued : ∀ id ∈ a.names, id.owner = s.owner ∧ id.uid < s.nextUid
  unique : ∀ id ∈ a.names, ∀ id' ∈ a.names, id.uid = id'.uid → id = id'

/-- A new simulator has an empty plan. -/
theorem refines_ofConfig (owner : Nat) (config : Config) :
    (ofConfig owner config : Simulator α).Refines (Plan.ofConfig owner config) where
  sound := sound_ofConfig owner config
  owner := rfl
  resolution := rfl
  now := rfl
  context := rfl
  nextUid := rfl
  destroyEvents := rfl
  records := .refl _
  size_le := Nat.zero_le _
  named h := absurd (h.symm.trans (EventSlots.record?_empty _)) (Option.some_ne_none _)
  torn _ h := absurd h List.not_mem_nil
  issued _ h := absurd h List.not_mem_nil
  unique _ h := absurd h List.not_mem_nil

variable {s s' : Simulator α} {a : Plan α} {id : EventId}

/-! ## Looking events up -/

/-- The events of the plan are those in the slots. -/
theorem Refines.mem_pending_iff (h : s.Refines a) {r : EventRecord (Action α)} :
    r ∈ a.pending ↔ ∃ slot, s.slots.record? slot = some r :=
  h.records.mem_iff.trans EventSlots.mem_records_iff

theorem Refines.slot_lt (h : s.Refines a) {slot : Nat} {r : EventRecord (Action α)}
    (hr : s.slots.record? slot = some r) : slot < destroySlot := by
  have := (Array.getElem?_eq_some_iff.1 (EventSlots.record?_eq_some_iff.1 hr)).1
  exact Nat.lt_of_lt_of_le this h.size_le

/-- A slot answers to a name only if the name was given out and its event is pending. -/
theorem Refines.get?_eq_some_iff (h : s.Refines a) (howner : id.owner = s.owner) {r : EventRecord (Action α)} :
    s.slots.get? id.slot id.uid = some r ↔ id ∈ a.names ∧ id.slot ≠ destroySlot ∧ a.find? id.uid = some r := by
  obtain ⟨uid, owner, slot⟩ := id
  obtain rfl : owner = s.owner := howner
  rw [EventSlots.get?_eq_some_iff, Plan.find?_eq_some_iff, h.mem_pending_iff]
  constructor
  · rintro ⟨hr, rfl⟩
    exact ⟨h.named hr, Nat.ne_of_lt (h.slot_lt hr), ⟨slot, hr⟩, rfl⟩
  · rintro ⟨hid, -, ⟨slot', hr⟩, rfl⟩
    obtain rfl : slot = slot' := congrArg EventId.slot (h.unique _ hid _ (h.named hr) rfl)
    exact ⟨hr, rfl⟩

/-- A name that was given out finds the same event in its slot and in the plan, where there are no slots. -/
theorem Refines.get?_eq_find? (h : s.Refines a) (hid : id ∈ a.names) (hslot : id.slot ≠ destroySlot) :
    s.slots.get? id.slot id.uid = a.find? id.uid := by
  apply Option.ext
  intro r
  rw [h.get?_eq_some_iff (h.issued id hid).1]
  exact ⟨fun hr => hr.2.2, fun hr => ⟨hid, hslot, hr⟩⟩

/-- A name that was never given out finds nothing. -/
theorem Refines.get?_eq_none (h : s.Refines a) (howner : id.owner = s.owner) (hid : id ∉ a.names) :
    s.slots.get? id.slot id.uid = none := by
  cases hr : s.slots.get? id.slot id.uid with
  | none => rfl
  | some r => exact absurd ((h.get?_eq_some_iff howner).1 hr).1 hid

/-- The name of a destroy event is the name of no other event. -/
theorem Refines.find?_eq_none (h : s.Refines a) (hid : id ∈ a.names) (hslot : id.slot = destroySlot) :
    a.find? id.uid = none := by
  cases hf : a.find? id.uid with
  | none => rfl
  | some r =>
    obtain ⟨hr, hu⟩ := Plan.find?_eq_some_iff.1 hf
    obtain ⟨slot, hr⟩ := h.mem_pending_iff.1 hr
    have he := h.unique _ (h.named hr) _ hid hu
    exact absurd (hslot ▸ congrArg EventId.slot he) (Nat.ne_of_lt (h.slot_lt hr))

theorem Refines.eq_of_torn (h : s.Refines a) {e : DestroyEvent α} (he : e ∈ s.destroyEvents) (hid : id ∈ a.names)
    (hu : e.uid = id.uid) : id.slot = destroySlot :=
  congrArg EventId.slot (h.unique _ hid _ (h.torn e he) hu.symm)

theorem Refines.not_torn (h : s.Refines a) (hid : id ∈ a.names) (hslot : id.slot ≠ destroySlot) :
    ∀ e ∈ s.destroyEvents, ¬ (e.uid == id.uid) = true :=
  fun _ he hu => hslot (h.eq_of_torn he hid (by simpa using hu))

/-- A name of the plan is not refused as a stranger's. -/
theorem Refines.checkIssued (h : s.Refines a) (hid : id ∈ a.names) : s.checkIssued id = .ok () :=
  if_pos (h.issued id hid)

/-- A name answers alike, whether it is that of an event or of a destroy event. -/
theorem Refines.isPending_eq (h : s.Refines a) (hid : id ∈ a.names) : s.isPending id = .ok (a.isPending id) := by
  simp only [isPending, h.checkIssued hid, bind, Except.bind, pure, Except.pure, Plan.isPending, h.destroyEvents]
  by_cases hslot : id.slot = destroySlot
  · simp only [hslot, if_true, h.find?_eq_none hid hslot, Option.isSome_none, Bool.false_or]
  · have hany : (s.destroyEvents.any fun e => e.uid == id.uid) = false :=
      List.any_eq_false.2 (h.not_torn hid hslot)
    simp only [hslot, if_false, h.get?_eq_find? hid hslot, hany, Bool.or_false]

theorem Refines.delayLeft_eq (h : s.Refines a) (hid : id ∈ a.names) :
    ∃ t, s.delayLeft id = .ok t ∧ t.femtos = a.delayLeft id := by
  simp only [delayLeft, h.checkIssued hid, bind, Except.bind, pure, Except.pure, Plan.delayLeft]
  by_cases hslot : id.slot = destroySlot
  · rw [if_pos hslot, h.find?_eq_none hid hslot]
    exact ⟨Time.zero, rfl, rfl⟩
  rw [if_neg hslot, h.get?_eq_find? hid hslot]
  cases hf : a.find? id.uid with
  | none => exact ⟨Time.zero, rfl, rfl⟩
  | some r =>
    obtain ⟨slot, hr⟩ := h.mem_pending_iff.1 (Plan.find?_eq_some_iff.1 hf).1
    have hdue := h.sound.due hr
    have hnow := h.sound.now_nonneg
    have hlt := r.time.lt_bound
    obtain ⟨t, ht⟩ : ∃ t, Time.ofFemtos? (r.time.femtos - s.now.femtos) = some t :=
      ⟨_, dif_pos ⟨by omega, by omega⟩⟩
    refine ⟨t, by simp only [Time.sub, Time.ofFemtos, ht], ?_⟩
    rw [Time.ofFemtos?_eq_some_iff.1 ht, h.now]

theorem Refines.pending_eq (h : s.Refines a) : s.pending = a.count :=
  h.sound.slots.live_eq.trans h.records.length_eq.symm

/-- If an event is pending, one can be executed. -/
theorem Refines.progress (h : s.Refines a) (hp : a.pending ≠ []) :
    ∃ r s₁ s₂, s.nextEvent = (some r, s₁) ∧ s₁.advance r = .ok s₂ := by
  obtain ⟨⟨_ | r, s₁⟩, hn⟩ : ∃ x, s.nextEvent = x := ⟨_, rfl⟩
  · obtain ⟨-, hnone, -⟩ := h.sound.nextEvent_eq_none hn
    obtain ⟨r, hr⟩ := List.exists_mem_of_ne_nil _ hp
    obtain ⟨slot, hr⟩ := h.mem_pending_iff.1 hr
    rw [hnone slot] at hr
    cases hr
  · obtain ⟨s₂, ha⟩ := h.sound.advance hn
    exact ⟨r, s₁, s₂, hn, ha⟩

/-! ## Requests -/

/-- The answer is the same, and the simulator still stands for the plan afterwards. -/
inductive Matches {σ : Type} : Except Fault (σ × Simulator α) → Except Fault (σ × Plan α) → Prop
  | ok (answer : σ) {s : Simulator α} {a : Plan α} (h : s.pending < destroySlot → s.Refines a) :
      Matches (.ok (answer, s)) (.ok (answer, a))
  | error (f : Fault) : Matches (.error f) (.error f)

/-- The same answer, and a plan for the simulator if not too many events wait. -/
theorem Matches.of_eq {σ : Type} {x : σ × Simulator α} {y : σ × Plan α} (hfst : x.1 = y.1)
    (h : x.2.pending < destroySlot → x.2.Refines y.2) : Matches (.ok x) (.ok y) := by
  obtain ⟨answer, s⟩ := x
  obtain ⟨answer', a⟩ := y
  obtain rfl : answer = answer' := hfst
  exact .ok answer h

theorem Matches.keep {σ : Type} {x : σ × Simulator α} {y : σ × Plan α} (h : Matches (.ok x) (.ok y)) :
    Matches (.ok (Call.keep s (.ok x))) (.ok (a.keep (.ok y))) := by
  obtain ⟨answer, s⟩ := x
  obtain ⟨answer', a⟩ := y
  cases h with
  | ok _ h => exact .ok _ h

theorem Matches.fst_eq {σ : Type} {x : Except Fault (σ × Simulator α)} {y : Except Fault (σ × Plan α)} (h : Matches x y) :
    x.map Prod.fst = y.map Prod.fst := by
  cases h <;> rfl

theorem Refines.issued_cons (h : s.Refines a) (slot : Nat) :
    ∀ id ∈ (⟨a.nextUid, a.owner, slot⟩ :: a.names : List EventId), id.owner = s.owner ∧ id.uid < s.nextUid + 1 := by
  intro id hid
  rcases List.mem_cons.1 hid with rfl | hid
  · exact ⟨h.owner, h.nextUid ▸ Nat.lt_succ_self _⟩
  · exact ⟨(h.issued id hid).1, Nat.lt_succ_of_lt (h.issued id hid).2⟩

/-- The name of a new event differs from all others in its number. -/
theorem Refines.unique_cons (h : s.Refines a) (slot : Nat) :
    ∀ id ∈ (⟨a.nextUid, a.owner, slot⟩ :: a.names : List EventId),
      ∀ id' ∈ (⟨a.nextUid, a.owner, slot⟩ :: a.names : List EventId), id.uid = id'.uid → id = id' := by
  have hnew : ∀ id ∈ a.names, id.uid ≠ a.nextUid := fun id hid => h.nextUid ▸ Nat.ne_of_lt (h.issued id hid).2
  intro id hid id' hid' hu
  rcases List.mem_cons.1 hid with rfl | hid <;> rcases List.mem_cons.1 hid' with rfl | hid'
  · rfl
  · exact absurd hu.symm (hnew id' hid')
  · exact absurd hu (hnew id hid)
  · exact h.unique id hid id' hid' hu

/-- A new event goes into a vacant slot, so its name is new and the names of the others stay. -/
theorem Refines.insert (h : s.Refines a) {time : Time} (ht : s.now.femtos ≤ time.femtos) (context : ContextId)
    (action : Action α) (room : (s.insert time context action).2.pending < destroySlot) :
    (s.insert time context action).2.Refines (a.insert s.slots.nextSlot time context action).2 where
  sound := h.sound.insert ht context action
  owner := h.owner
  resolution := h.resolution
  now := h.now
  context := h.context
  nextUid := congrArg (· + 1) h.nextUid
  destroyEvents := h.destroyEvents
  records := by
    have hperm := EventSlots.records_insert_perm h.sound.slots ⟨s.nextUid, time, context, action⟩
    change List.Perm (_ :: a.pending) _
    rw [h.nextUid]
    exact (h.records.cons _).trans hperm.symm
  size_le := by
    have hsize := h.sound.slots.size_insert_le ⟨s.nextUid, time, context, action⟩
    exact Nat.le_trans hsize (Nat.max_le.2 ⟨h.size_le, Nat.le_of_lt room⟩)
  named {slot r} hr := by
    have hr : (s.slots.insert ⟨s.nextUid, time, context, action⟩).2.record? slot = some r := hr
    rw [EventSlots.record?_insert h.sound.slots] at hr
    change _ ∈ _ :: a.names
    rw [h.nextUid, h.owner]
    split at hr
    · cases hr
      subst slot
      exact List.mem_cons_self
    · exact List.mem_cons_of_mem _ (h.named hr)
  torn e he := List.mem_cons_of_mem _ (h.torn e he)
  issued := by
    change ∀ id ∈ _ :: a.names, id.owner = s.owner ∧ id.uid < s.nextUid + 1
    exact h.issued_cons _
  unique := h.unique_cons _

/-- Slots, keys and counts after an event was deleted. -/
theorem Refines.take (h : s.Refines a) {slot : Nat} {r : EventRecord (Action α)} {queue : EventQueue}
    {slots : EventSlots (Action α)} {metrics : Metrics} (ht : s.slots.take? slot r.uid = some (r, slots))
    (hs : ({ s with queue, slots, metrics } : Simulator α).Sound) :
    ({ s with queue, slots, metrics } : Simulator α).Refines (a.erase r.uid) := by
  obtain ⟨-, -, -, hperm, -, hsize⟩ := EventSlots.take?_eq_some h.sound.slots ht
  exact { h with
    sound := hs
    records := Plan.erase_pending_perm (h.records.trans hperm)
    size_le := hsize ▸ h.size_le
    named := fun hr => h.named (EventSlots.record?_of_take? h.sound.slots ht hr).2 }

/-- A destroy event gets a name in the slot that is kept for them. -/
theorem Refines.scheduleDestroy (h : s.Refines a) (b : α) :
    (s.scheduleDestroy b).2.Refines (a.scheduleDestroy destroySlot b).2 := by
  refine { h with
    sound := h.sound.effect (.registered b)
    nextUid := congrArg (· + 1) h.nextUid
    destroyEvents := ?_
    named := fun hr => List.mem_cons_of_mem _ (h.named hr)
    torn := fun e he => ?_
    issued := h.issued_cons _
    unique := h.unique_cons _ }
  · change a.destroyEvents ++ [⟨a.nextUid, b⟩] = s.destroyEvents ++ [⟨s.nextUid, b⟩]
    rw [h.destroyEvents, h.nextUid]
  · change ⟨e.uid, s.owner, destroySlot⟩ ∈ (⟨a.nextUid, a.owner, destroySlot⟩ :: a.names : List EventId)
    rcases List.mem_append.1 he with he | he
    · exact List.mem_cons_of_mem _ (h.torn e he)
    · rw [List.mem_singleton.1 he, h.nextUid, h.owner]
      exact List.mem_cons_self

/-- A new event gets the next number, in the plan as in the simulator. -/
theorem Refines.insert_matches (h : s.Refines a) {time : Time} (ht : s.now.femtos ≤ time.femtos) (context : ContextId)
    (action : Action α) :
    Matches (.ok (s.insert time context action)) (.ok (a.insert s.slots.nextSlot time context action)) := by
  refine .of_eq ?_ (h.insert ht context action)
  simp only [Simulator.insert, Plan.insert, EventSlots.insert_fst, h.nextUid, h.owner]

theorem Refines.keep_scheduleIn (h : s.Refines a) (context : ContextId) (delay : Time) (action : Action α) :
    Matches (.ok (Call.keep s (s.scheduleIn context delay action)))
      (.ok (a.keep (a.scheduleIn s.slots.nextSlot context delay action))) := by
  unfold Simulator.scheduleIn Plan.scheduleIn
  rw [h.now, h.resolution]
  by_cases hneg : delay.isNegative
  · simp only [hneg, if_true]
    exact .ok _ fun _ => h
  simp only [hneg]
  cases ht : s.now.checkedAdd (s.config.resolution.quantize delay) with
  | none => exact .ok _ fun _ => h
  | some time =>
    have hq := s.config.resolution.quantize_nonneg (Time.isNegative_eq_false_iff.1 (by simpa using hneg))
    have hle : s.now.femtos ≤ time.femtos := by
      have := Time.ofFemtos?_eq_some_iff.1 ht
      omega
    exact (h.insert_matches hle context action).keep

theorem Refines.keep_scheduleAt (h : s.Refines a) (time : Time) (action : Action α) :
    Matches ((s.scheduleAt time action).map (Call.keep s)) ((a.scheduleAt s.slots.nextSlot time action).map a.keep) := by
  unfold Simulator.scheduleAt Plan.scheduleAt
  rw [h.now, h.context]
  cases time.sub s.now with
  | error f => exact .error f
  | ok delay => exact h.keep_scheduleIn s.context delay action

/-- Deleting a destroy event. -/
theorem Refines.unregister (h : s.Refines a) {e : DestroyEvent α} (he : e ∈ s.destroyEvents) :
    ({ s with destroyEvents := s.destroyEvents.filter fun d => d.uid != e.uid }.countCancelled).Refines
      { a with destroyEvents := s.destroyEvents.filter fun d => d.uid != e.uid } :=
  { h with
    sound := h.sound.effect (.unregistered he)
    destroyEvents := rfl
    torn := fun d hd => h.torn d (List.mem_of_mem_filter hd) }

/-- Cancelling by the name of an event, which the simulator looks for in one place only. -/
theorem Refines.cancel_of_mem (h : s.Refines a) (hid : id ∈ a.names) : Matches (s.cancel id) (.ok (a.cancel id.uid)) := by
  unfold Simulator.cancel Plan.cancel
  rw [h.checkIssued hid, h.destroyEvents]
  simp only [bind, Except.bind, pure, Except.pure]
  by_cases hslot : id.slot = destroySlot
  · simp only [hslot, if_true, h.find?_eq_none hid hslot]
    cases he : s.destroyEvents.find? fun e => e.uid == id.uid with
    | none => exact .ok _ fun _ => h
    | some e =>
      have hu : e.uid = id.uid := by simpa using List.find?_some he
      rw [← hu]
      exact .ok _ fun _ => h.unregister (List.mem_of_find?_eq_some he)
  · have hnone : s.destroyEvents.find? (fun e => e.uid == id.uid) = none :=
      List.find?_eq_none.2 (h.not_torn hid hslot)
    simp only [hslot, if_false, hnone]
    rw [← h.get?_eq_find? hid hslot]
    cases ht : s.slots.take? id.slot id.uid with
    | none =>
      rw [EventSlots.take?_eq_none_iff.1 ht]
      exact .ok _ fun _ => h
    | some x =>
      obtain ⟨r, slots⟩ := x
      have hg := (EventSlots.take?_eq_some h.sound.slots ht).1
      rw [hg]
      have hu := (EventSlots.get?_eq_some_iff.1 hg).2
      rw [← hu] at ht ⊢
      exact .ok _ fun _ => h.take ht (h.sound.take ht)

/-- Names that were never given out are the names of no events. -/
theorem Refines.cancel_of_notMem (h : s.Refines a) (howner : id.owner = s.owner) (hlt : id.uid < s.nextUid)
    (hid : id ∉ a.names) : s.cancel id = .ok (none, s) := by
  unfold Simulator.cancel
  rw [show s.checkIssued id = .ok () from if_pos ⟨howner, hlt⟩]
  simp only [bind, Except.bind, pure, Except.pure]
  by_cases hslot : id.slot = destroySlot
  · have hnone : s.destroyEvents.find? (fun e => e.uid == id.uid) = none := by
      refine List.find?_eq_none.2 fun e he hu => hid ?_
      obtain ⟨uid, owner, slot⟩ := id
      obtain rfl : slot = destroySlot := hslot
      obtain rfl : owner = s.owner := howner
      obtain rfl : e.uid = uid := by simpa using hu
      exact h.torn e he
    simp only [hslot, if_true, hnone]
  · simp only [hslot, if_false, EventSlots.take?_eq_none_iff.2 (h.get?_eq_none howner hid)]

/-- Cancelling takes the event of the name from both, or nothing from either. -/
theorem Refines.cancel (h : s.Refines a) (slot : Nat) (id : EventId) :
    Matches (s.cancel id) (a.perform slot (.cancel id)) := by
  simp only [Plan.perform, h.owner, h.nextUid]
  by_cases hi : id.owner = s.owner ∧ id.uid < s.nextUid
  · rw [if_pos hi]
    by_cases hid : id ∈ a.names
    · rw [if_pos hid]
      exact h.cancel_of_mem hid
    · rw [if_neg hid, h.cancel_of_notMem hi.1 hi.2 hid]
      exact .ok _ fun _ => h
  · have hc : s.checkIssued id = .error (.foreignEvent id.uid) := if_neg hi
    rw [if_neg hi, show s.cancel id = .error (.foreignEvent id.uid) by unfold Simulator.cancel; rw [hc]; rfl]
    exact .error _

/-- The slot in the name of the event that a request adds. -/
def slotFor (s : Simulator α) : Call α → Nat
  | .scheduleDestroy _ => destroySlot
  | _ => s.slots.nextSlot

/-- One case for each request. -/
theorem Refines.perform (h : s.Refines a) (c : Call α) : Matches (c.perform s) (a.perform (s.slotFor c) c) := by
  cases c with
  | schedule delay b =>
    simp only [Plan.perform, h.context]
    exact h.keep_scheduleIn s.context delay (.perform b)
  | scheduleIn context delay b => exact h.keep_scheduleIn context delay (.perform b)
  | scheduleAt time b => exact h.keep_scheduleAt time (.perform b)
  | scheduleNow b =>
    have hins := h.insert_matches (Int.le_refl _) s.context (.perform b)
    simp only [Plan.perform, h.now, h.context]
    exact hins
  | scheduleDestroy b =>
    refine .of_eq ?_ fun _ => h.scheduleDestroy b
    simp only [Simulator.scheduleDestroy, Plan.scheduleDestroy, slotFor, h.nextUid, h.owner]
  | cancel id => exact h.cancel _ id
  | stop => exact .ok () fun _ => { h with sound := h.sound.effect .stopped }
  | stopAt time => exact h.keep_scheduleAt time .stop
  | stopAfter delay =>
    simp only [Plan.perform, h.context]
    exact h.keep_scheduleIn s.context delay .stop
  | setRng g => exact .ok () fun _ => { h with sound := h.sound.effect (.drawn g) }

/-- Whatever is asked of the simulator, the plan has the answer. -/
theorem Refines.agrees (h : s.Refines a) : s.Agrees a where
  now := h.now.symm
  context := h.context.symm
  pending := h.pending_eq
  hasPending := by
    rw [h.pending_eq, Plan.count]
    cases a.pending <;> rfl
  isPending id hid := h.isPending_eq hid
  isExpired id hid := by rw [h.isPending_eq hid]; rfl
  delayLeft id hid := h.delayLeft_eq hid
  cancel id hid := (h.cancel_of_mem hid).fst_eq
  perform c := ⟨_, (h.perform c).fst_eq⟩
  progress := h.progress

/-! ## Steps -/

/-- The event that the simulator takes is the least one of the plan. -/
theorem Refines.begin (h : s.Refines a) {r : EventRecord (Action α)} {s₁ s₂ : Simulator α}
    (hn : s.nextEvent = (some r, s₁)) (ha : s₁.advance r = .ok s₂) :
    a.Step (.began r) (a.begin r) ∧ s₂.Refines (a.begin r) := by
  obtain ⟨hs₁, he, slot, hr, ht, hleast⟩ := h.sound.nextEvent_eq_some hn
  have h₁ : s₁.Refines (a.erase r.uid) := by
    rw [SameBesides] at he
    rw [he] at hs₁ ⊢
    exact h.take ht hs₁
  refine ⟨.began (h.mem_pending_iff.2 ⟨slot, hr⟩) ?_, ?_⟩
  · intro r' hr' hne
    obtain ⟨slot', hr'⟩ := h.mem_pending_iff.1 hr'
    refine hleast slot' r' hr' fun hs => hne ?_
    rw [hs, hr] at hr'
    exact (Option.some.inj hr').symm
  · have hs₂ := h.sound.begin hn ha
    obtain ⟨-, rfl⟩ := advance_eq_ok ha
    exact { h₁ with sound := hs₂, now := rfl, context := rfl }

/-- What happens to the simulator happens to the plan as well. -/
theorem Refines.step {m : Moment α} (h : s.Refines a) (hs : s.Step m) (room : m.state.pending < destroySlot) :
    ∃ a', a.Step m.deed a' ∧ m.state.Refines a' := by
  have hsound := Sound.step s m h.sound hs
  cases hs with
  | @called c answer s' hc =>
    obtain ⟨a', ha, h'⟩ : ∃ a', a.perform (s.slotFor c) c = .ok (answer, a') ∧ s'.Refines a' := by
      have hm := h.perform c
      rw [hc] at hm
      generalize hy : a.perform (s.slotFor c) c = y at hm
      cases hm with
      | ok _ h' => exact ⟨_, rfl, h' room⟩
    exact ⟨a', .called ha, h'⟩
  | began hn ha => exact ⟨_, h.begin hn ha⟩
  | idled hn =>
    obtain ⟨-, hnone, he, hslots⟩ := h.sound.nextEvent_eq_none hn
    refine ⟨a, .idled (List.eq_nil_iff_forall_not_mem.2 ?_), ?_⟩
    · intro r hr
      obtain ⟨slot, hr⟩ := h.mem_pending_iff.1 hr
      rw [hnone slot] at hr
      cases hr
    · rw [SameBesides, hslots] at he
      rw [he] at hsound ⊢
      exact { h with sound := hsound }
  | tornDown he =>
    refine ⟨_, .tornDown (h.destroyEvents.trans he), { h with
      sound := hsound
      destroyEvents := rfl
      torn := fun e hm => h.torn e (he ▸ List.mem_cons_of_mem _ hm) }⟩
  | cleared =>
    exact ⟨_, .cleared, { h with
      sound := hsound
      destroyEvents := rfl
      records := .refl _
      size_le := Nat.zero_le _
      named := fun hr => absurd (hr.symm.trans (EventSlots.record?_empty _)) (Option.some_ne_none _)
      torn := fun _ hm => absurd hm List.not_mem_nil }⟩
  | switched => exact ⟨a, .switched, { h with sound := hsound }⟩

theorem Path.follows {t : Simulator α} {ms : List (Moment α)} (hp : Path s ms t) (h : s.Refines a)
    (room : ∀ m ∈ ms, m.state.pending < destroySlot) : Follows a ms := by
  induction hp generalizing a with
  | nil => trivial
  | cons hs _ ih =>
    obtain ⟨a', ha, h'⟩ := h.step hs (room _ List.mem_cons_self)
    exact ⟨a', ha, h'.agrees, ih h' fun m hm => room m (List.mem_cons_of_mem _ hm)⟩

/-- **The simulator keeps to the plan.** Whatever a program and the actions do with a new simulator, and however it is run,
all of it happens to a plan that has neither slots nor keys: every request has the same answer, the events that run are
the least ones of the plan, and at each moment the questions about events have the same answers for every name ever given
out. Slots can be numbered as long as there are fewer than 2 ^ 32 - 1 pending events at once. -/
theorem follows_history (owner : Nat) (config : Config) (meaning : Meaning α ω) (fuel : Nat) (p : Program α ω ρ) (w : ω)
    (room : ∀ m ∈ history meaning fuel p (ofConfig owner config) w, m.state.pending < destroySlot) :
    Follows (Plan.ofConfig owner config) (history meaning fuel p (ofConfig owner config) w) := by
  obtain ⟨t, hp, -⟩ := path_history meaning fuel p (ofConfig owner config) w
  exact hp.follows (refines_ofConfig owner config) room

/-- Cancels an event, whose slot goes to the next one, executes that, and asks for the first one again. -/
def reuseSlot : Program Unit Unit (Option (Action Unit)) := do
  let id ← Program.request (.scheduleNow ())
  let _ ← Program.request (.cancel id)
  let _ ← Program.request (.scheduleNow ())
  let _ ← Program.requestDrive .step
  Program.request (.cancel id)

theorem follows_history_reuseSlot :
    let h := history (fun _ => Program.done ()) 1 reuseSlot (ofConfig 0 {}) ()
    (∀ m ∈ h, m.state.pending < destroySlot) ∧ Follows (Plan.ofConfig 0 {}) h :=
  have room : ∀ m ∈ history (fun _ => Program.done ()) 1 reuseSlot (ofConfig 0 {}) (), m.state.pending < destroySlot := by
    decide +kernel
  ⟨room, follows_history 0 {} _ 1 reuseSlot () room⟩

end Simulator

end SimKernel
