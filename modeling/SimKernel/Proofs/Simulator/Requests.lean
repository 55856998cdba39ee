import SimKernel.Simulator.Program

/-!
# What requests do

A request that is answered has one of seven effects on the simulator (`Effect`, `effect_of_perform`). Events are scheduled
at no time before the current one (`scheduleIn_eq_ok`).
-/

namespace SimKernel

/-- Whole ticks of a delay are a delay. -/
theorem Resolution.quantize_nonneg (r : Resolution) {t : Time} (h : 0 ≤ t.femtos) : 0 ≤ (r.quantize t).femtos :=
  ((Time.bounds_of_tdiv_mul t.femtos (Int.ofNat_lt.2 r.unit.femtos_pos)).1 h).1

theorem Time.isNegative_eq_false_iff {t : Time} : t.isNegative = false ↔ 0 ≤ t.femtos := by
  simp [Time.isNegative]

theorem Time.ofFemtos_eq_ok_iff {n : Int} {t : Time} : ofFemtos n = .ok t ↔ t.femtos = n := by
  rw [← ofFemtos?_eq_some_iff, ofFemtos]
  cases ofFemtos? n <;> simp

theorem Time.sub_eq_ok_iff {a b d : Time} : a.sub b = .ok d ↔ d.femtos = a.femtos - b.femtos := ofFemtos_eq_ok_iff

namespace Simulator

variable {α : Type} {s s' : Simulator α}

/-- What a request may do to a simulator. -/
inductive Effect (s : Simulator α) : Simulator α → Prop
  | unchanged : Effect s s
  | inserted {time : Time} (h : s.now.femtos ≤ time.femtos) (context : ContextId) (action : Action α) :
      Effect s (s.insert time context action).2
  | registered (a : α) : Effect s (s.scheduleDestroy a).2
  | cancelled {slot uid : Nat} {r : EventRecord (Action α)} {slots : EventSlots (Action α)}
      (h : s.slots.take? slot uid = some (r, slots)) : Effect s { s with slots }.countCancelled
  | unregistered {e : DestroyEvent α} (h : e ∈ s.destroyEvents) :
      Effect s { s with destroyEvents := s.destroyEvents.filter fun d => d.uid != e.uid }.countCancelled
  | stopped : Effect s s.stop
  | drawn (g : Rng) : Effect s { s with rng := g }

/-- An event that is scheduled after a delay gets the next number, and a time that is not past. -/
theorem scheduleIn_eq_ok {context : ContextId} {delay : Time} {action : Action α} {id : EventId}
    (h : s.scheduleIn context delay action = .ok (id, s')) :
    ∃ time : Time, s.now.femtos ≤ time.femtos ∧ (id, s') = s.insert time context action := by
  unfold scheduleIn at h
  split at h
  case isTrue => cases h
  case isFalse hneg =>
    have hq := s.config.resolution.quantize_nonneg (Time.isNegative_eq_false_iff.1 (by simpa using hneg))
    dsimp only at h
    split at h
    case h_2 => cases h
    case h_1 time ht =>
      have := Time.ofFemtos?_eq_some_iff.1 ht
      exact ⟨time, by omega, (Except.ok.inj h).symm⟩

/-- A request to schedule changes nothing, or the event is added. -/
theorem keep_cases {context : ContextId} {delay : Time} {action : Action α} {answer : Except SimError EventId}
    (h : Call.keep s (s.scheduleIn context delay action) = (answer, s')) :
    s' = s ∨ ∃ time : Time, s.now.femtos ≤ time.femtos ∧ s' = (s.insert time context action).2 := by
  cases hs : s.scheduleIn context delay action with
  | error e => rw [hs] at h; cases h; exact .inl rfl
  | ok x =>
    rw [hs] at h
    cases h
    obtain ⟨time, hle, he⟩ := scheduleIn_eq_ok hs
    exact .inr ⟨time, hle, congrArg Prod.snd he⟩

/-- An event that is scheduled for a point of time is not put before the present one. -/
theorem keep_scheduleAt_cases {time : Time} {action : Action α} {answer : Except SimError EventId}
    (h : (s.scheduleAt time action).map (Call.keep s) = .ok (answer, s')) :
    s' = s ∨ ∃ time : Time, s.now.femtos ≤ time.femtos ∧ s' = (s.insert time s.context action).2 := by
  unfold scheduleAt at h
  cases hd : time.sub s.now with
  | error f => rw [hd] at h; cases h
  | ok delay =>
    rw [hd] at h
    exact keep_cases (Except.ok.inj h)

/-- What cancelling does: nothing, or the event is taken from the teardown or from its slot. -/
theorem cancel_eq_ok {id : EventId} {answer : Option (Action α)} (h : s.cancel id = .ok (answer, s')) :
    answer = none ∧ s' = s ∧ (id.slot ≠ destroySlot → s.slots.take? id.slot id.uid = none) ∨
    (∃ e ∈ s.destroyEvents, id.slot = destroySlot ∧ e.uid = id.uid ∧ answer = some (.perform e.action) ∧
      s' = { s with destroyEvents := s.destroyEvents.filter fun d => d.uid != id.uid }.countCancelled) ∨
    ∃ r slots, id.slot ≠ destroySlot ∧ s.slots.take? id.slot id.uid = some (r, slots) ∧ answer = some r.action ∧
      s' = { s with slots }.countCancelled := by
  unfold cancel at h
  cases hc : s.checkIssued id with
  | error f => rw [hc] at h; cases h
  | ok =>
    rw [hc] at h
    simp only [bind, Except.bind, pure, Except.pure] at h
    split at h
    case isTrue hslot =>
      split at h
      case h_1 e he =>
        cases h
        exact .inr (.inl ⟨e, List.mem_of_find?_eq_some he, hslot, by simpa using List.find?_some he, rfl, rfl⟩)
      case h_2 => cases h; exact .inl ⟨rfl, rfl, fun hne => absurd hslot hne⟩
    case isFalse hslot =>
      split at h
      case h_1 r slots ht => cases h; exact .inr (.inr ⟨r, slots, hslot, ht, rfl, rfl⟩)
      case h_2 ht => cases h; exact .inl ⟨rfl, rfl, fun _ => ht⟩

theorem effect_of_keep {context : ContextId} {delay : Time} {action : Action α} {answer : Except SimError EventId}
    (h : Call.keep s (s.scheduleIn context delay action) = (answer, s')) : s.Effect s' := by
  rcases keep_cases h with rfl | ⟨time, hle, rfl⟩
  · exact .unchanged
  · exact .inserted hle context action

theorem effect_of_keep_scheduleAt {time : Time} {action : Action α} {answer : Except SimError EventId}
    (h : (s.scheduleAt time action).map (Call.keep s) = .ok (answer, s')) : s.Effect s' := by
  rcases keep_scheduleAt_cases h with rfl | ⟨time, hle, rfl⟩
  · exact .unchanged
  · exact .inserted hle s.context action

/-- Cancelling takes an event or a destroy event out, or changes nothing. -/
theorem effect_of_cancel {id : EventId} {answer : Option (Action α)} (h : s.cancel id = .ok (answer, s')) :
    s.Effect s' := by
  rcases cancel_eq_ok h with ⟨-, rfl, -⟩ | ⟨e, he, -, hu, -, rfl⟩ | ⟨r, slots, -, ht, -, rfl⟩
  · exact .unchanged
  · exact hu ▸ .unregistered he
  · exact .cancelled ht

/-- Whatever is asked, one of the effects is what becomes of the simulator. -/
theorem effect_of_perform {c : Call α} {answer : c.Answer} (h : c.perform s = .ok (answer, s')) :
    s.Effect s' := by
  cases c with
  | schedule | scheduleIn | stopAfter => exact effect_of_keep (Except.ok.inj h)
  | scheduleAt | stopAt => exact effect_of_keep_scheduleAt h
  | scheduleNow a =>
    obtain rfl := congrArg Prod.snd (Except.ok.inj h)
    exact .inserted (Int.le_refl _) s.context (.perform a)
  | scheduleDestroy a => cases h; exact .registered a
  | cancel id => exact effect_of_cancel h
  | stop => cases h; exact .stopped
  | setRng g => cases h; exact .drawn g

end Simulator

end SimKernel
