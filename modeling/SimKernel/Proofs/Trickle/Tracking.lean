import SimKernel.Proofs.Trickle.History

/-!
# Keeping track of a trickle timer's events

The invariant `Kept`: the pending events of the timer are the ones that it keeps the names of, at most one of each kind,
and the random point comes before the end of the period. Every step keeps it (`Kept.step`), with two exceptions
(`Orderly`): enabling a timer that is running, since that cancels nothing, and random points on the tick on which their
period ends, since the end is scheduled first and comes first then.

So cancelling what the timer keeps the names of leaves none of its events (`Kept.idle_of_cancels`).
-/

namespace SimKernel.Trickle

variable {α : Type} {actions : Actions α}

/-- No event of the timer is pending. -/
structure Idle (actions : Actions α) (s : Simulator α) : Prop where
  fire : s.AtMost actions.fire none
  endInterval : s.AtMost actions.endInterval none

/-- The pending events of the timer are those that it keeps the names of. -/
structure Tracked (actions : Actions α) (x : System α) : Prop where
  fire : x.sim.AtMost actions.fire x.timer.timerEvent
  endInterval : x.sim.AtMost actions.endInterval x.timer.intervalEvent

/-- The pending events that perform `a` are related to those that perform `b`. -/
def Relates (R : Time → Time → Prop) (a b : α) (s : Simulator α) : Prop :=
  ∀ ⦃slot r slot' r'⦄, s.slots.record? slot = some r → r.action = .perform a →
    s.slots.record? slot' = some r' → r'.action = .perform b → R r.time r'.time

theorem relates_iff_records {R : Time → Time → Prop} {a b : α} {s : Simulator α} :
    Relates R a b s ↔ ∀ r ∈ s.slots.records, r.action = .perform a →
      ∀ r' ∈ s.slots.records, r'.action = .perform b → R r.time r'.time := by
  simp only [EventSlots.mem_records_iff]
  constructor
  · rintro h r ⟨slot, hr⟩ ha r' ⟨slot', hr'⟩ hb
    exact h hr ha hr' hb
  · intro h slot r slot' r' hr ha hr' hb
    exact h r ⟨slot, hr⟩ ha r' ⟨slot', hr'⟩ hb

instance [DecidableEq α] {R : Time → Time → Prop} [DecidableRel R] {a b : α} {s : Simulator α} :
    Decidable (Relates R a b s) :=
  decidable_of_iff' _ relates_iff_records

/-- No random point is due at the end of its period. -/
def Apart (actions : Actions α) (s : Simulator α) : Prop :=
  Relates (· ≠ ·) actions.fire actions.endInterval s

instance [DecidableEq α] {s : Simulator α} : Decidable (Apart actions s) :=
  inferInstanceAs (Decidable (Relates _ _ _ _))

/-- The timer knows its events, and the random point comes first. -/
structure Kept (actions : Actions α) (x : System α) : Prop where
  sound : x.sim.Sound
  /-- No slot has the number that is kept for destroy events. -/
  size_le : x.sim.slots.slots.size ≤ Simulator.destroySlot
  tracked : Tracked actions x
  order : Relates (·.femtos < ·.femtos) actions.fire actions.endInterval x.sim

/-- A step at which a running timer is not enabled, no random point falls on the end of its period, and no more events
are pending than there are slots. -/
structure Orderly (actions : Actions α) (x : System α) (m : Moment α) : Prop where
  step : Step actions x m
  enabled : ∀ result, m.deed = .enabled result → Idle actions x.sim
  apart : Apart actions m.state.sim
  room : m.state.sim.pending ≤ Simulator.destroySlot

namespace Idle

variable {s s' : Simulator α}

theorem tracked (h : Idle actions s) (t : Trickle α) : Tracked actions ⟨s, t⟩ :=
  ⟨h.fire.of_none _, h.endInterval.of_none _⟩

theorem relates (h : Idle actions s) (R : Time → Time → Prop) : Relates R actions.fire actions.endInterval s :=
  fun _ _ _ _ hr ha _ _ => nomatch h.fire _ _ hr ha

/-- A new timer has no events. -/
theorem of_new (h : ∀ slot r, s.slots.record? slot = some r → ¬ actions.Owns r.action) : Idle actions s :=
  ⟨fun slot r hr ha => absurd (.inl ha) (h slot r hr), fun slot r hr ha => absurd (.inr ha) (h slot r hr)⟩

end Idle

/-! ## Cancelling -/

section Cancelling

variable {s s₁ s' : Simulator α} {id? : Option EventId} {a : α}

/-- What cancelling does to the simulator as a whole. -/
theorem Cancels.keeps (h : Cancels s id? s') (hs : s.Sound) {n : Nat} (hsize : s.slots.slots.size ≤ n) :
    s'.Sound ∧ s'.slots.slots.size ≤ n ∧ s'.now = s.now ∧ s'.owner = s.owner ∧
      ∀ slot r, s'.slots.record? slot = some r → s.slots.record? slot = some r := by
  cases id? with
  | none => obtain rfl := h; exact ⟨hs, hsize, rfl, rfl, fun _ _ hr => hr⟩
  | some id =>
    obtain ⟨answer, hc⟩ := h
    have hperform : (Call.cancel id).perform s = .ok (answer, s') := hc
    have hsound := Simulator.Sound.step s ⟨_, s'⟩ hs (.called hperform)
    rcases Simulator.cancel_eq_ok hc with ⟨-, rfl, -⟩ | ⟨e, -, -, -, -, rfl⟩ | ⟨r, slots, -, ht, -, rfl⟩
    · exact ⟨hs, hsize, rfl, rfl, fun _ _ hr => hr⟩
    · exact ⟨hsound, hsize, rfl, rfl, fun _ _ hr => hr⟩
    · obtain ⟨-, -, -, -, -, hsame⟩ := EventSlots.take?_eq_some hs.slots ht
      exact ⟨hsound, Nat.le_trans (Nat.le_of_eq hsame) hsize, rfl, rfl,
        fun _ _ hr => (EventSlots.record?_of_take? hs.slots ht hr).2⟩

theorem Cancels.atMost_none (h : Cancels s id? s') (hs : s.Sound) (hsize : s.slots.slots.size ≤ Simulator.destroySlot)
    (ha : s.AtMost a id?) : s'.AtMost a none := by
  cases id? with
  | none => obtain rfl := h; exact ha
  | some id =>
    obtain ⟨answer, hc⟩ := h
    exact ha.cancel hs hsize hc

/-- A timer that cancels its events has none left. -/
theorem Kept.idle_of_cancels {x : System α} (h : Kept actions x) (hc : Cancels x.sim x.timer.timerEvent s₁)
    (hc' : Cancels s₁ x.timer.intervalEvent s') :
    s'.Sound ∧ s'.slots.slots.size ≤ Simulator.destroySlot ∧ s'.now = x.sim.now ∧ Idle actions s' := by
  obtain ⟨hs₁, hsize₁, hnow₁, howner₁, hsub₁⟩ := hc.keeps h.sound h.size_le
  obtain ⟨hs', hsize', hnow', howner', hsub'⟩ := hc'.keeps hs₁ hsize₁
  refine ⟨hs', hsize', hnow'.trans hnow₁, ?_, ?_⟩
  · exact (hc.atMost_none h.sound h.size_le h.tracked.fire).of_fewer howner' fun slot r hr _ => hsub' slot r hr
  · refine hc'.atMost_none hs₁ hsize₁ ?_
    exact h.tracked.endInterval.of_fewer howner₁ fun slot r hr _ => hsub₁ slot r hr

end Cancelling

/-! ## Beginning a period -/

section Beginning

variable {x : System α} {ending point : Time}

theorem scheduleEnd_sound (hs : x.sim.Sound) (hending : x.sim.now.femtos ≤ ending.femtos) (g : Rng) :
    (x.scheduleEnd actions ending g).Sound :=
  (hs.insert hending x.sim.context _).effect (.drawn g)

/-- Both events of a period wait, and the timer knows their names. -/
theorem Idle.begin (h : Idle actions x.sim) (hne : actions.fire ≠ actions.endInterval) (hs : x.sim.Sound)
    (hending : x.sim.now.femtos ≤ ending.femtos) (hpoint : x.sim.now.femtos ≤ point.femtos) (g : Rng) :
    (x.begin actions ending point g).sim.Sound ∧ Tracked actions (x.begin actions ending point g) ∧
      (x.begin actions ending point g).sim.Awaits actions.fire point ∧
      (x.begin actions ending point g).sim.Awaits actions.endInterval ending := by
  have hsound : (x.scheduleEnd actions ending g).Sound := scheduleEnd_sound hs hending g
  have hfire : (x.scheduleEnd actions ending g).AtMost actions.fire none :=
    h.fire.insert_other hs ending _ fun he => hne (Action.perform.inj he).symm
  have hend : (x.scheduleEnd actions ending g).AtMost actions.endInterval _ := h.endInterval.insert_self hs ending _
  have hwaits : (x.scheduleEnd actions ending g).Awaits actions.endInterval ending := hs.awaits_insert ending _ _
  exact ⟨hsound.insert hpoint _ _,
    ⟨hfire.insert_self hsound point _, hend.insert_other hsound point _ fun he => hne (Action.perform.inj he)⟩,
    hsound.awaits_insert point _ _, hwaits.insert hsound point _ _⟩

theorem size_begin_le (hs : x.sim.Sound) (hending : x.sim.now.femtos ≤ ending.femtos) {g : Rng} {n : Nat}
    (hsize : x.sim.slots.slots.size ≤ n) (hroom : (x.begin actions ending point g).sim.pending ≤ n) :
    (x.begin actions ending point g).sim.slots.slots.size ≤ n := by
  have hpending := Simulator.pending_insert (x.scheduleEnd actions ending g) point
    (x.scheduleEnd actions ending g).context (.perform actions.fire)
  change (x.begin actions ending point g).sim.pending = (x.scheduleEnd actions ending g).pending + 1 at hpending
  refine (scheduleEnd_sound hs hending g).size_insert_le ?_ hroom
  exact hs.size_insert_le hsize (by change (x.scheduleEnd actions ending g).pending ≤ n; omega)

/-- What is left of an attempt to begin a period when no event of the timer was pending. -/
def Afresh (actions : Actions α) (result : Except SimError Unit) (y : System α) : Prop :=
  ∃ (ω : Type) (handle : Handler α ω) (w w' : ω) (s : Simulator α) (t : Trickle α),
    s.Sound ∧ s.slots.slots.size ≤ Simulator.destroySlot ∧ Idle actions s ∧
      (startInterval actions t).exec handle s w = .ok (.ok (result, y.timer), y.sim, w')

variable {y : System α} {result : Except SimError Unit}

/-- The timer knows the events of a period that begins when it has none. -/
theorem Afresh.kept (h : Afresh actions result y) (hne : actions.fire ≠ actions.endInterval)
    (hapart : Apart actions y.sim) (hroom : y.sim.pending ≤ Simulator.destroySlot) : Kept actions y := by
  obtain ⟨ω, handle, w, w', s, t, hs, hsize, hidle, he⟩ := h
  rcases startInterval_eq_ok hs.now_nonneg he with ⟨-, ht, hs'⟩ | ⟨-, delay, ending, point, g, hp, hx⟩
  · obtain rfl : y = ⟨s, t⟩ := congrArg₂ System.mk hs' ht
    exact ⟨hs, hsize, hidle.tracked t, hidle.relates _⟩
  · have hpoint := hp.now_le
    have hending := Int.le_trans hpoint hp.point_le
    obtain ⟨hsound, htracked, hfire, hend⟩ := Idle.begin (x := ⟨s, t⟩) hidle hne hs hending hpoint g
    obtain rfl : y = System.begin actions ⟨s, t⟩ ending point g := hx
    refine ⟨hsound, size_begin_le (x := ⟨s, t⟩) hs hending hsize hroom, htracked, ?_⟩
    intro slot r slot' r' hr ha hr' ha'
    have hne := hapart hr ha hr' ha'
    have hle := hp.point_le
    rw [htracked.fire.time_eq hfire hr ha, htracked.endInterval.time_eq hend hr' ha'] at hne ⊢
    have : point.femtos ≠ ending.femtos := fun he => hne (Time.ext he)
    omega

end Beginning

/-! ## Steps -/

variable {x : System α} {m : Moment α}

theorem Step.not_fired (hm : Step actions x m) (hs : x.sim.Sound) (h : x.sim.AtMost actions.fire none)
    (callback : Option α) : m.deed ≠ .fired callback := by
  intro hd
  cases hm with
  | fired hb ha => exact h.not_began hs hb ha
  | _ => cases hd

theorem Step.not_ended (hm : Step actions x m) (hs : x.sim.Sound) (h : x.sim.AtMost actions.endInterval none)
    (result : Except SimError Unit) : m.deed ≠ .ended result := by
  intro hd
  cases hm with
  | ended hb ha => exact h.not_began hs hb ha
  | _ => cases hd

/-- Unless a period is begun, the timer gets no events. -/
theorem Step.adds_none (h : Step actions x m) (hs : x.sim.Sound) (hr : m.deed.result? = none) :
    m.state.sim.Sound ∧ m.state.sim.owner = x.sim.owner ∧ ∀ slot r, m.state.sim.slots.record? slot = some r →
      actions.Owns r.action → x.sim.slots.record? slot = some r := by
  cases h with
  | enabled | reset | ended => cases hr
  | stopped he =>
    obtain ⟨-, s₁, hc, hc'⟩ := stop_eq_ok he
    obtain ⟨hs₁, -, -, howner₁, hsub₁⟩ := hc.keeps hs (Nat.le_refl _)
    obtain ⟨hs', -, -, howner', hsub'⟩ := hc'.keeps hs₁ (Nat.le_refl _)
    exact ⟨hs', howner'.trans howner₁, fun slot r hr _ => hsub₁ slot r (hsub' slot r hr)⟩
  | heardConsistent | parametersSet | callbackSet => exact ⟨hs, rfl, fun _ _ hr _ => hr⟩
  | heardInconsistent he =>
    rcases hearInconsistent_eq_ok he with ⟨hlt, -⟩ | ⟨-, rfl, rfl⟩
    · rw [decide_eq_true hlt] at hr
      cases hr
    · exact ⟨hs, rfl, fun _ _ hr _ => hr⟩
  | fired hb =>
    obtain ⟨-, howner, -⟩ := hs.step_began hb
    exact ⟨Simulator.Sound.step x.sim _ hs hb, howner, fun _ _ hr _ => hs.record?_of_began hb hr⟩
  | other hb hd =>
    refine ⟨Simulator.Sound.step x.sim _ hs hb, (hs.step_owner hb).1, ?_⟩
    intro slot r hr ha
    exact (hs.record?_of_step hb hr).resolve_right fun hd' => hd r.action hd'.1 ha

theorem Relates.of_fewer {R : Time → Time → Prop} {a b : α} {s s' : Simulator α} (h : Relates R a b s)
    (hsub : ∀ slot r, s'.slots.record? slot = some r → r.action = .perform a ∨ r.action = .perform b →
      s.slots.record? slot = some r) : Relates R a b s' :=
  fun _ _ _ _ hr ha hr' hb => h (hsub _ _ hr (.inl ha)) ha (hsub _ _ hr' (.inr hb)) hb

/-- Steps of the simulator that are not about the timer. -/
theorem Kept.other {x : System α} (h : Kept actions x) {d : SimKernel.Deed α} {s : Simulator α}
    (hs : x.sim.Step ⟨d, s⟩) (hd : d.Foreign actions) (hroom : s.pending ≤ Simulator.destroySlot) :
    Kept actions ⟨s, x.timer⟩ := by
  obtain ⟨hsound, howner, hsub⟩ := (Step.other hs hd).adds_none h.sound rfl
  exact ⟨hsound, h.sound.step_size_le hs h.size_le hroom,
    ⟨h.tracked.fire.of_fewer howner fun slot r hr ha => hsub slot r hr (.inl ha),
      h.tracked.endInterval.of_fewer howner fun slot r hr ha => hsub slot r hr (.inr ha)⟩,
    h.order.of_fewer hsub⟩

/-- Requests that leave the simulator as it is. -/
theorem Kept.of_timer {x : System α} (h : Kept actions x) {t : Trickle α} (hfire : t.timerEvent = x.timer.timerEvent)
    (hend : t.intervalEvent = x.timer.intervalEvent) : Kept actions ⟨x.sim, t⟩ :=
  ⟨h.sound, h.size_le, ⟨hfire ▸ h.tracked.fire, hend ▸ h.tracked.endInterval⟩, h.order⟩

/-- After one of the timer's events began, it is not pending any more, and the other one still is if it was. -/
theorem Kept.began {x : System α} (h : Kept actions x) {r : EventRecord (Action α)} {s : Simulator α}
    (hs : x.sim.Step ⟨.began r, s⟩) :
    s.Sound ∧ s.slots.slots.size ≤ Simulator.destroySlot ∧ Tracked actions ⟨s, x.timer⟩ ∧
      Relates (·.femtos < ·.femtos) actions.fire actions.endInterval s := by
  obtain ⟨-, howner, -, hsame, -⟩ := h.sound.step_began hs
  have hsub : ∀ i r', s.slots.record? i = some r' → x.sim.slots.record? i = some r' :=
    fun _ _ hr => h.sound.record?_of_began hs hr
  exact ⟨Simulator.Sound.step x.sim ⟨_, s⟩ h.sound hs, Nat.le_trans (Nat.le_of_eq hsame) h.size_le,
    ⟨h.tracked.fire.of_fewer howner fun i r' hr _ => hsub i r' hr,
      h.tracked.endInterval.of_fewer howner fun i r' hr _ => hsub i r' hr⟩,
    h.order.of_fewer fun i r' hr _ => hsub i r' hr⟩

theorem Kept.fired {x : System α} (h : Kept actions x) {r : EventRecord (Action α)} {s : Simulator α}
    (hs : x.sim.Step ⟨.began r, s⟩) (ha : r.action = .perform actions.fire) : Kept actions ⟨s, x.timer.fire.2⟩ := by
  obtain ⟨hsound, hsize, htracked, horder⟩ := h.began hs
  exact ⟨hsound, hsize, ⟨h.tracked.fire.begin h.sound hs ha, htracked.endInterval⟩, horder⟩

/-- When a period ends, its random point is past, so nothing of the timer is pending. -/
theorem Kept.idle_of_ended {x : System α} (h : Kept actions x) {r : EventRecord (Action α)} {s : Simulator α}
    (hs : x.sim.Step ⟨.began r, s⟩) (ha : r.action = .perform actions.endInterval) : Idle actions s := by
  refine ⟨?_, h.tracked.endInterval.begin h.sound hs ha⟩
  obtain ⟨-, -, -, -, slot, hr, hrec, hleast⟩ := h.sound.step_began hs
  intro i r' hr' ha'
  exfalso
  rw [hrec] at hr'
  split at hr'
  case isTrue => cases hr'
  case isFalse hne =>
    have hbefore := hleast i r' hr' hne
    have hlt := h.order hr' ha' hr ha
    unfold EventRecord.before at hbefore
    omega

/-- A period that is begun is begun when no event of the timer is pending. -/
theorem Kept.afresh (h : Kept actions x) (hm : Orderly actions x m) {result : Except SimError Unit}
    (hr : m.deed.result? = some result) : Afresh actions result m.state := by
  have ofReset {ω : Type} {handle : Handler α ω} {w w' : ω} {t : Trickle α} {s : Simulator α}
      (he : (x.timer.reset actions).exec handle x.sim w = .ok (.ok (result, t), s, w')) :
      Afresh actions result ⟨s, t⟩ := by
    obtain ⟨s₁, s₂, w₂, hc, hc', he⟩ := reset_eq_ok he
    obtain ⟨hs₂, hsize, -, hidle⟩ := h.idle_of_cancels hc hc'
    exact ⟨_, _, _, _, _, _, hs₂, hsize, hidle, he⟩
  obtain ⟨hs, henabled, -, -⟩ := hm
  cases hs with
  | enabled he =>
    obtain rfl := Option.some.inj hr
    obtain ⟨length, g, w, he⟩ := enable_eq_ok he
    have hidle := henabled _ rfl
    exact ⟨_, _, _, _, _, _, h.sound.effect (.drawn g), h.size_le, ⟨hidle.fire, hidle.endInterval⟩, he⟩
  | reset he =>
    obtain rfl := Option.some.inj hr
    exact ofReset he
  | heardInconsistent he =>
    rcases hearInconsistent_eq_ok he with ⟨hlt, he⟩ | ⟨hle, -⟩
    · rw [decide_eq_true hlt] at hr
      obtain rfl := Option.some.inj hr
      exact ofReset he
    · rw [decide_eq_false hle] at hr
      cases hr
  | ended hb ha he =>
    obtain rfl := Option.some.inj hr
    obtain ⟨length, he⟩ := endInterval_eq_ok he
    obtain ⟨hsound, hsize, -⟩ := h.began hb
    exact ⟨_, _, _, _, _, _, hsound, hsize, h.idle_of_ended hb ha, he⟩
  | stopped | heardConsistent | parametersSet | callbackSet | fired | other => cases hr

/-- Every orderly step keeps track. -/
theorem Kept.step (hne : actions.fire ≠ actions.endInterval) (x : System α) (m : Moment α) (h : Kept actions x)
    (hm : Orderly actions x m) : Kept actions m.state := by
  cases hr : m.deed.result? with
  | some result =>
    exact (h.afresh hm hr).kept hne hm.apart hm.room
  | none =>
    obtain ⟨hs, -, -, hroom⟩ := hm
    cases hs with
    | enabled | reset | ended => cases hr
    | stopped he =>
      obtain ⟨rfl, s₁, hc, hc'⟩ := stop_eq_ok he
      obtain ⟨hs, hsize, -, hidle⟩ := h.idle_of_cancels hc hc'
      exact ⟨hs, hsize, hidle.tracked _, hidle.relates _⟩
    | heardConsistent => exact h.of_timer rfl rfl
    | heardInconsistent he =>
      rcases hearInconsistent_eq_ok he with ⟨hlt, -⟩ | ⟨-, rfl, rfl⟩
      · rw [decide_eq_true hlt] at hr
        cases hr
      · exact h
    | parametersSet he =>
      obtain ⟨maxInterval, rfl⟩ := setParameters_eq_ok he
      exact h.of_timer rfl rfl
    | callbackSet a => exact h.of_timer rfl rfl
    | fired hb ha => exact h.fired hb ha
    | other hb hd => exact h.other hb hd hroom

/-! ## A small system -/

/-- The first action belongs to the random point, the second one to the end of the period. -/
def twoActions : Actions Nat := ⟨0, 1⟩

/-- A new timer with periods of the length that performs the third action. -/
def every (length : Time) : Trickle Nat where
  minInterval := length
  maxInterval := length
  doublings := 0
  redundancy := 0
  currentInterval := Time.zero
  counter := 0
  timerEvent := none
  intervalEvent := none
  callback := some 2

/-- The next event and the simulator after it began, if the clock can be moved to it. -/
def beginNext? (s : Simulator Nat) : Option (EventRecord (Action Nat) × Simulator Nat) :=
  match s.nextEvent with
  | (some r, s) => (s.advance r).toOption.map fun s => (r, s)
  | _ => none

theorem step_of_beginNext? {s s' : Simulator Nat} {r : EventRecord (Action Nat)} (h : beginNext? s = some (r, s')) :
    s.Step ⟨.began r, s'⟩ := by
  unfold beginNext? at h
  split at h
  case h_1 r₁ s₁ hn =>
    cases ha : s₁.advance r₁ with
    | error f => rw [ha] at h; cases h
    | ok s₂ => rw [ha] at h; cases h; exact .began hn ha
  case h_2 => cases h

theorem idle_ofConfig (actions : Actions α) (owner : Nat) (config : Config) :
    Idle actions (Simulator.ofConfig owner config) :=
  .of_new fun slot _ hr => nomatch (EventSlots.record?_empty slot).symm.trans hr

/-- The timer and the simulator after a first period of the length began. -/
def firstPeriod? (config : Config) (length : Time) : Option (System Nat) :=
  match ((every length).reset twoActions).exec Handler.refuse (Simulator.ofConfig 0 config) () with
  | .ok (.ok (.ok (), t), s, _) => some ⟨s, t⟩
  | _ => none

theorem step_of_firstPeriod? {config : Config} {length : Time} {y : System Nat} (h : firstPeriod? config length = some y) :
    Step twoActions ⟨Simulator.ofConfig 0 config, every length⟩ ⟨.reset (.ok ()), y⟩ := by
  unfold firstPeriod? at h
  split at h
  case h_1 t s w he => cases h; exact .reset he
  case h_2 => cases h

end SimKernel.Trickle
