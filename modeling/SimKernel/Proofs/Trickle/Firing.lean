import SimKernel.Proofs.Trickle.Tracking

/-!
# When a trickle timer fires

From the beginning of a period on, both of its events wait, and the counter holds the number of consistent messages heard
since (`Waiting`). Every step that leaves the timer to itself keeps this, until the random point is reached, which comes
before the end of the period (`Waiting.step`). So in every period the timer decides exactly once, at its random point, and
by the messages of that period alone (`fires_once`).

The random point is `b + q x` for a period that begins at `b`, where `x` is a fraction of its length drawn from its second
half and `q` drops what is left over of the last tick. On a coarse clock this can be earlier than the middle of the period,
and on the tick of the end the end comes first (`exists_fired_early_and_ended_unfired`).
-/

namespace SimKernel.Trickle

variable {α : Type} {actions : Actions α} {x y z : System α} {m : Moment α} {ms ns : List (Moment α)}

/-- The timer is left to itself: it counts messages until its random point is reached, and nobody takes its events away. -/
def Deed.Waits (actions : Actions α) : Deed α → Prop
  | heardConsistent | fired _ => True
  | other d => d.Spares actions
  | _ => False

def Deed.isConsistent : Deed α → Bool
  | heardConsistent => true
  | _ => false

/-- The number of consistent messages. -/
def heard (ms : List (Moment α)) : Nat := ms.countP fun m => m.deed.isConsistent

/-- No random point is reached. -/
def Unfired (ms : List (Moment α)) : Prop := ∀ m ∈ ms, ∀ callback, m.deed ≠ .fired callback

/-- Where the random point of a period lies that begins now: a fraction of the period ahead that is drawn from its second
half, of which the whole ticks count. -/
structure RandomPoint (y : System α) (delay point : Time) : Prop where
  drawn : ∃ fraction, InSecondHalf fraction ∧ delay = y.timer.currentInterval.scale fraction
  delay_le : delay.femtos ≤ y.timer.currentInterval.femtos
  /-- Up to the precision of a double the delay is at least half of the period. -/
  middle_le : (2 ^ 53 - 1) * y.timer.currentInterval.femtos ≤ 2 ^ 54 * delay.femtos
  middle_le_of_le : y.timer.currentInterval.femtos ≤ 2 ^ 53 → y.timer.currentInterval.femtos ≤ 2 * delay.femtos
  point_eq : point.femtos = y.sim.now.femtos + (y.sim.config.resolution.quantize delay).femtos
  now_le : y.sim.now.femtos ≤ point.femtos
  lt_end : point.femtos < y.sim.now.femtos + y.timer.currentInterval.femtos

/-- What a timer invokes at its random point when so many consistent messages were heard in the period. -/
def invoked (t : Trickle α) (count : Nat) : Option α :=
  if t.redundancy = 0 ∨ count < t.redundancy then t.callback else none

/-- The random point is reached once, at the time, and what is invoked goes by the messages heard before. -/
def FiresOnce (t : Trickle α) (point : Time) (ms : List (Moment α)) : Prop :=
  ∃ before m after, ms = before ++ m :: after ∧ Unfired before ∧ Unfired after ∧ m.state.sim.now = point ∧
    m.deed = .fired (t.invoked (heard before))

/-- A period of the timer whose random point is not reached yet, after so many consistent messages. -/
structure Waiting (actions : Actions α) (t : Trickle α) (point : Time) (count : Nat) (y : System α) : Prop where
  kept : Kept actions y
  fire : y.sim.Awaits actions.fire point
  counter_eq : y.timer.counter = min count counterLimit
  redundancy_eq : y.timer.redundancy = t.redundancy
  callback_eq : y.timer.callback = t.callback

theorem Unfired.cons (h : ∀ callback, m.deed ≠ .fired callback) (hms : Unfired ms) : Unfired (m :: ms) :=
  List.forall_mem_cons.2 ⟨h, hms⟩

theorem heard_cons (m : Moment α) (ms : List (Moment α)) : heard (m :: ms) = heard ms + m.deed.isConsistent.toNat := by
  cases h : m.deed.isConsistent <;> simp [heard, h]

theorem Deed.Waits.result?_eq_none {d : Deed α} (h : d.Waits actions) : d.result? = none := by
  cases d with
  | heardConsistent | fired | other | stopped | parametersSet | callbackSet => rfl
  | enabled | reset | heardInconsistent | ended => cases h

/-! ## The beginning of a period -/

/-- A period that was begun waits for its random point. -/
theorem Afresh.period (h : Afresh actions (.ok ()) y) (hne : actions.fire ≠ actions.endInterval) :
    ∃ delay ending point, Period y delay ending point ∧ y.timer.counter = 0 ∧ y.sim.Awaits actions.fire point ∧
      y.sim.Awaits actions.endInterval ending := by
  obtain ⟨ω, handle, w, w', s, t, hs, -, hidle, he⟩ := h
  rcases startInterval_eq_ok hs.now_nonneg he with ⟨⟨e, he⟩, -⟩ | ⟨-, delay, ending, point, g, hp, hx⟩
  · cases he
  · have hending := Int.le_trans hp.now_le hp.point_le
    obtain ⟨-, -, hfire, hend⟩ := Idle.begin (x := ⟨s, t⟩) hidle hne hs hending hp.now_le g
    obtain rfl : y = System.begin actions ⟨s, t⟩ ending point g := hx
    exact ⟨delay, ending, point, ⟨hp.length_nonneg, hp.drawn, hp.ending_eq, hp.point_eq⟩, rfl, hfire, hend⟩

/-! ## Steps of a period -/

namespace Waiting

variable {t : Trickle α} {point : Time} {count : Nat}

/-- The period does not end before its random point. -/
theorem not_ended (h : Waiting actions t point count y) (hne : actions.fire ≠ actions.endInterval)
    (hm : Step actions y m) (result : Except SimError Unit) : m.deed ≠ .ended result := by
  intro hd
  cases hm with
  | ended hb ha =>
    have hidle := h.kept.idle_of_ended hb ha
    have hremoved : (SimKernel.Deed.began _).removed? ≠ some (.perform actions.fire) := fun he =>
      hne (Action.perform.inj ((Option.some.inj he).symm.trans ha))
    obtain ⟨slot, r, hr, ha', -⟩ := h.fire.step h.kept.sound hb hremoved nofun
    exact nomatch hidle.fire slot r hr ha'
  | _ => cases hd

/-- The clock does not pass the random point. -/
theorem now_le (h : Waiting actions t point count y) : y.sim.now.femtos ≤ point.femtos := by
  obtain ⟨slot, r, hr, -, rfl⟩ := h.fire
  exact h.kept.sound.due hr

/-- A step of the period leaves it waiting, or it is the one at which the timer decides. -/
theorem step (h : Waiting actions t point count y) (hne : actions.fire ≠ actions.endInterval)
    (hlimit : t.redundancy ≤ counterLimit) (hm : Orderly actions y m) (hw : m.deed.Waits actions) :
    (∀ callback, m.deed ≠ .fired callback) ∧ Waiting actions t point (count + m.deed.isConsistent.toNat) m.state ∨
    m.state.sim.now = point ∧ m.state.sim.AtMost actions.fire none ∧
      m.deed = .fired (t.invoked count) := by
  have hkept := h.kept.step hne y m hm
  cases hm.step with
  | heardConsistent =>
    refine .inl ⟨nofun, hkept, h.fire, ?_, h.redundancy_eq, h.callback_eq⟩
    change min (y.timer.counter + 1) counterLimit = min (count + 1) counterLimit
    have := h.counter_eq
    omega
  | other hb hd =>
    refine .inl ⟨nofun, hkept, ?_, h.counter_eq, h.redundancy_eq, h.callback_eq⟩
    exact h.fire.step h.kept.sound hb (fun he => hw.2 _ he (.inl rfl)) hw.1
  | fired hb ha =>
    obtain ⟨hnow, -, -, -, slot, hr, -⟩ := h.kept.sound.step_began hb
    refine .inr ⟨hnow.trans (h.kept.tracked.fire.time_eq h.fire hr ha), h.kept.tracked.fire.begin h.kept.sound hb ha, ?_⟩
    have hcount : y.timer.counter < t.redundancy ↔ count < t.redundancy := by
      have := h.counter_eq
      omega
    simp only [Trickle.fire, invoked, h.redundancy_eq, h.callback_eq, hcount]
  | enabled | reset | stopped | heardInconsistent | parametersSet | callbackSet | ended => cases hw

end Waiting

/-- After its random point the timer does not fire again in the period. -/
theorem unfired_of_atMost_none (h : y.sim.AtMost actions.fire none) (hs : y.sim.Sound)
    (hp : Path (Orderly actions) y ns z) (hw : ∀ n ∈ ns, n.deed.Waits actions) : Unfired ns := by
  induction hp with
  | nil => exact fun n hn => absurd hn List.not_mem_nil
  | @cons y _ n _ hn _ ih =>
    obtain ⟨hwn, hw⟩ := List.forall_mem_cons.1 hw
    obtain ⟨hs', howner, hsub⟩ := hn.step.adds_none hs hwn.result?_eq_none
    have h' : n.state.sim.AtMost actions.fire none := h.of_fewer howner fun slot r hr ha => hsub slot r hr (.inl ha)
    exact .cons (hn.step.not_fired hs h) (ih h' hs' hw)

/-- While the timer is left to itself the random point is not reached, or it is reached once. -/
theorem Waiting.path {t : Trickle α} {point : Time} {count : Nat} (h : Waiting actions t point count y)
    (hne : actions.fire ≠ actions.endInterval) (hlimit : t.redundancy ≤ counterLimit)
    (hp : Path (Orderly actions) y ns z) (hw : ∀ n ∈ ns, n.deed.Waits actions) :
    Unfired ns ∧ Waiting actions t point (count + heard ns) z ∨
    ∃ before n after, ns = before ++ n :: after ∧ Unfired before ∧ Unfired after ∧ n.state.sim.now = point ∧
      n.deed = .fired (t.invoked (count + heard before)) := by
  induction hp generalizing count with
  | nil => exact .inl ⟨fun n hn => absurd hn List.not_mem_nil, h⟩
  | @cons y _ n ns hn hrest ih =>
    obtain ⟨hwn, hw⟩ := List.forall_mem_cons.1 hw
    rcases h.step hne hlimit hn hwn with ⟨hd, h'⟩ | ⟨hnow, hnone, hd⟩
    · have hcount (l : List (Moment α)) : count + n.deed.isConsistent.toNat + heard l = count + heard (n :: l) := by
        rw [heard_cons]
        omega
      rcases ih h' hw with ⟨hns, hz⟩ | ⟨before, k, after, rfl, hbefore, hafter, hnow, hk⟩
      · exact .inl ⟨hns.cons hd, hcount ns ▸ hz⟩
      · exact .inr ⟨n :: before, k, after, rfl, hbefore.cons hd, hafter, hnow, hcount before ▸ hk⟩
    · have hs := (h.kept.step hne y n hn).sound
      have hafter : Unfired ns := unfired_of_atMost_none hnone hs hrest hw
      exact .inr ⟨[], n, ns, rfl, fun k hk => absurd hk List.not_mem_nil, hafter, hnow, hd⟩

/-- **One firing in each period.** Take any history of a new timer in which it is not enabled while it is running, and in
which no random point falls on the tick on which its period ends. When it begins a period and then only hears consistent
messages, it has one random point in that period. It lies before the end of the period, and after the middle but for the
part of a tick that is dropped and, in periods of more than `2 ^ 53` femtoseconds, for the precision of a double. Its event
stays pending, and the period does not end, before the random point is reached; it is reached once; and then the callback
is invoked just if fewer consistent messages were heard since the beginning of the period than are needed to keep the timer
silent. -/
theorem fires_once (hne : actions.fire ≠ actions.endInterval) {b : Moment α} (hs : x.sim.Sound)
    (hsize : x.sim.slots.slots.size ≤ Simulator.destroySlot) (hnew : Idle actions x.sim)
    (hp : Path (Orderly actions) x ms y) (hb : Orderly actions y b) (hbegins : b.deed.result? = some (.ok ()))
    (hlimit : b.state.timer.redundancy ≤ counterLimit) (hq : Path (Orderly actions) b.state ns z)
    (hw : ∀ n ∈ ns, n.deed.Waits actions) :
    ∃ delay point, RandomPoint b.state delay point ∧
      (Unfired ns ∧ z.sim.Awaits actions.fire point ∧ z.sim.now.femtos ≤ point.femtos ∧
          (∀ m, Step actions z m → ∀ result, m.deed ≠ .ended result) ∨
        FiresOnce b.state.timer point ns) := by
  have hy : Kept actions y := (hp.invariant (Kept.step hne) ⟨hs, hsize, hnew.tracked x.timer, hnew.relates _⟩).1
  obtain ⟨delay, ending, point, hperiod, hcounter, hfire, hend⟩ := (hy.afresh hb hbegins).period hne
  obtain ⟨-, hle, hmiddle, hexact⟩ := hperiod.bounds
  have hkept : Kept actions b.state := hy.step hne y b hb
  have hbefore : point.femtos < b.state.sim.now.femtos + b.state.timer.currentInterval.femtos := by
    obtain ⟨slot, r, hr, ha, rfl⟩ := hfire
    obtain ⟨slot', r', hr', ha', rfl⟩ := hend
    exact Int.lt_of_lt_of_le (hkept.order hr ha hr' ha') hperiod.ending_le
  refine ⟨delay, point, ⟨hperiod.drawn, hle, hmiddle, hexact, hperiod.point_eq, hperiod.now_le, hbefore⟩, ?_⟩
  have hwaiting : Waiting actions b.state.timer point 0 b.state := ⟨hkept, hfire, by rw [hcounter]; rfl, rfl, rfl⟩
  rcases hwaiting.path hne hlimit hq hw with ⟨hns, hz⟩ | hfired
  · exact .inl ⟨hns, hz.fire, hz.now_le, fun m hm => hz.not_ended hne hm⟩
  · simp only [Nat.zero_add] at hfired
    exact .inr hfired

/-- A timer that is started, and hears a message before its random point. -/
theorem fires_once_firstPeriod : ∃ (y z : System Nat) (ns : List (Moment Nat)),
    Orderly twoActions ⟨Simulator.ofConfig 0 {}, every ⟨10_000_000, by decide, by decide⟩⟩ ⟨.reset (.ok ()), y⟩ ∧
      Path (Orderly twoActions) y ns z ∧ ns.map Moment.deed = [.heardConsistent, .fired (some 2)] ∧
      ∃ delay point, RandomPoint y delay point ∧ FiresOnce y.timer point ns := by
  have hrun : (firstPeriod? {} ⟨10_000_000, by decide, by decide⟩).map (fun y =>
      (decide (y.timer.redundancy = 0 ∧ y.timer.callback = some 2),
        decide (Apart twoActions y.sim ∧ y.sim.pending ≤ Simulator.destroySlot),
        (beginNext? y.sim).map fun n =>
          (n.1.action, decide (Apart twoActions n.2 ∧ n.2.pending ≤ Simulator.destroySlot)))) =
      some (true, true, some (.perform 0, true)) := by
    decide +kernel
  obtain ⟨y, hy, hrun⟩ := Option.map_eq_some_iff.1 hrun
  simp only [Prod.mk.injEq, decide_eq_true_eq, Option.map_eq_some_iff] at hrun
  obtain ⟨⟨hredundancy, hcallback⟩, ⟨hapart, hroom⟩, ⟨r, s⟩, hnext, ha, hapart', hroom'⟩ := hrun
  have hreset : Orderly twoActions _ ⟨.reset (.ok ()), y⟩ :=
    ⟨step_of_firstPeriod? hy, (fun _ h => nomatch h), hapart, hroom⟩
  have hheard : Orderly twoActions y ⟨.heardConsistent, y.sim, y.timer.hearConsistent⟩ :=
    ⟨.heardConsistent, (fun _ h => nomatch h), hapart, hroom⟩
  have hfire : y.timer.hearConsistent.fire.1 = some 2 := by
    simp [Trickle.fire, hearConsistent, hredundancy, hcallback]
  have hfired : Orderly twoActions ⟨y.sim, y.timer.hearConsistent⟩ ⟨.fired (some 2), s, y.timer.hearConsistent.fire.2⟩ :=
    ⟨hfire ▸ .fired (step_of_beginNext? hnext) ha, (fun _ h => nomatch h), hapart', hroom'⟩
  have hns := Path.cons hheard (.cons hfired (.nil _))
  obtain ⟨delay, point, hpoint, ⟨hunfired, -⟩ | honce⟩ := fires_once (by decide) (Simulator.sound_ofConfig 0 {})
    (Nat.zero_le _) (idle_ofConfig twoActions 0 {}) (.nil _) hreset rfl (hredundancy ▸ Nat.zero_le _) hns
    (by simp [Deed.Waits])
  · exact absurd rfl (hunfired _ (List.mem_cons_of_mem _ List.mem_cons_self) (some 2))
  · exact ⟨y, _, _, hreset, hns, rfl, delay, point, hpoint, honce⟩

/-- The timer and the simulator after the period ended and the next one began. -/
def secondPeriod? (s : Simulator Nat) (t : Trickle Nat) : Option (System Nat) :=
  match (t.endInterval twoActions).exec Handler.refuse s () with
  | .ok (.ok (.ok (), t), s, _) => some ⟨s, t⟩
  | _ => none

theorem step_of_secondPeriod? {y z : System Nat} {r : EventRecord (Action Nat)} {s : Simulator Nat}
    (hb : y.sim.Step ⟨.began r, s⟩) (ha : r.action = .perform twoActions.endInterval)
    (h : secondPeriod? s y.timer = some z) : Step twoActions y ⟨.ended (.ok ()), z⟩ := by
  unfold secondPeriod? at h
  split at h
  case h_1 t s w he => cases h; exact .ended hb ha he
  case h_2 => cases h

/-- On a coarse clock a timer that nothing keeps silent fires before the middle of its period, or it reaches the end of the
period first and does not fire in it. -/
theorem exists_fired_early_and_ended_unfired :
    (∃ (y : System Nat) (n : Moment Nat),
      Step twoActions ⟨Simulator.ofConfig 0 { seed := 5 }, every ⟨3_000_000, by decide, by decide⟩⟩ ⟨.reset (.ok ()), y⟩ ∧
        y.timer.redundancy = 0 ∧ Step twoActions y n ∧ n.deed = .fired (some 2) ∧
        2 * n.state.sim.now.femtos < 2 * y.sim.now.femtos + y.timer.currentInterval.femtos) ∧
    ∃ (y : System Nat) (n : Moment Nat),
      Step twoActions ⟨Simulator.ofConfig 0 {}, every ⟨1_900_000, by decide, by decide⟩⟩ ⟨.reset (.ok ()), y⟩ ∧
        y.timer.redundancy = 0 ∧ y.timer.callback = some 2 ∧ Step twoActions y n ∧ n.deed = .ended (.ok ()) := by
  constructor
  · have hrun : (firstPeriod? { seed := 5 } ⟨3_000_000, by decide, by decide⟩).map (fun y => (y.timer.redundancy,
        y.timer.fire.1, (beginNext? y.sim).map fun n => (n.1.action,
          decide (2 * n.2.now.femtos < 2 * y.sim.now.femtos + y.timer.currentInterval.femtos)))) =
        some (0, some 2, some (.perform 0, true)) := by
      decide +kernel
    obtain ⟨y, hy, hrun⟩ := Option.map_eq_some_iff.1 hrun
    simp only [Prod.mk.injEq, decide_eq_true_eq, Option.map_eq_some_iff] at hrun
    obtain ⟨hredundancy, hfire, ⟨r, s⟩, hnext, ha, hearly⟩ := hrun
    exact ⟨y, _, step_of_firstPeriod? hy, hredundancy, .fired (step_of_beginNext? hnext) ha, congrArg _ hfire, hearly⟩
  · have hrun : (firstPeriod? {} ⟨1_900_000, by decide, by decide⟩).map (fun y =>
        (decide (y.timer.redundancy = 0 ∧ y.timer.callback = some 2), (beginNext? y.sim).map fun n =>
          (n.1.action, (secondPeriod? n.2 y.timer).isSome))) = some (true, some (.perform 1, true)) := by
      decide +kernel
    obtain ⟨y, hy, hrun⟩ := Option.map_eq_some_iff.1 hrun
    simp only [Prod.mk.injEq, decide_eq_true_eq, Option.map_eq_some_iff] at hrun
    obtain ⟨⟨hredundancy, hcallback⟩, ⟨r, s⟩, hnext, ha, hsecond⟩ := hrun
    obtain ⟨z, hz⟩ := Option.isSome_iff_exists.1 hsecond
    exact ⟨y, ⟨.ended (.ok ()), z⟩, step_of_firstPeriod? hy, hredundancy, hcallback,
      step_of_secondPeriod? (step_of_beginNext? hnext) ha hz, rfl⟩

end SimKernel.Trickle
