import SimKernel.Proofs.Trickle.Tracking

/-!
# A stopped trickle timer is silent

Stopping a timer that knows its events leaves none of them pending, and while none is pending only a request that starts
the timer schedules one (`Idle.step`). So from the stop to the next start the timer does not fire (`silent_of_stopped`).

A timer that is enabled while it is running forgets the events that it had, so they survive the stop and fire
(`exists_fired_after_stopped`).
-/

namespace SimKernel.Trickle

variable {α : Type} {actions : Actions α}

/-- Without pending events the timer does not fire, and unless it is started it gets no events. -/
theorem Idle.step {x : System α} {m : Moment α} (h : Idle actions x.sim) (hs : x.sim.Sound) (hm : Step actions x m)
    (hstart : ¬ m.deed.Starts) :
    Idle actions m.state.sim ∧ m.state.sim.Sound ∧ ∀ callback, m.deed ≠ .fired callback := by
  have hended := hm.not_ended hs h.endInterval
  obtain ⟨hs', howner, hsub⟩ := hm.adds_none hs (Deed.result?_eq_none hstart hended)
  exact ⟨⟨h.fire.of_fewer howner fun slot r hr ha => hsub slot r hr (.inl ha),
    h.endInterval.of_fewer howner fun slot r hr ha => hsub slot r hr (.inr ha)⟩, hs', hm.not_fired hs h.fire⟩

theorem Idle.path {x y : System α} {ms : List (Moment α)} (h : Idle actions x.sim) (hs : x.sim.Sound)
    (hp : Path (Step actions) x ms y) (hstart : ∀ m ∈ ms, ¬ m.deed.Starts) :
    ∀ m ∈ ms, ∀ callback, m.deed ≠ .fired callback := by
  induction hp with
  | nil => exact fun m hm => absurd hm List.not_mem_nil
  | cons hm _ ih =>
    obtain ⟨h', hs', hfired⟩ := h.step hs hm (hstart _ List.mem_cons_self)
    intro n hn
    rcases List.mem_cons.1 hn with rfl | hn
    · exact hfired
    · exact ih h' hs' (fun k hk => hstart k (List.mem_cons_of_mem _ hk)) n hn

/-- **Silence.** Take any history of a new timer in which it is not enabled while it is running, and in which no random
point falls on the tick on which its period ends. At every moment the pending events of the timer are those that it keeps
the names of. When it is stopped then, its callback is not invoked until it is started again, whatever happens to it and
to the simulator in between. -/
theorem silent_of_stopped (hne : actions.fire ≠ actions.endInterval) {x y : System α} {ms : List (Moment α)}
    (hs : x.sim.Sound) (hsize : x.sim.slots.slots.size ≤ Simulator.destroySlot) (hnew : Idle actions x.sim)
    (hp : Path (Orderly actions) x ms y) :
    (∀ m ∈ ms, Tracked actions m.state) ∧
    ∀ {m : Moment α} {ns : List (Moment α)} {z : System α}, Step actions y m → m.deed = .stopped →
      Path (Step actions) m.state ns z → (∀ n ∈ ns, ¬ n.deed.Starts) →
      Idle actions m.state.sim ∧ ∀ n ∈ ns, ∀ callback, n.deed ≠ .fired callback := by
  obtain ⟨hy, hms⟩ := hp.invariant (Kept.step hne) ⟨hs, hsize, hnew.tracked x.timer, hnew.relates _⟩
  refine ⟨fun m hm => (hms m hm).tracked, ?_⟩
  intro m ns z hm hstop hq hstart
  cases hm with
  | stopped he =>
    obtain ⟨-, s₁, hc, hc'⟩ := stop_eq_ok he
    obtain ⟨hs', -, -, hidle⟩ := hy.idle_of_cancels hc hc'
    exact ⟨hidle, hidle.path hs' hq hstart⟩
  | enabled | reset | heardConsistent | heardInconsistent | parametersSet | callbackSet | fired | ended | other =>
    cases hstop

/-- A timer that is started and stopped, and that hears a message before the simulator finds nothing to do. -/
theorem silent_of_stopped_startedOnce : ∃ (y z : System Nat) (ms ns : List (Moment Nat)) (m : Moment Nat),
    Path (Orderly twoActions) ⟨Simulator.ofConfig 0 {}, every ⟨10_000_000, by decide, by decide⟩⟩ ms y ∧
      ms.map Moment.deed = [.reset (.ok ())] ∧ Step twoActions y m ∧ m.deed = .stopped ∧
      Path (Step twoActions) m.state ns z ∧
      ns.map Moment.deed = [.heardConsistent, .other .idled] ∧ Tracked twoActions y ∧ Idle twoActions m.state.sim ∧
      ∀ n ∈ ns, ∀ callback, n.deed ≠ .fired callback := by
  have hrun : (firstPeriod? {} ⟨10_000_000, by decide, by decide⟩).map (fun y => (decide (Apart twoActions y.sim),
      decide (y.sim.pending ≤ Simulator.destroySlot), (y.timer.stop.exec Handler.refuse y.sim ()).toOption.map
        fun r => (r.1.toOption.isSome, r.2.1.nextEvent.1.isNone))) = some (true, true, some (true, true)) := by
    decide +kernel
  obtain ⟨y, hy, hrun⟩ := Option.map_eq_some_iff.1 hrun
  simp only [Prod.mk.injEq, decide_eq_true_eq] at hrun
  obtain ⟨hapart, hroom, hstop⟩ := hrun
  cases he : y.timer.stop.exec Handler.refuse y.sim () with
  | error f => rw [he] at hstop; cases hstop
  | ok r =>
    obtain ⟨_ | t, s, w⟩ := r
    · rw [he] at hstop; cases hstop
    rw [he] at hstop
    have hnone : s.nextEvent.1 = none := Option.isNone_iff_eq_none.1 (congrArg Prod.snd (Option.some.inj hstop))
    have hidled : s.Step ⟨.idled, s.nextEvent.2⟩ := .idled (Prod.ext hnone rfl)
    have hreset : Orderly twoActions _ ⟨.reset (.ok ()), y⟩ :=
      ⟨step_of_firstPeriod? hy, (fun _ h => nomatch h), hapart, hroom⟩
    have hms := Path.cons hreset (.nil y)
    have hm : Step twoActions y ⟨.stopped, s, t⟩ := .stopped he
    have hns : Path (Step twoActions) ⟨s, t⟩ [⟨.heardConsistent, s, t.hearConsistent⟩, ⟨.other .idled, _, _⟩] _ :=
      .cons .heardConsistent (.cons (.other hidled nofun) (.nil _))
    obtain ⟨htracked, hsilent⟩ := silent_of_stopped (by decide) (Simulator.sound_ofConfig 0 {}) (Nat.zero_le _)
      (idle_ofConfig twoActions 0 {}) hms
    obtain ⟨hidle, hfired⟩ := hsilent hm rfl hns (by simp [Deed.Starts])
    exact ⟨_, _, _, _, _, hms, rfl, hm, rfl, hns, rfl, htracked _ List.mem_cons_self, hidle, hfired⟩

/-! ## A timer that is enabled twice -/

/-- A timer that is enabled, enabled again, and stopped. -/
def enabledTwice (length : Time) : Program Nat Unit (Trickle Nat) := do
  let (_, t) ← (every length).enable twoActions
  let (_, t) ← t.enable twoActions
  t.stop

/-- The callback is invoked after the stop. -/
theorem exists_fired_after_stopped : ∃ (y : System Nat) (ms : List (Moment Nat)) (m n : Moment Nat)
    (r r' : Except SimError Unit),
    Path (Step twoActions) ⟨Simulator.ofConfig 0 {}, every ⟨10_000_000, by decide, by decide⟩⟩ ms y ∧
      ms.map Moment.deed = [.enabled r, .enabled r'] ∧ Step twoActions y m ∧ m.deed = .stopped ∧
      Step twoActions m.state n ∧ n.deed = .fired (some 2) := by
  have hrun : ((enabledTwice ⟨10_000_000, by decide, by decide⟩).exec Handler.refuse (Simulator.ofConfig 0 {})
      ()).toOption.map (fun x => (x.1.toOption.map fun t => t.fire.1, (beginNext? x.2.1).map fun n => n.1.action)) =
      some (some (some 2), some (.perform 0)) := by
    decide +kernel
  cases h : (enabledTwice ⟨10_000_000, by decide, by decide⟩).exec Handler.refuse (Simulator.ofConfig 0 {}) () with
  | error f => rw [h] at hrun; cases hrun
  | ok x =>
    obtain ⟨_ | t, s, w⟩ := x
    · rw [h] at hrun
      cases hrun
    rw [h] at hrun
    obtain ⟨hcallback, hnext⟩ := Prod.mk.inj (Option.some.inj hrun)
    obtain ⟨⟨r, t₁⟩, s₁, w₁, hfirst, hrest⟩ := Program.exec_bind_eq_ok h
    obtain ⟨⟨r', t₂⟩, s₂, w₂, hsecond, hstop⟩ := Program.exec_bind_eq_ok hrest
    obtain ⟨⟨record, s₃⟩, hbegin, ha⟩ := Option.map_eq_some_iff.1 hnext
    have hfired : Step twoActions ⟨s, t⟩ ⟨.fired t.fire.1, s₃, t.fire.2⟩ := .fired (step_of_beginNext? hbegin) ha
    rw [show t.fire.1 = some 2 from Option.some.inj hcallback] at hfired
    exact ⟨_, _, _, _, r, r', .cons (.enabled hfirst) (.cons (.enabled hsecond) (.nil _)), rfl, .stopped hstop, rfl,
      hfired, rfl⟩

end SimKernel.Trickle
