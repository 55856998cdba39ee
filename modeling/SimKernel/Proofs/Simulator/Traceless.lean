import SimKernel.Proofs.Simulator.Tandem

/-!
# Cancelled events leave no trace

Runs, steps and teardowns execute events in tandem (`parallel_driver`), so a whole history does: events that are scheduled
behind the back of a program, and that never begin, since they are cancelled or forgotten before, make no difference to what
is executed, drawn and answered (`cancelled_traceless`).
-/

namespace SimKernel

variable {α ω ρ : Type}

namespace Simulator

variable {s s' : Simulator (Option α)} {d d' : Desk ω}

section Drives

variable {meaning meaning' : Meaning (Option α) (Desk ω)}

/-- The actions of the program are executed in tandem. -/
def Alike (meaning meaning' : Meaning (Option α) (Desk ω)) : Prop :=
  ∀ a, Program.Parallel .action .action (meaning (some a)) (meaning' (some a))

theorem tandem_action (hm : Alike meaning meaning') (action : Action (Option α)) (hown : action.isExtra = false)
    (h : Accord s d s' d') :
    Tandem Eq (actionMoments meaning action s d) (actionMoments meaning' action s' d') (perform meaning action s d)
      (perform meaning' action s' d') := by
  rcases action with _ | _ | a
  · have h₁ := h.switch Simulator.stop (fun _ => rfl) fun _ => rfl
    exact .both rfl h₁ (.ok rfl h₁)
  · cases hown
  · exact hm a s d s' d' h

/-- The next event is no extra one, and begins in both, or there is none. -/
theorem tandem_next (hm : Alike meaning meaning') (h : Accord s d s' d') :
    Tandem Eq (nextMoments meaning s d) (nextMoments meaning' s' d') (processNext meaning s d)
      (processNext meaning' s' d') := by
  obtain ⟨f, a, a', hp⟩ := h
  obtain ⟨⟨_ | r', s₁'⟩, hn'⟩ : ∃ x, s'.nextEvent = x := ⟨_, rfl⟩
  · obtain ⟨s₁, hn, h₁⟩ := hp.idle hn'
    rw [processNext_of_none meaning d hn, processNext_of_none meaning' d' hn']
    simp only [nextMoments, hn, hn']
    exact .both rfl h₁ (.ok rfl h₁)
  · obtain ⟨s₂', ha'⟩ := hp.right.sound.advance hn'
    rw [nextMoments_of_some meaning' d' hn' ha', processNext_of_some meaning' d' hn' ha']
    refine .of_fair fun hfair => ?_
    obtain ⟨r, s₁, s₂, hn, ha, rfl, h₂⟩ := hp.begin hn' ha' (hfair.2 r' rfl) hfair.1
    rw [nextMoments_of_some meaning d hn ha, processNext_of_some meaning d hn ha]
    exact .both rfl h₂ ((tandem_action hm _ (hfair.2 _ rfl) h₂).map _ fun x x' hx => congrArg _ hx)

/-- By induction on the number of events. -/
theorem tandem_loop (hm : Alike meaning meaning') (fuel : Nat) (h : Accord s d s' d') :
    Tandem Eq (loopMoments meaning fuel s d) (loopMoments meaning' fuel s' d') (runLoop meaning fuel s d)
      (runLoop meaning' fuel s' d') := by
  induction fuel generalizing s d s' d' with
  | zero => exact .error _
  | succ fuel ih =>
    have hstop : s'.stopRequested = s.stopRequested := eq_of_shell stopRequested (fun _ => rfl) h.shell_eq
    have hlimit : s'.limitReached = s.limitReached := eq_of_shell limitReached (fun _ => rfl) h.shell_eq
    simp only [loopMoments, runLoop, hstop, hlimit]
    by_cases hs : s.stopRequested
    · simp only [hs, true_or, if_true]
      exact .ok rfl h
    by_cases hl : s.limitReached
    · simp only [hs, hl, or_true, if_true]
      exact .ok rfl h
    simp only [hs, hl]
    refine (tandem_next hm h).append fun hagree => ?_
    generalize processNext meaning s d = o, processNext meaning' s' d' = o' at hagree ⊢
    cases hagree with
    | error f => exact .error f
    | @ok x x' s₁ s₁' d₁ d₁' hx h₁ =>
      subst hx
      rcases x with e | _ | _
      · exact .ok rfl h₁
      · exact .ok rfl h₁
      · exact ih h₁

theorem tandem_destroyLoop (hm : Alike meaning meaning') (fuel : Nat) (h : Accord s d s' d') :
    Tandem Eq (destroyLoopMoments meaning fuel s d) (destroyLoopMoments meaning' fuel s' d') (destroyLoop meaning fuel s d)
      (destroyLoop meaning' fuel s' d') := by
  induction fuel generalizing s d s' d' with
  | zero => exact .error _
  | succ fuel ih =>
    obtain ⟨f, a, a', hp⟩ := h
    cases he : s.destroyEvents with
    | nil =>
      have he' : s'.destroyEvents = [] := by
        rw [← hp.right.destroyEvents, hp.plans.destroyEvents, hp.left.destroyEvents, he]
        rfl
      simp only [destroyLoopMoments, destroyLoop, he, he']
      exact .ok rfl ⟨f, a, a', hp⟩
    | cons e rest =>
      obtain ⟨e', rest', he', haction, hsome, hname, h₁⟩ := hp.tearDown he
      obtain ⟨b, hb⟩ := Option.isSome_iff_exists.1 hsome
      have htandem := tandem_action hm (.perform e.action) (by rw [hb]; rfl) h₁
      simp only [destroyLoopMoments, destroyLoop, he, he', haction, List.cons_append]
      refine .both (congrArg Deed.tornDown hname) h₁ (htandem.append fun hagree => ?_)
      rw [← beginDestroy, ← beginDestroy]
      generalize perform meaning (.perform e.action) (s.beginDestroy rest) d = o,
        perform meaning' (.perform e.action) (s'.beginDestroy rest') d' = o' at hagree ⊢
      cases hagree with
      | error f => exact .error f
      | @ok x x' s₁ s₁' d₁ d₁' hx h₂ =>
        subst hx
        rcases x with e | _
        · exact .ok rfl h₂
        · exact ih h₂

/-- The stop time is past in both, or the event that stops the run is scheduled in both. -/
theorem tandem_arm (h : Accord s d s' d') :
    Tandem Eq (armMoments s) (armMoments s') (s.armStopTime.map fun y => (y.1, y.2, d))
      (s'.armStopTime.map fun y => (y.1, y.2, d')) := by
  have harmed : s'.stopTimeArmed = s.stopTimeArmed := eq_of_shell stopTimeArmed (fun _ => rfl) h.shell_eq
  have htime : s'.config.stopTime = s.config.stopTime := eq_of_shell (fun t => t.config.stopTime) (fun _ => rfl) h.shell_eq
  have hnow : s'.now = s.now := eq_of_shell now (fun _ => rfl) h.shell_eq
  have h₁ := h.switch (fun t => { t with stopTimeArmed := true }) (fun _ => rfl) fun _ => rfl
  unfold armMoments armStopTime
  by_cases hs : s.stopTimeArmed
  · simp only [harmed, hs, if_true]
    exact .ok rfl h
  cases ht : s.config.stopTime with
  | none =>
    simp only [harmed, hs, htime, ht]
    exact .both rfl h₁ (.ok rfl h₁)
  | some time =>
    by_cases hpast : time < s.now
    · have hpast' : time < s'.now := hnow ▸ hpast
      simp only [harmed, hs, htime, ht, hpast, hpast', if_true]
      exact .both rfl h₁ (.ok rfl h₁)
    · have hpast' : ¬ time < s'.now := hnow ▸ hpast
      simp only [harmed, hs, htime, ht, hpast, hpast', if_false, Call.perform]
      refine .both rfl h₁ ?_
      obtain ⟨f, a, a', hp⟩ := h₁
      have hy := hp.scheduled_at time .stop rfl
      generalize scheduleAt { s with stopTimeArmed := true } time .stop = y,
        scheduleAt { s' with stopTimeArmed := true } time .stop = y' at hy ⊢
      cases hy with
      | fault f => exact .error f
      | refused e => exact .both rfl ⟨f, a, a', hp⟩ (.ok rfl ⟨f, a, a', hp⟩)
      | added hadded =>
        refine .of_fair fun hfair => ?_
        obtain ⟨f₁, a₁, a₁', hp₁, -⟩ := hadded hfair.1
        exact .both rfl ⟨f₁, a₁, a₁', hp₁⟩ (.ok rfl ⟨f₁, a₁, a₁', hp₁⟩)

theorem tandem_run (hm : Alike meaning meaning') (fuel : Nat) (h : Accord s d s' d') :
    Tandem (Drive.Akin .run) (within meaning fuel .run s d) (within meaning' fuel .run s' d')
      (handler meaning fuel .run s d) (handler meaning' fuel .run s' d') := by
  have hrunning : s'.running = s.running := eq_of_shell running (fun _ => rfl) h.shell_eq
  simp only [within, handler, run, runMoments]
  by_cases hr : s.running
  · simp only [hrunning, hr, if_true]
    exact .ok (fun _ => rfl) h
  simp only [hrunning, hr]
  refine (tandem_arm h).append fun hagree => ?_
  generalize s.armStopTime = y, s'.armStopTime = y' at hagree ⊢
  rcases y with f | ⟨x, s₁⟩ <;> rcases y' with f' | ⟨x', s₁'⟩ <;> cases hagree
  case error => exact .error f
  case ok hx h₁ =>
    obtain rfl : x = x' := hx
    replace h₁ : Accord s₁ d s₁' d' := h₁
    rcases x with e | passed
    · exact .ok (fun _ => rfl) h₁
    have h₂ := h₁.switch (fun t => { t with running := true, stopRequested := passed }) (fun _ => rfl) fun _ => rfl
    refine .both rfl h₂ ((tandem_loop hm fuel h₂).imp fun hagree => ?_)
    simp only [bind, Except.bind, pure, Except.pure]
    generalize runLoop meaning fuel { s₁ with running := true, stopRequested := passed } d = o,
      runLoop meaning' fuel { s₁' with running := true, stopRequested := passed } d' = o' at hagree ⊢
    cases hagree with
    | error f => exact .error f
    | @ok x x' s₃ s₃' d₃ d₃' hx h₃ =>
      subst hx
      rcases x with e | reason
      · exact .ok (fun _ => rfl) (h₃.switch (fun t => { t with running := false }) (fun _ => rfl) fun _ => rfl)
      · have h₄ := h₃.switch (fun t => { t with running := false, stopReason := some reason }) (fun _ => rfl) fun _ => rfl
        exact .ok (fun n => congrArg Except.ok (eq_of_shell (fun t => t.report.veil n) (fun _ => rfl) h₄.shell_eq)) h₄

theorem tandem_step (hm : Alike meaning meaning') (fuel : Nat) (h : Accord s d s' d') :
    Tandem (Drive.Akin .step) (within meaning fuel .step s d) (within meaning' fuel .step s' d')
      (handler meaning fuel .step s d) (handler meaning' fuel .step s' d') := by
  have hrunning : s'.running = s.running := eq_of_shell running (fun _ => rfl) h.shell_eq
  simp only [within, handler, step, stepMoments]
  by_cases hr : s.running
  · simp only [hrunning, hr, if_true]
    exact .ok (fun _ => rfl) h
  simp only [hrunning, hr]
  have h₁ := h.switch (fun t => { t with running := true }) (fun _ => rfl) fun _ => rfl
  refine .both rfl h₁ ((tandem_next hm h₁).imp fun hagree => ?_)
  simp only [bind, Except.bind, pure, Except.pure]
  generalize processNext meaning { s with running := true } d = o,
    processNext meaning' { s' with running := true } d' = o' at hagree ⊢
  cases hagree with
  | error f => exact .error f
  | @ok x x' s₂ s₂' d₂ d₂' hx h₂ =>
    subst hx
    refine .ok (fun b => ?_) (h₂.switch (fun t => { t with running := false }) (fun _ => rfl) fun _ => rfl)
    cases x <;> rfl

theorem tandem_destroy (hm : Alike meaning meaning') (fuel : Nat) (h : Accord s d s' d') :
    Tandem (Drive.Akin .destroy) (within meaning fuel .destroy s d) (within meaning' fuel .destroy s' d')
      (handler meaning fuel .destroy s d) (handler meaning' fuel .destroy s' d') := by
  have hrunning : s'.running = s.running := eq_of_shell running (fun _ => rfl) h.shell_eq
  simp only [within, handler, destroy, destroyMoments]
  by_cases hr : s.running
  · simp only [hrunning, hr, if_true]
    exact .ok rfl h
  simp only [hrunning, hr]
  have h₁ := h.switch (fun t => { t with running := true }) (fun _ => rfl) fun _ => rfl
  refine .both rfl h₁ ((tandem_destroyLoop hm fuel h₁).append fun hagree => ?_)
  simp only [bind, Except.bind, pure, Except.pure]
  generalize destroyLoop meaning fuel { s with running := true } d = o,
    destroyLoop meaning' fuel { s' with running := true } d' = o' at hagree ⊢
  cases hagree with
  | error f => exact .error f
  | @ok x x' s₂ s₂' d₂ d₂' hx h₂ =>
    obtain ⟨f, a, a', h₃⟩ := h₂.switch (fun t => { t with running := false }) (fun _ => rfl) fun _ => rfl
    exact .both rfl h₃.clear (.ok hx.symm h₃.clear)

/-- Whatever a program has executed for it is executed in tandem. -/
theorem parallel_driver (hm : Alike meaning meaning') (fuel : Nat) :
    Host.Parallel (.driver meaning fuel) (.driver meaning' fuel)
  | .run, _, _, _, _, h => tandem_run hm fuel h
  | .step, _, _, _, _, h => tandem_step hm fuel h
  | .destroy, _, _, _, _, h => tandem_destroy hm fuel h

end Drives

/-- Inside actions all requests to execute events are refused. -/
theorem parallel_action : Host.Parallel (.action : Host α ω) .action
  | .run, _, _, _, _, h => .ok (fun _ => rfl) h
  | .step, _, _, _, _, h => .ok (fun _ => rfl) h
  | .destroy, _, _, _, _, h => .ok rfl h

theorem alike_veil (meaning : Meaning α ω) (insertions : Insertions) :
    Alike (meaning.veil .none) (meaning.veil insertions) :=
  fun a => (meaning a).parallel_veil parallel_action insertions

end Simulator

namespace Deed

/-- The generator that is set. -/
def drawn? : Deed α → Option Rng
  | called (.setRng g) _ => some g
  | _ => none

theorem drawn?_nameless (d : Deed α) : d.nameless.drawn? = d.drawn? := by
  rcases d with ⟨c, answer⟩ | _ | _ | _ | _ | _
  · cases c <;> rfl
  all_goals rfl

theorem began?_nameless (d : Deed α) : d.nameless.began? = d.began?.map EventRecord.nameless := by
  rcases d with ⟨c, answer⟩ | _ | _ | _ | _ | _
  · cases c <;> rfl
  all_goals rfl

/-- Extra requests execute and draw nothing. -/
theorem Extra.eq_none {d : Deed (Option α)} (h : d.Extra) : d.began? = none ∧ d.drawn? = none := by
  rcases d with ⟨c, answer⟩ | _ | _ | _ | _ | _
  · cases c with
    | setRng => cases h
    | _ => exact ⟨rfl, rfl⟩
  all_goals cases h

end Deed

section History

open Simulator

variable (owner : Nat) (config : Config) (meaning : Meaning α ω) (fuel : Nat) (p : Program α ω ρ) (w : ω)

/-- The history of a veiled program, where requests are inserted. -/
def veiledHistory (insertions : Insertions) : List (Moment (Option α)) :=
  history (meaning.veil insertions) fuel (p.veil insertions) (ofConfig owner config) { model := w }

/-- What the execution of a veiled program comes to, where requests are inserted. -/
def veiledOutcome (insertions : Insertions) : Except Fault (Outcome (Option α) (Desk ω) ρ) :=
  (p.veil insertions).exec (handler (meaning.veil insertions) fuel) (ofConfig owner config) { model := w }

/-- **Cancelled events leave no trace.** Let a program drive a simulator, and let neither it nor the actions be able to tell
which numbers and slots events have, and how many extra events there are. Insert requests anywhere in its history, in actions
as well, that schedule extra events with any delays and contexts and cancel them anywhere, so that none of them begins. Then
the same happens in both histories, up to names and to the extra requests: the same events are executed, by time, context and
action, the same is drawn, and after each of these moments the simulators are alike, so the clock stands at the same time, runs
stop for the same reason, and as many more events are pending as extra ones are. The program and its model come to the same. -/
theorem cancelled_traceless (insertions : Insertions)
    (hfair : ∀ m ∈ veiledHistory owner config meaning fuel p w insertions, m.Fair) :
    let ms := veiledHistory owner config meaning fuel p w .none
    let ms' := veiledHistory owner config meaning fuel p w insertions
    let o := veiledOutcome owner config meaning fuel p w .none
    let o' := veiledOutcome owner config meaning fuel p w insertions
    Alongside ms ms' ∧
      (executed ms').map EventRecord.nameless = (executed ms).map EventRecord.nameless ∧
      (ms'.filterMap fun m => m.deed.drawn?) = (ms.filterMap fun m => m.deed.drawn?) ∧
      ((∃ f, o = .error f ∧ o' = .error f) ∨
        ∃ result s d s' d', o = .ok (result, s, d) ∧ o' = .ok (result, s', d') ∧ d'.model = d.model ∧ s.Like s') := by
  intro ms ms' o o'
  have hstart : Accord (ofConfig owner config : Simulator (Option α)) _ _ _ := accord_ofConfig owner config w
  have hparallel := p.parallel_veil (parallel_driver (alike_veil meaning insertions) fuel) insertions
  obtain ⟨hms, ho⟩ : Alongside ms ms' ∧ Agree Eq o o' := (hparallel _ _ _ _ hstart).both rfl hstart hfair
  refine ⟨hms, ?_, hms.filterMap_eq Deed.drawn? Deed.drawn?_nameless fun _ hx => hx.eq_none.2, ?_⟩
  · have hbegan := hms.filterMap_eq (fun d => d.began?.map EventRecord.nameless) (fun d => ?_) fun d hx => ?_
    · simpa only [executed, List.map_filterMap] using hbegan
    · rw [d.began?_nameless, Option.map_map]
      rfl
    · rw [hx.eq_none.1]
      rfl
  · generalize o = y, o' = y' at ho ⊢
    cases ho with
    | error f => exact .inl ⟨f, rfl, rfl⟩
    | ok hx h =>
      subst hx
      obtain ⟨f, a, a', h⟩ := h
      exact .inr ⟨_, _, _, _, _, rfl, rfl, h.model, h.like⟩

end History

/-- Two events at one time. -/
def twoAtFive : Program Nat Unit Unit := do
  let _ ← Program.request (.schedule ⟨5_000_000, by decide, by decide⟩ 0)
  let _ ← Program.request (.schedule ⟨5_000_000, by decide, by decide⟩ 1)
  let _ ← Program.requestDrive .run

/-- Between them an extra event is scheduled for that time, which the action of the first one cancels. -/
def plantBetween : Insertions
  | 1 => [.schedule ContextId.none ⟨5_000_000, by decide, by decide⟩]
  | 3 => [.cancel 0]
  | _ => []

theorem cancelled_traceless_plantBetween :
    let h := veiledHistory 0 {} (fun _ => Program.done ()) 4 twoAtFive ()
    (∀ m ∈ h plantBetween, m.Fair) ∧ (h plantBetween).length = (h .none).length + 2 ∧ (executed (h .none)).length = 2 ∧
      (executed (h plantBetween)).map EventRecord.nameless = (executed (h .none)).map EventRecord.nameless := by
  intro h
  have hfair : ∀ m ∈ h plantBetween, m.Fair := by decide +kernel
  have hlength : (h plantBetween).length = (h .none).length + 2 := by decide +kernel
  have htwo : (executed (h .none)).length = 2 := by decide +kernel
  exact ⟨hfair, hlength, htwo, (cancelled_traceless 0 {} (fun _ => Program.done ()) 4 twoAtFive () plantBetween hfair).2.1⟩

end SimKernel
