import SimKernel.Proofs.Simulator.Driving
import SimKernel.Proofs.Simulator.Table

/-!
# From one simulator to another

A relation between a simulator with the model and what becomes of them, as certain events begin, can be followed through
every run, step and teardown: if it holds of what the simulator does of its own accord, and of every event together with the
execution of its action (`Passage.Closed`), then it holds of whatever the driver asks for (`Passage.Closed.handler`).

The model may keep something at a site (`Site`), and its programs may do nothing to it but by requests of certain kinds
(`Site.Uses`). A relation that holds of every such request, and of all other requests to the simulator that may be made, holds
of every such program (`Site.Uses.passage`).
-/

namespace SimKernel

variable {α ω ρ σ τ κ : Type}

/-- No event of the model is scheduled or begins. -/
def Deed.Neutral (d : Deed α) : Prop := ∀ a, d.action? ≠ some (.perform a)

namespace Deed

theorem neutral_idled : (idled : Deed α).Neutral := by
  intro a h
  cases h

theorem neutral_switched : (switched : Deed α).Neutral := by
  intro a h
  cases h

theorem neutral_cleared : (cleared : Deed α).Neutral := by
  intro a h
  cases h

theorem neutral_stop : (called .stop () : Deed α).Neutral := by
  intro a h
  cases h

theorem neutral_stopAt (time : Time) (answer : (Call.stopAt time : Call α).Answer) :
    (called (.stopAt time) answer : Deed α).Neutral := by
  intro a h
  cases h

end Deed

/-! ## Programs that only ask and request -/

namespace Program

/-- The program asks questions and makes requests of the allowed kinds that execute nothing, and that is all. -/
def Plain (allowed : Call α → Prop) : Program α ω ρ → Prop
  | done _ | fault _ => True
  | ask _ next => ∀ a, (next a).Plain allowed
  | call c next => allowed c ∧ ∀ a, (next a).Plain allowed
  | fail _ | drive _ _ | look _ | change _ _ => False

variable {allowed : Call α → Prop}

/-- One plain program after another is plain. -/
theorem Plain.bind {p : Program α ω ρ} (hp : p.Plain allowed) {k : ρ → Program α ω σ} (hk : ∀ r, (k r).Plain allowed) :
    (p >>= k).Plain allowed := by
  change (p.bind k).Plain allowed
  induction p with
  | done r => exact hk r
  | fault => trivial
  | ask q next ih => exact fun a => ih a (hp a)
  | call c next ih => exact ⟨hp.1, fun a => ih a (hp.2 a)⟩
  | fail | drive | look | change => exact hp.elim

theorem plain_random {draw : Rng → Except Fault (ρ × Rng)} (h : ∀ g, allowed (.setRng g)) :
    (random draw : Program α ω ρ).Plain allowed := by
  intro g
  change (Program.bind (ofFaulty (draw g)) _).Plain allowed
  cases draw g with
  | error f => trivial
  | ok x => exact ⟨h x.2, fun _ => trivial⟩

variable {handle : Handler α ω} {p : Program α ω ρ} {s : Simulator α} {w : ω} {x : Outcome α ω ρ}

/-- Such a program does not fail, leaves the model alone, and executes no event. -/
theorem Plain.exec_eq_ok (hp : p.Plain allowed) (h : p.exec handle s w = .ok x) (within : Within α ω) :
    (∃ r, x = (.ok r, x.2.1, w)) ∧ executed (p.moments handle within s w) = [] := by
  induction p generalizing s with
  | done r => cases h; exact ⟨⟨r, rfl⟩, rfl⟩
  | fault => cases h
  | ask q next ih =>
    obtain ⟨a, ha, hrest⟩ := exec_ask_eq_ok h
    simp only [moments, ha]
    exact ih a (hp a) hrest
  | call c next ih =>
    obtain ⟨a, s₁, hc, hrest⟩ := exec_call_eq_ok h
    obtain ⟨hx, hnone⟩ := ih a (hp.2 a) hrest
    simp only [moments, hc]
    exact ⟨hx, (Simulator.executed_cons_of_none rfl _).trans hnone⟩
  | fail | drive | look | change => exact hp.elim

/-- What the allowed requests keep, such a program keeps. -/
theorem Plain.keeps (hp : p.Plain allowed) {I : Simulator α → Prop}
    (hcall : ∀ {s s' : Simulator α} {c : Call α} {a : c.Answer}, allowed c → c.perform s = .ok (a, s') → I s → I s')
    (h : p.exec handle s w = .ok x) (hs : I s) : I x.2.1 := by
  induction p generalizing s with
  | done r => cases h; exact hs
  | fault => cases h
  | ask q next ih =>
    obtain ⟨a, -, hrest⟩ := exec_ask_eq_ok h
    exact ih a (hp a) hrest hs
  | call c next ih =>
    obtain ⟨a, s₁, hc, hrest⟩ := exec_call_eq_ok h
    exact ih a (hp.2 a) hrest (hcall hp.1 hc hs)
  | fail | drive | look | change => exact hp.elim

end Program

/-! ## Passages -/

namespace Simulator

/-- What may become of a simulator and the model while the events begin. -/
abbrev Passage (α ω : Type) := Simulator α → ω → List (EventRecord (Action α)) → Simulator α → ω → Prop

/-- Nothing is a passage, and passages one after the other are one. -/
structure Passage.Composes (R : Passage α ω) : Prop where
  refl (s : Simulator α) (w : ω) : R s w [] s w
  trans {s t u : Simulator α} {w v x : ω} {rs rs' : List (EventRecord (Action α))} (h : R s w rs t v)
    (h' : R t v rs' u x) : R s w (rs ++ rs') u x

/-- What the simulator does of its own accord is a passage, and so is every event with its action, while it runs and when
it is torn down. -/
structure Passage.Closed (R : Passage α ω) (meaning : Meaning α ω) : Prop extends R.Composes where
  step {s : Simulator α} {m : Moment α} (w : ω) (h : s.Step m) (hm : m.deed.Neutral) :
    R s w m.deed.began?.toList m.state w
  event {s s' : Simulator α} {r : EventRecord (Action α)} {a : α} {w : ω} {x : Outcome α ω Unit}
    (h : s.Step ⟨.began r, s'⟩) (ha : r.action = .perform a) (hx : (meaning a).exec Handler.refuse s' w = .ok x) :
    R s w [r] x.2.1 x.2.2
  teardown {s : Simulator α} {e : DestroyEvent α} {rest : List (DestroyEvent α)} {w : ω} {x : Outcome α ω Unit}
    (h : s.destroyEvents = e :: rest) (hx : (meaning e.action).exec Handler.refuse (s.beginDestroy rest) w = .ok x) :
    R s w [] x.2.1 x.2.2

namespace Passage.Closed

variable {R : Passage α ω} {meaning : Meaning α ω} {s t : Simulator α} {w : ω} {fuel : Nat}

/-- A neutral step after a passage. -/
theorem snoc (hR : R.Closed meaning) {rs : List (EventRecord (Action α))} {v : ω} {m : Moment α} (h : R s w rs t v)
    (hs : t.Step m) (hm : m.deed.Neutral) (hnone : m.deed.began? = none) : R s w rs m.state v := by
  have h' := hR.trans h (hR.step v hs hm)
  rwa [hnone, Option.toList_none, List.append_nil] at h'

theorem path (hR : R.Closed meaning) {ms : List (Moment α)} (hp : Path s ms t) (hms : ∀ m ∈ ms, m.deed.Neutral) (w : ω) :
    R s w (executed ms) t w := by
  induction hp with
  | nil s => exact hR.refl s w
  | cons hs _ ih =>
    rw [executed_cons]
    exact hR.trans (hR.step w hs (hms _ List.mem_cons_self)) (ih fun m hm => hms m (List.mem_cons_of_mem _ hm))

/-- The event begins, and then its action is executed. -/
theorem next (hR : R.Closed meaning) {x : Outcome α ω Bool} (h : processNext meaning s w = .ok x) :
    R s w (executed (nextMoments meaning s w)) x.2.1 x.2.2 := by
  obtain ⟨⟨_ | r, s₁⟩, hn⟩ : ∃ y, s.nextEvent = y := ⟨_, rfl⟩
  · rw [processNext_of_none meaning w hn] at h
    cases h
    simp only [nextMoments, hn]
    exact hR.step w (.idled hn) Deed.neutral_idled
  · cases hadvance : s₁.advance r with
    | error f =>
      rw [processNext_of_error meaning w hn hadvance] at h
      cases h
    | ok s₂ =>
      have hbegan : s.Step ⟨.began r, s₂⟩ := .began hn hadvance
      rw [processNext_of_some meaning w hn hadvance] at h
      rw [nextMoments_of_some meaning w hn hadvance, executed_cons, executed_action, List.append_nil]
      cases ho : perform meaning r.action s₂ w with
      | error f => rw [ho] at h; cases h
      | ok y =>
        rw [ho] at h
        cases h
        cases ha : r.action with
        | stop =>
          rw [ha] at ho
          cases ho
          have hstop : s₂.Step ⟨.called .stop (), s₂.stop⟩ := .called rfl
          have hneutral : (Deed.began r).Neutral := by
            intro a h
            cases ha.symm.trans (Option.some.inj h)
          exact hR.snoc (hR.step w hbegan hneutral) hstop Deed.neutral_stop rfl
        | perform a =>
          rw [ha] at ho
          exact hR.event hbegan ha ho

/-- By induction on the fuel, one event and its action at a time. -/
theorem loop (hR : R.Closed meaning) {x : Outcome α ω StopReason}
    (h : runLoop meaning fuel s w = .ok x) :
    R s w (executed (loopMoments meaning fuel s w)) x.2.1 x.2.2 := by
  induction fuel generalizing s w with
  | zero => cases h
  | succ fuel ih =>
    rw [runLoop] at h
    rw [loopMoments]
    by_cases hs : s.stopRequested
    · simp only [hs, if_true] at h
      cases h
      simp only [hs, true_or, if_true]
      exact hR.refl _ w
    by_cases hl : s.limitReached
    · simp only [hs, hl, if_true] at h
      cases h
      simp only [hl, or_true, if_true]
      exact hR.refl _ w
    simp only [hs, hl, Bool.false_eq_true, or_self, if_false] at h ⊢
    rw [executed_append]
    cases hx : processNext meaning s w with
    | error f => rw [hx] at h; cases h
    | ok y =>
      rw [hx] at h
      have hy := hR.next hx
      obtain ⟨_ | (_ | _), t, v⟩ := y
      · cases h
        exact hR.trans hy (hR.refl _ _)
      · cases h
        exact hR.trans hy (hR.refl _ _)
      · exact hR.trans hy (ih h)

/-- By induction on the fuel, one destroy event and its action at a time. -/
theorem destroyLoop (hR : R.Closed meaning) {x : Outcome α ω Unit}
    (h : Simulator.destroyLoop meaning fuel s w = .ok x) : R s w [] x.2.1 x.2.2 := by
  induction fuel generalizing s w with
  | zero => cases h
  | succ fuel ih =>
    rw [Simulator.destroyLoop] at h
    cases he : s.destroyEvents with
    | nil =>
      rw [he] at h
      cases h
      exact hR.refl s w
    | cons e rest =>
      rw [he] at h
      simp only [show ({ s with
          destroyEvents := rest
          metrics := { s.metrics with executed := s.metrics.executed + 1 } } : Simulator α) = s.beginDestroy rest from rfl] at h
      cases hx : perform meaning (.perform e.action) (s.beginDestroy rest) w with
      | error f => rw [hx] at h; cases h
      | ok y =>
        rw [hx] at h
        have hy := hR.teardown he hx
        obtain ⟨_ | _, t, v⟩ := y
        · cases h
          exact hy
        · exact hR.trans hy (ih h)

/-- Nothing but the stop itself is scheduled when the stop time is armed. -/
theorem neutral_of_mem_armMoments {m : Moment α} (h : m ∈ armMoments s) : m.deed.Neutral := by
  unfold armMoments at h
  split at h
  · cases h
  dsimp only at h
  rcases List.mem_cons.1 h with rfl | h
  · exact Deed.neutral_switched
  split at h
  · cases h
  split at h
  · cases h
  split at h
  · obtain rfl := List.mem_singleton.1 h
    exact Deed.neutral_stopAt _ _
  · cases h

theorem run (hR : R.Closed meaning) {x : Outcome α ω Report} (h : s.run meaning fuel w = .ok x) :
    R s w (executed (s.runMoments meaning fuel w)) x.2.1 x.2.2 := by
  unfold Simulator.run at h
  unfold runMoments
  by_cases hr : s.running
  · simp only [hr, if_true] at h ⊢
    cases h
    exact hR.refl s w
  simp only [hr, Bool.false_eq_true, if_false] at h ⊢
  obtain ⟨t, hp, ht⟩ := path_arm s
  have harmed : R s w (executed (armMoments s)) t w := hR.path hp (fun m hm => neutral_of_mem_armMoments hm) w
  rw [executed_append]
  cases harm : s.armStopTime with
  | error f => rw [harm] at h; cases h
  | ok y =>
    obtain rfl := ht y harm
    rw [harm] at h
    obtain ⟨e | passed, s₁⟩ := y
    · cases h
      exact hR.trans harmed (hR.refl _ w)
    refine hR.trans harmed ?_
    have hs : s₁.Step ⟨.switched, { s₁ with running := true, stopRequested := passed }⟩ :=
      .switched true passed s₁.stopTimeArmed s₁.stopReason
    simp only [bind, Except.bind] at h
    rw [executed_cons]
    refine hR.trans (hR.step w hs Deed.neutral_switched) ?_
    cases hy : runLoop meaning fuel { s₁ with running := true, stopRequested := passed } w with
    | error f => rw [hy] at h; cases h
    | ok y =>
      rw [hy] at h
      have hloop := hR.loop hy
      obtain ⟨_ | reason, s₂, v⟩ := y
      · cases h
        exact hR.snoc hloop (.switched false s₂.stopRequested s₂.stopTimeArmed s₂.stopReason) Deed.neutral_switched rfl
      · cases h
        exact hR.snoc hloop (.switched false s₂.stopRequested s₂.stopTimeArmed (some reason)) Deed.neutral_switched rfl

theorem stepOnce (hR : R.Closed meaning) {x : Outcome α ω Bool} (h : s.step meaning w = .ok x) :
    R s w (executed (s.stepMoments meaning w)) x.2.1 x.2.2 := by
  unfold Simulator.step at h
  unfold stepMoments
  by_cases hr : s.running
  · simp only [hr, if_true] at h ⊢
    cases h
    exact hR.refl s w
  simp only [hr, Bool.false_eq_true, if_false] at h ⊢
  have hs : s.Step ⟨.switched, { s with running := true }⟩ := .switched true s.stopRequested s.stopTimeArmed s.stopReason
  rw [executed_cons]
  refine hR.trans (hR.step w hs Deed.neutral_switched) ?_
  simp only [bind, Except.bind] at h
  cases hy : processNext meaning { s with running := true } w with
  | error f => rw [hy] at h; cases h
  | ok y =>
    rw [hy] at h
    have hnext := hR.next hy
    obtain ⟨_, s₂, v⟩ := y
    cases h
    exact hR.snoc hnext (.switched false s₂.stopRequested s₂.stopTimeArmed s₂.stopReason) Deed.neutral_switched rfl

theorem destroy (hR : R.Closed meaning) {x : Drive.destroy.Answer α × Simulator α × ω}
    (h : s.destroy meaning fuel w = .ok x) : R s w (executed (s.destroyMoments meaning fuel w)) x.2.1 x.2.2 := by
  unfold Simulator.destroy at h
  unfold destroyMoments
  by_cases hr : s.running
  · simp only [hr, if_true] at h ⊢
    cases h
    exact hR.refl s w
  simp only [hr, Bool.false_eq_true, if_false] at h ⊢
  have hs : s.Step ⟨.switched, { s with running := true }⟩ := .switched true s.stopRequested s.stopTimeArmed s.stopReason
  simp only [bind, Except.bind] at h
  cases hy : Simulator.destroyLoop meaning fuel { s with running := true } w with
  | error f => rw [hy] at h; cases h
  | ok y =>
    rw [hy] at h
    have hloop := hR.destroyLoop hy
    obtain ⟨_, s₂, v⟩ := y
    cases h
    rw [List.cons_append, executed_cons, executed_append, executed_destroyLoop]
    exact hR.snoc (hR.trans (hR.step w hs Deed.neutral_switched) hloop) .cleared Deed.neutral_cleared rfl

/-- Whatever the driver asks for is a passage. -/
theorem handler (hR : R.Closed meaning) {d : Drive} {x : d.Answer α × Simulator α × ω}
    (h : Simulator.handler meaning fuel d s w = .ok x) :
    R s w (executed (within meaning fuel d s w)) x.2.1 x.2.2 := by
  cases d with
  | run => exact hR.run h
  | step => exact hR.stepOnce h
  | destroy => exact hR.destroy h

end Passage.Closed

end Simulator

/-! ## Programs with a site -/

/-- Where a model keeps something. -/
structure Site (τ ω : Type) where
  get : ω → τ
  set : τ → ω → ω
  get_set : ∀ t w, get (set t w) = t

namespace Site

/-- Does to what is kept what the program says, and goes on with the answer. -/
def update (P : Site τ ω) (p : τ → Program α ω (σ × τ)) (next : σ → Program α ω ρ) : Program α ω ρ :=
  .look fun w => p (P.get w) >>= fun x => .change (P.set x.2) (next x.1)

variable (P : Site τ ω) (allowed : Call α → Prop) (program : κ → τ → Program α ω (σ × τ))

/-- The program makes no requests to the simulator but allowed ones, and does nothing to what is kept but by the programs. -/
inductive Uses : Program α ω ρ → Prop
  | done (r : ρ) : Uses (.done r)
  | fail (e : SimError) : Uses (.fail e)
  | fault (f : Fault) : Uses (.fault f)
  | ask {q : Query} {next : q.Answer → Program α ω ρ} (h : ∀ a, Uses (next a)) : Uses (.ask q next)
  | call {c : Call α} {next : c.Answer → Program α ω ρ} (hc : allowed c) (h : ∀ a, Uses (next a)) : Uses (.call c next)
  | drive {d : Drive} {next : d.Answer α → Program α ω ρ} (h : ∀ a, Uses (next a)) : Uses (.drive d next)
  | look {next : ω → Program α ω ρ} (h : ∀ w, Uses (next w)) : Uses (.look next)
  | change {g : ω → ω} {next : Program α ω ρ} (hg : ∀ w, P.get (g w) = P.get w) (h : Uses next) : Uses (.change g next)
  | update {k : κ} {next : σ → Program α ω ρ} (h : ∀ r, Uses (next r)) : Uses (P.update (program k) next)

/-- Allowed requests and the programs are passages in which no event begins, and of the model only what is kept counts. -/
structure Bears (R : Simulator.Passage α ω) : Prop extends R.Composes where
  call {s s' : Simulator α} {c : Call α} {a : c.Answer} (w : ω) (hc : allowed c) (h : c.perform s = .ok (a, s')) :
    R s w [] s' w
  only {s t : Simulator α} {w w' v : ω} {rs : List (EventRecord (Action α))} (hw : P.get w' = P.get w)
    (h : R s w' rs t v) : R s w rs t v
  update {handle : Handler α ω} {k : κ} {s s' : Simulator α} {w : ω} {r : σ} {t : τ}
    (h : (program k (P.get w)).exec handle s w = .ok (.ok (r, t), s', w)) : R s w [] s' (P.set t w)

variable {P allowed program} {plain : Call α → Prop} {handle : Handler α ω} {s : Simulator α} {w : ω}

/-- What is kept is updated without an event, and then comes the rest. -/
theorem exec_update {p : τ → Program α ω (σ × τ)} (hp : ∀ t, (p t).Plain plain) {next : σ → Program α ω ρ}
    {x : Outcome α ω ρ} (h : (P.update p next).exec handle s w = .ok x) (within : Within α ω) :
    ∃ r t s₁, (p (P.get w)).exec handle s w = .ok (.ok (r, t), s₁, w) ∧
      (next r).exec handle s₁ (P.set t w) = .ok x ∧
      executed ((P.update p next).moments handle within s w) =
        executed ((next r).moments handle within s₁ (P.set t w)) := by
  change (p (P.get w) >>= fun x => .change (P.set x.2) (next x.1)).exec handle s w = .ok x at h
  change ∃ r t s₁, _ ∧ _ ∧ executed (((p (P.get w)).bind fun x => .change (P.set x.2) (next x.1)).moments handle within s w) = _
  rw [Program.exec_bind] at h
  rw [Program.moments_bind]
  cases hq : (p (P.get w)).exec handle s w with
  | error f => rw [hq] at h; cases h
  | ok y =>
    obtain ⟨⟨⟨r, t⟩, hy⟩, hnone⟩ := (hp (P.get w)).exec_eq_ok hq within
    rw [hq, hy] at h
    rw [hy]
    refine ⟨r, t, _, rfl, h, ?_⟩
    rw [executed_append, hnone]
    rfl

/-- By induction on the program: with every request comes a passage, and drives are passages already. -/
theorem Uses.passage {R : Simulator.Passage α ω} (hR : P.Bears allowed program R)
    (hplain : ∀ k t, (program k t).Plain plain) {p : Program α ω ρ} (hp : P.Uses allowed program p) {x : Outcome α ω ρ}
    (h : p.exec handle s w = .ok x) (within : Within α ω)
    (hd : ∀ d s w x, handle d s w = .ok x → R s w (executed (within d s w)) x.2.1 x.2.2) :
    R s w (executed (p.moments handle within s w)) x.2.1 x.2.2 := by
  induction hp generalizing s w with
  | done | fail => cases h; exact hR.refl s w
  | fault => cases h
  | @ask q next _ ih =>
    obtain ⟨a, ha, hrest⟩ := Program.exec_ask_eq_ok h
    simp only [Program.moments, ha]
    exact ih a hrest
  | @call c next hc _ ih =>
    obtain ⟨a, s₁, hperform, hrest⟩ := Program.exec_call_eq_ok h
    simp only [Program.moments, hperform]
    rw [Simulator.executed_cons_of_none rfl]
    exact hR.trans (hR.call w hc hperform) (ih a hrest)
  | @drive d next _ ih =>
    obtain ⟨a, s₁, w₁, hhandle, hrest⟩ := Program.exec_drive_eq_ok h
    simp only [Program.moments, hhandle, executed_append]
    rw [Simulator.executed_cons_of_none rfl]
    exact hR.trans (hd d s w _ hhandle) (ih a hrest)
  | look _ ih => exact ih w h
  | @change g next hg _ ih => exact hR.only (hg w) (ih h)
  | @update k next _ ih =>
    obtain ⟨r, t, s₁, hk, hrest, hmoments⟩ := exec_update (hplain k) h within
    rw [hmoments]
    exact hR.trans (hR.update hk) (ih r hrest)

/-- An action is a passage in which no event begins. -/
theorem Uses.action {R : Simulator.Passage α ω} (hR : P.Bears allowed program R)
    (hplain : ∀ k t, (program k t).Plain plain) {p : Program α ω Unit} (hp : P.Uses allowed program p)
    {x : Outcome α ω Unit} (h : p.exec Handler.refuse s w = .ok x) : R s w [] x.2.1 x.2.2 := by
  have hpassage := hp.passage hR hplain h (fun _ _ _ => []) fun d s w x hd => by
    cases hd
    exact hR.refl s w
  rwa [Simulator.executed_moments_refuse] at hpassage

end Site

end SimKernel
