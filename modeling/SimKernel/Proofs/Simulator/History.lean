import SimKernel.Simulator.Run

/-!
# Histories

The history of a simulator is the list of the moments at which something happened to it, in order: a request was
answered, the execution of an event began, and so on, each with the state after it. The moments inside actions are part
of it, and so are those before a fault, so the endless runs are covered by what happened up to some point.

- `history` lists the moments of a program that drives a new simulator, read off the functions that execute it;
- `Simulator.Step` says what a single moment can be, and every history consists of such steps (`path_history`), so what
  each step keeps holds at every moment (`Path.invariant`).
-/

namespace SimKernel

/-- What happens to a simulator. -/
inductive Deed (α : Type) where
  /-- A request was answered. -/
  | called (c : Call α) (answer : c.Answer)
  /-- The execution of an event began. -/
  | began (r : EventRecord (Action α))
  /-- There was no event to execute. -/
  | idled
  /-- The execution of a destroy event began. -/
  | tornDown (e : DestroyEvent α)
  /-- All events were forgotten. -/
  | cleared
  /-- A run, step or teardown began or ended. -/
  | switched

/-- What happened, and the simulator after it. -/
structure Moment (α : Type) where
  deed : Deed α
  state : Simulator α

/-- The event that began to execute. -/
def Deed.began? {α : Type} : Deed α → Option (EventRecord (Action α))
  | began r => some r
  | _ => none

theorem Deed.began?_eq_some_iff {α : Type} {d : Deed α} {r : EventRecord (Action α)} : d.began? = some r ↔ d = .began r := by
  refine ⟨fun h => ?_, fun h => h ▸ rfl⟩
  cases d <;> cases h
  rfl

/-- The events executed in the course of a history. -/
def executed {α : Type} (ms : List (Moment α)) : List (EventRecord (Action α)) :=
  ms.filterMap fun m => m.deed.began?

/-- The one event is due earlier, or at the same time and was scheduled first. -/
def EventRecord.before {β : Type} (r r' : EventRecord β) : Prop :=
  r.time.femtos < r'.time.femtos ∨ r.time.femtos = r'.time.femtos ∧ r.uid < r'.uid

/-! ## Single steps -/

namespace Simulator

variable {α ω ρ : Type}

/-- The simulator that is about to execute its first destroy event, whose others are `rest`. -/
def beginDestroy (s : Simulator α) (rest : List (DestroyEvent α)) : Simulator α :=
  { s with destroyEvents := rest, metrics := { s.metrics with executed := s.metrics.executed + 1 } }

/-- What may happen next to a simulator. -/
inductive Step (s : Simulator α) : Moment α → Prop
  | called {c : Call α} {answer : c.Answer} {s' : Simulator α} (h : c.perform s = .ok (answer, s')) :
      Step s ⟨.called c answer, s'⟩
  | began {r : EventRecord (Action α)} {s₁ s₂ : Simulator α} (h : s.nextEvent = (some r, s₁))
      (h' : s₁.advance r = .ok s₂) : Step s ⟨.began r, s₂⟩
  | idled {s' : Simulator α} (h : s.nextEvent = (none, s')) : Step s ⟨.idled, s'⟩
  | tornDown {e : DestroyEvent α} {rest : List (DestroyEvent α)} (h : s.destroyEvents = e :: rest) :
      Step s ⟨.tornDown e, s.beginDestroy rest⟩
  | cleared : Step s ⟨.cleared, { s with running := false }.clear.2⟩
  | switched (running stopRequested stopTimeArmed : Bool) (stopReason : Option StopReason) :
      Step s ⟨.switched, { s with running, stopRequested, stopTimeArmed, stopReason }⟩

/-- The moments lead, step by step, from one simulator to another. -/
inductive Path : Simulator α → List (Moment α) → Simulator α → Prop
  | nil (s : Simulator α) : Path s [] s
  | cons {s t : Simulator α} {m : Moment α} {ms : List (Moment α)} (h : s.Step m) (hs : Path m.state ms t) :
      Path s (m :: ms) t

/-- Paths compose where one ends and the other begins. -/
theorem Path.append {s t u : Simulator α} {ms ns : List (Moment α)} (h : Path s ms t) (h' : Path t ns u) :
    Path s (ms ++ ns) u := by
  induction h with
  | nil => exact h'
  | cons hs _ ih => exact .cons hs (ih h')

theorem Path.single {s : Simulator α} {m : Moment α} (h : s.Step m) : Path s [m] m.state :=
  .cons h (.nil _)

/-- A path taken apart at one of its moments. -/
theorem Path.split {s t : Simulator α} {ms ns : List (Moment α)} {m : Moment α} (h : Path s (ms ++ m :: ns) t) :
    ∃ u, Path s ms u ∧ u.Step m ∧ Path m.state ns t := by
  induction ms generalizing s with
  | nil =>
    cases h with
    | cons hs hp => exact ⟨s, .nil s, hs, hp⟩
  | cons m' ms ih =>
    cases h with
    | cons hs hp =>
      obtain ⟨u, hu, hrest⟩ := ih hp
      exact ⟨u, .cons hs hu, hrest⟩

/-- What every step keeps holds at every moment. -/
theorem Path.invariant {I : Simulator α → Prop} (step : ∀ s m, I s → s.Step m → I m.state) {s t : Simulator α}
    {ms : List (Moment α)} (h : Path s ms t) (hs : I s) : I t ∧ ∀ m ∈ ms, I m.state := by
  induction h with
  | nil s => exact ⟨hs, fun m hm => absurd hm List.not_mem_nil⟩
  | cons h _ ih =>
    obtain ⟨ht, hms⟩ := ih (step _ _ hs h)
    refine ⟨ht, ?_⟩
    intro m hm
    rcases List.mem_cons.1 hm with rfl | hm
    · exact step _ _ hs h
    · exact hms m hm

section Leads

variable {σ τ : Type} {s t : Simulator α} {ms ns : List (Moment α)} {o : Except Fault (σ × Simulator α × ω)}

/-- The moments start at `s`, and end at the simulator of the outcome if there is one. -/
def Leads (s : Simulator α) (ms : List (Moment α)) (o : Except Fault (σ × Simulator α × ω)) : Prop :=
  ∃ t, Path s ms t ∧ ∀ x, o = .ok x → x.2.1 = t

theorem Path.leads_ok (h : Path s ms t) (a : σ) (w : ω) : Leads s ms (.ok (a, t, w)) :=
  ⟨t, h, by rintro x ⟨⟩; rfl⟩

/-- Where a fault ends everything, the moments before it still are a path. -/
theorem Path.leads_error (h : Path s ms t) (f : Fault) : Leads s ms (.error f : Except Fault (σ × Simulator α × ω)) :=
  ⟨t, h, by rintro x ⟨⟩⟩

/-- What happened before comes before. -/
theorem Path.append_leads (h : Path s ms t) (h' : Leads t ns o) : Leads s (ms ++ ns) o := by
  obtain ⟨u, hp, hu⟩ := h'
  exact ⟨u, h.append hp, hu⟩

theorem Step.cons_leads {m : Moment α} (h : s.Step m) (h' : Leads m.state ms o) : Leads s (m :: ms) o :=
  (Path.single h).append_leads h'

/-- It is of no account what is made of the answer. -/
theorem Leads.map {x : Except Fault (τ × Simulator α × ω)} (h : Leads s ms x) (f : τ → σ)
    (ho : o = x.map fun y => (f y.1, y.2)) : Leads s ms o := by
  obtain ⟨t, hp, ht⟩ := h
  refine ⟨t, hp, ?_⟩
  intro y hy
  cases x with
  | error e => rw [ho] at hy; cases hy
  | ok z => rw [ho] at hy; cases hy; exact ht z rfl

/-- The end of the moments of an outcome without fault. -/
theorem Leads.path {x : σ × Simulator α × ω} (h : Leads s ms o) (ho : o = .ok x) : Path s ms x.2.1 := by
  obtain ⟨t, hp, ht⟩ := h
  exact ht x ho ▸ hp

end Leads

end Simulator

/-! ## The moments of an execution -/

section Moments

open Simulator

variable {α ω ρ : Type}

/-- The moments of requests that drive the simulator, besides the one at which they are answered. -/
abbrev Within (α ω : Type) := Drive → Simulator α → ω → List (Moment α)

/-- The moments of a program. -/
def Program.moments (handle : Handler α ω) (within : Within α ω) :
    Program α ω ρ → Simulator α → ω → List (Moment α)
  | done _, _, _ => []
  | fail _, _, _ => []
  | fault _, _, _ => []
  | ask q next, s, w =>
    match q.answer s with
    | .ok a => (next a).moments handle within s w
    | .error _ => []
  | call c next, s, w =>
    match c.perform s with
    | .ok (a, s) => ⟨.called c a, s⟩ :: (next a).moments handle within s w
    | .error _ => []
  | drive d next, s, w =>
    within d s w ++
      match handle d s w with
      | .ok (a, s, w) => ⟨.switched, s⟩ :: (next a).moments handle within s w
      | .error _ => []
  | look next, s, w => (next w).moments handle within s w
  | change g next, s, w => next.moments handle within s (g w)

/-- A sequence has the moments of one part and then, unless it failed, of the other. -/
theorem Program.moments_bind {σ : Type} (handle : Handler α ω) (within : Within α ω) (p : Program α ω ρ)
    (k : ρ → Program α ω σ) (s : Simulator α) (w : ω) :
    (p.bind k).moments handle within s w = p.moments handle within s w ++
      match p.exec handle s w with
      | .ok (.ok r, s, w) => (k r).moments handle within s w
      | _ => [] := by
  induction p generalizing s w with
  | done | fail | fault => rfl
  | ask q next ih =>
    simp only [Program.bind, moments, exec]
    cases q.answer s with
    | ok a => exact ih a s w
    | error f => rfl
  | call c next ih =>
    simp only [Program.bind, moments, exec]
    cases c.perform s with
    | ok a => exact congrArg (_ :: ·) (ih a.1 a.2 w)
    | error f => rfl
  | drive d next ih =>
    simp only [Program.bind, moments, exec, List.append_assoc]
    cases handle d s w with
    | ok a => exact congrArg (_ ++ _ :: ·) (ih a.1 a.2.1 a.2.2)
    | error f => simp
  | look next ih => exact ih w s w
  | change g next ih => exact ih s (g w)

namespace Simulator

/-- The moments of an action. -/
def actionMoments (meaning : Meaning α ω) (action : Action α) (s : Simulator α) (w : ω) : List (Moment α) :=
  match action with
  | .stop => [⟨.called .stop (), s.stop⟩]
  | .perform a => (meaning a).moments Handler.refuse (fun _ _ _ => []) s w

/-- The moments of executing the next event. -/
def nextMoments (meaning : Meaning α ω) (s : Simulator α) (w : ω) : List (Moment α) :=
  match s.nextEvent with
  | (none, s) => [⟨.idled, s⟩]
  | (some r, s) =>
    match s.advance r with
    | .ok s => ⟨.began r, s⟩ :: actionMoments meaning r.action s w
    | .error _ => []

/-- The moments of executing events until something ends the run. -/
def loopMoments (meaning : Meaning α ω) : Nat → Simulator α → ω → List (Moment α)
  | 0, _, _ => []
  | fuel + 1, s, w =>
    if s.stopRequested ∨ s.limitReached then []
    else
      nextMoments meaning s w ++
        match processNext meaning s w with
        | .ok (.ok true, s, w) => loopMoments meaning fuel s w
        | _ => []

/-- The moments of arming the configured stop time. -/
def armMoments (s : Simulator α) : List (Moment α) :=
  if s.stopTimeArmed then []
  else
    let s := { s with stopTimeArmed := true }
    ⟨.switched, s⟩ ::
      match s.config.stopTime with
      | none => []
      | some time =>
        if time < s.now then []
        else
          match (Call.stopAt time).perform s with
          | .ok (a, s) => [⟨.called (.stopAt time) a, s⟩]
          | .error _ => []

/-- The moments of a run. -/
def runMoments (meaning : Meaning α ω) (fuel : Nat) (s : Simulator α) (w : ω) : List (Moment α) :=
  if s.running then []
  else
    armMoments s ++
      match s.armStopTime with
      | .ok (.ok passed, s) =>
        let s := { s with running := true, stopRequested := passed }
        ⟨.switched, s⟩ :: loopMoments meaning fuel s w
      | _ => []

/-- The moments of a single step. -/
def stepMoments (meaning : Meaning α ω) (s : Simulator α) (w : ω) : List (Moment α) :=
  if s.running then []
  else
    let s := { s with running := true }
    ⟨.switched, s⟩ :: nextMoments meaning s w

/-- The moments of executing destroy events. -/
def destroyLoopMoments (meaning : Meaning α ω) : Nat → Simulator α → ω → List (Moment α)
  | 0, _, _ => []
  | fuel + 1, s, w =>
    match s.destroyEvents with
    | [] => []
    | e :: rest =>
      let s := s.beginDestroy rest
      ⟨.tornDown e, s⟩ :: actionMoments meaning (.perform e.action) s w ++
        match perform meaning (.perform e.action) s w with
        | .ok (.ok (), s, w) => destroyLoopMoments meaning fuel s w
        | _ => []

/-- The moments of a teardown. -/
def destroyMoments (meaning : Meaning α ω) (fuel : Nat) (s : Simulator α) (w : ω) : List (Moment α) :=
  if s.running then []
  else
    let s := { s with running := true }
    ⟨.switched, s⟩ :: destroyLoopMoments meaning fuel s w ++
      match destroyLoop meaning fuel s w with
      | .ok (_, s, _) => [⟨.cleared, { s with running := false }.clear.2⟩]
      | .error _ => []

/-- The moments of a request that drives the simulator. -/
def within (meaning : Meaning α ω) (fuel : Nat) : Within α ω
  | .run, s, w => s.runMoments meaning fuel w
  | .step, s, w => s.stepMoments meaning w
  | .destroy, s, w => s.destroyMoments meaning fuel w

end Simulator

/-- Everything that happens to a simulator in the course of a program that drives it. -/
def history (meaning : Meaning α ω) (fuel : Nat) (p : Program α ω ρ) (s : Simulator α) (w : ω) : List (Moment α) :=
  ⟨.switched, s⟩ :: p.moments (handler meaning fuel) (within meaning fuel) s w

/-! ## Histories are made of steps -/

/-- The moments of requests that drive the simulator lead to the simulator that answers, up to switches. -/
def Answers (handle : Handler α ω) (within : Within α ω) : Prop :=
  ∀ d s w, ∃ t, Path s (within d s w) t ∧ ∀ x, handle d s w = .ok x → t.Step ⟨.switched, x.2.1⟩

theorem step_switched_self (s : Simulator α) : s.Step ⟨.switched, s⟩ :=
  .switched s.running s.stopRequested s.stopTimeArmed s.stopReason

/-- Requests from actions to drive the simulator are refused, and nothing happens to it. -/
theorem answers_refuse : Answers (Handler.refuse : Handler α ω) (fun _ _ _ => []) := by
  intro d s w
  refine ⟨s, .nil s, ?_⟩
  intro x hx
  cases hx
  exact step_switched_self s

/-- By induction on the program: each of its requests adds the moments that it takes. -/
theorem leads_moments {handle : Handler α ω} {within : Within α ω} (ha : Answers handle within) (p : Program α ω ρ)
    (s : Simulator α) (w : ω) : Leads s (p.moments handle within s w) (p.exec handle s w) := by
  induction p generalizing s w with
  | done r => exact (Path.nil s).leads_ok _ w
  | fail e => exact (Path.nil s).leads_ok _ w
  | fault f => exact (Path.nil s).leads_error f
  | ask q next ih =>
    simp only [Program.moments, Program.exec]
    cases q.answer s with
    | ok a => exact ih a s w
    | error f => exact (Path.nil s).leads_error f
  | call c next ih =>
    simp only [Program.moments, Program.exec]
    cases hc : c.perform s with
    | ok a => exact (Step.called hc).cons_leads (ih a.1 a.2 w)
    | error f => exact (Path.nil s).leads_error f
  | drive d next ih =>
    obtain ⟨t, hp, ht⟩ := ha d s w
    simp only [Program.moments, Program.exec]
    cases hd : handle d s w with
    | ok a => exact hp.append_leads ((ht a hd).cons_leads (ih a.1 a.2.1 a.2.2))
    | error f => exact hp.append_leads ((Path.nil t).leads_error f)
  | look next ih => exact ih w s w
  | change g next ih => exact ih s (g w)

namespace Simulator

variable (meaning : Meaning α ω) (s : Simulator α) (w : ω)

/-- An action is either the one that stops the run or a program. -/
theorem leads_action (action : Action α) :
    Leads s (actionMoments meaning action s w) (perform meaning action s w) := by
  cases action with
  | stop => exact (Path.single (.called rfl)).leads_ok _ w
  | perform a => exact leads_moments answers_refuse (meaning a) s w

/-- The three ways to execute the next event. -/
theorem processNext_of_none {s s₁ : Simulator α} (h : s.nextEvent = (none, s₁)) :
    processNext meaning s w = .ok (.ok false, s₁, w) := by
  simp only [processNext, h]

theorem processNext_of_error {s s₁ : Simulator α} {r : EventRecord (Action α)} {f : Fault}
    (h : s.nextEvent = (some r, s₁)) (h' : s₁.advance r = .error f) : processNext meaning s w = .error f := by
  simp only [processNext, h, h']
  rfl

theorem processNext_of_some {s s₁ s₂ : Simulator α} {r : EventRecord (Action α)} (h : s.nextEvent = (some r, s₁))
    (h' : s₁.advance r = .ok s₂) :
    processNext meaning s w = (perform meaning r.action s₂ w).map fun x => (x.1.map fun _ => true, x.2) := by
  simp only [processNext, h, h', bind, Except.bind]
  cases perform meaning r.action s₂ w <;> rfl

theorem nextMoments_of_some {s s₁ s₂ : Simulator α} {r : EventRecord (Action α)} (h : s.nextEvent = (some r, s₁))
    (h' : s₁.advance r = .ok s₂) :
    nextMoments meaning s w = ⟨.began r, s₂⟩ :: actionMoments meaning r.action s₂ w := by
  simp only [nextMoments, h, h']

/-- An event begins and its action follows, or there is none and nothing does. -/
theorem leads_next : Leads s (nextMoments meaning s w) (processNext meaning s w) := by
  obtain ⟨⟨_ | r, s₁⟩, h⟩ : ∃ x, s.nextEvent = x := ⟨_, rfl⟩
  · simp only [nextMoments, h, processNext_of_none meaning w h]
    exact (Path.single (.idled h)).leads_ok _ w
  · cases h' : s₁.advance r with
    | error f =>
      simp only [nextMoments, h, h', processNext_of_error meaning w h h']
      exact (Path.nil s).leads_error f
    | ok s₂ =>
      simp only [nextMoments, h, h', processNext_of_some meaning w h h']
      exact (Step.began h h').cons_leads ((leads_action meaning s₂ w r.action).map _ rfl)

/-- By induction on the fuel, one event at a time. -/
theorem leads_loop (fuel : Nat) (s : Simulator α) (w : ω) :
    Leads s (loopMoments meaning fuel s w) (runLoop meaning fuel s w) := by
  induction fuel generalizing s w with
  | zero => exact (Path.nil s).leads_error _
  | succ fuel ih =>
    rw [loopMoments, runLoop]
    by_cases hs : s.stopRequested
    · simp only [hs, true_or, if_true]
      exact (Path.nil s).leads_ok _ w
    by_cases hl : s.limitReached
    · simp only [hs, hl, or_true, if_true]
      exact (Path.nil s).leads_ok _ w
    simp only [hs, hl]
    have hn := leads_next meaning s w
    cases hx : processNext meaning s w with
    | error f =>
      obtain ⟨t, hp, _⟩ := hn
      exact hp.append_leads ((Path.nil t).leads_error f)
    | ok x =>
      obtain ⟨_ | (_ | _), t, w'⟩ := x
      · exact (hn.path hx).append_leads ((Path.nil t).leads_ok _ w')
      · exact (hn.path hx).append_leads ((Path.nil t).leads_ok _ w')
      · exact (hn.path hx).append_leads (ih t w')

/-- By induction on the fuel, one destroy event at a time. -/
theorem leads_destroyLoop (fuel : Nat) (s : Simulator α) (w : ω) :
    Leads s (destroyLoopMoments meaning fuel s w) (destroyLoop meaning fuel s w) := by
  induction fuel generalizing s w with
  | zero => exact (Path.nil s).leads_error _
  | succ fuel ih =>
    rw [destroyLoopMoments, destroyLoop]
    cases he : s.destroyEvents with
    | nil => exact (Path.nil s).leads_ok _ w
    | cons e rest =>
      have hn := leads_action meaning (s.beginDestroy rest) w (.perform e.action)
      simp only [List.cons_append]
      refine (Step.tornDown he).cons_leads ?_
      rw [show ({ s with
          destroyEvents := rest
          metrics := { s.metrics with executed := s.metrics.executed + 1 } } : Simulator α) = s.beginDestroy rest from rfl]
      cases hx : perform meaning (.perform e.action) (s.beginDestroy rest) w with
      | error f =>
        obtain ⟨t, hp, _⟩ := hn
        exact hp.append_leads ((Path.nil t).leads_error f)
      | ok x =>
        obtain ⟨_ | _, t, w'⟩ := x
        · exact (hn.path hx).append_leads ((Path.nil t).leads_ok _ w')
        · exact (hn.path hx).append_leads (ih t w')

/-- The moments of arming the stop time lead to the simulator that is armed. -/
theorem path_arm (s : Simulator α) :
    ∃ t, Path s (armMoments s) t ∧ ∀ x, s.armStopTime = .ok x → x.2 = t := by
  unfold armMoments armStopTime
  split
  case isTrue h => exact ⟨s, .nil s, by rintro x ⟨⟩; rfl⟩
  case isFalse h =>
    have hs : s.Step ⟨.switched, { s with stopTimeArmed := true }⟩ := .switched s.running s.stopRequested true s.stopReason
    dsimp only
    cases s.config.stopTime with
    | none => exact ⟨_, .single hs, by rintro x ⟨⟩; rfl⟩
    | some time =>
      dsimp only
      by_cases ht : time < s.now
      · simp only [ht, if_true]
        exact ⟨_, .single hs, by rintro x ⟨⟩; rfl⟩
      simp only [ht, if_false]
      simp only [Call.perform]
      cases hc : ({ s with stopTimeArmed := true } : Simulator α).scheduleAt time .stop with
      | error f => exact ⟨_, .single hs, by rintro x ⟨⟩⟩
      | ok a =>
        have hp : (Call.stopAt time).perform { s with stopTimeArmed := true } =
            .ok (Call.keep { s with stopTimeArmed := true } a) := by
          simp only [Call.perform, hc]
          rfl
        refine ⟨_, .cons hs (.single (.called hp)), ?_⟩
        cases a <;> (rintro x ⟨⟩; rfl)

/-- A run arms the stop time and executes its loop between two changes of the flags, the last of which comes with its
answer. -/
theorem path_run (fuel : Nat) (s : Simulator α) (w : ω) :
    ∃ t, Path s (runMoments meaning fuel s w) t ∧ ∀ x, s.run meaning fuel w = .ok x → t.Step ⟨.switched, x.2.1⟩ := by
  unfold run runMoments
  by_cases hr : s.running
  · simp only [hr, if_true]
    exact ⟨s, .nil s, by rintro x ⟨⟩; exact step_switched_self s⟩
  simp only [hr]
  obtain ⟨t, hp, ht⟩ := path_arm s
  cases ha : s.armStopTime with
  | error f => exact ⟨t, by simpa using hp, by rintro x ⟨⟩⟩
  | ok a =>
    obtain rfl := ht a ha
    obtain ⟨e | passed, s₁⟩ := a
    · exact ⟨s₁, by simpa using hp, by rintro x ⟨⟩; exact step_switched_self s₁⟩
    have hs : s₁.Step ⟨.switched, { s₁ with running := true, stopRequested := passed }⟩ :=
      .switched true passed s₁.stopTimeArmed s₁.stopReason
    obtain ⟨u, hl, hu⟩ := leads_loop meaning fuel { s₁ with running := true, stopRequested := passed } w
    refine ⟨u, hp.append (.cons hs hl), ?_⟩
    intro x hx
    simp only [bind, Except.bind] at hx
    cases hy : runLoop meaning fuel { s₁ with running := true, stopRequested := passed } w with
    | error f => rw [hy] at hx; cases hx
    | ok y =>
      rw [hy] at hx
      obtain rfl := hu y hy
      obtain ⟨_ | reason, s₂, w'⟩ := y
      · cases hx; exact .switched false s₂.stopRequested s₂.stopTimeArmed s₂.stopReason
      · cases hx; exact .switched false s₂.stopRequested s₂.stopTimeArmed (some reason)

theorem path_step :
    ∃ t, Path s (stepMoments meaning s w) t ∧ ∀ x, s.step meaning w = .ok x → t.Step ⟨.switched, x.2.1⟩ := by
  unfold step stepMoments
  by_cases hr : s.running
  · simp only [hr, if_true]
    exact ⟨s, .nil s, by rintro x ⟨⟩; exact step_switched_self s⟩
  simp only [hr]
  have hs : s.Step ⟨.switched, { s with running := true }⟩ := .switched true s.stopRequested s.stopTimeArmed s.stopReason
  obtain ⟨u, hn, hu⟩ := leads_next meaning { s with running := true } w
  refine ⟨u, .cons hs hn, ?_⟩
  intro x hx
  simp only [bind, Except.bind] at hx
  cases hy : processNext meaning { s with running := true } w with
  | error f => rw [hy] at hx; cases hx
  | ok y =>
    rw [hy] at hx
    obtain rfl := hu y hy
    obtain ⟨_, s₂, w'⟩ := y
    cases hx
    exact .switched false s₂.stopRequested s₂.stopTimeArmed s₂.stopReason

theorem path_destroy (fuel : Nat) (s : Simulator α) (w : ω) :
    ∃ t, Path s (destroyMoments meaning fuel s w) t ∧
      ∀ x, s.destroy meaning fuel w = .ok x → t.Step ⟨.switched, x.2.1⟩ := by
  unfold destroy destroyMoments
  by_cases hr : s.running
  · simp only [hr, if_true]
    exact ⟨s, .nil s, by rintro x ⟨⟩; exact step_switched_self s⟩
  simp only [hr]
  have hs : s.Step ⟨.switched, { s with running := true }⟩ := .switched true s.stopRequested s.stopTimeArmed s.stopReason
  obtain ⟨u, hn, hu⟩ := leads_destroyLoop meaning fuel { s with running := true } w
  cases hy : destroyLoop meaning fuel { s with running := true } w with
  | error f => exact ⟨u, by simpa using Path.cons hs hn, by rintro x ⟨⟩⟩
  | ok y =>
    obtain rfl := hu y hy
    obtain ⟨_, s₂, w'⟩ := y
    refine ⟨_, (Path.cons hs hn).append (.single .cleared), ?_⟩
    rintro x ⟨⟩
    exact step_switched_self _

/-- Each of the requests that drive the simulator takes the moments that are listed for it. -/
theorem answers_within (fuel : Nat) : Answers (handler meaning fuel) (within meaning fuel)
  | .run, s, w => path_run meaning fuel s w
  | .step, s, w => path_step meaning s w
  | .destroy, s, w => path_destroy meaning fuel s w

end Simulator

/-- Every history goes from moment to moment by single steps. -/
theorem path_history (meaning : Meaning α ω) (fuel : Nat) (p : Program α ω ρ) (s : Simulator α) (w : ω) :
    ∃ t, Path s (history meaning fuel p s w) t ∧ ∀ x, p.exec (handler meaning fuel) s w = .ok x → x.2.1 = t :=
  (step_switched_self s).cons_leads (leads_moments (answers_within meaning fuel) p s w)

end Moments

end SimKernel
