import SimKernel.Proofs.Simulator.Fate
import SimKernel.Timer

/-!
# What requests to a timer do

As long as the name that a timer keeps is that of an event of its simulator (`Named`), its state can be read off the event
(`Named.shows`), and every request to it is answered, wherever it is made. A request has one of three effects (`Effect`): it
leaves the timer's event alone, it cancels the event, or it cancels the event and schedules another one
(`Named.exists_effect`).
-/

namespace SimKernel

variable {α : Type}

/-- The simulator after the event with the name was cancelled, if there is a name. -/
def Simulator.withdraw (s : Simulator α) (id? : Option EventId) : Simulator α :=
  (id?.bind fun id => (s.cancel id).toOption).elim s Prod.snd

namespace Timer

open Program

/-- What may be asked of a timer. -/
inductive Request (α : Type) where
  | setFunction (a : α)
  | setDelay (delay : Time)
  | arm
  | armAfter (delay : Time)
  | cancel
  | suspend
  | resume

namespace Request

/-- The program that answers a request. -/
def program {ω : Type} : Request α → Timer α → Program α ω (Except SimError Unit × Timer α)
  | setFunction a, t => return (.ok (), { t with callback := some a })
  | setDelay delay, t => return (.ok (), { t with delay })
  | arm, t => t.arm
  | armAfter delay, t => t.armAfter delay
  | cancel, t => return (.ok (), ← t.cancel)
  | suspend, t => t.suspend
  | resume, t => t.resume

/-- The delay for which the request arms the timer. -/
def delay? : Request α → Timer α → Option Time
  | arm, t => some t.delay
  | armAfter delay, _ => some delay
  | resume, t => t.remaining
  | setFunction _, _ | setDelay _, _ | cancel, _ | suspend, _ => none

/-- Unless it is refused, the request arms the timer. -/
def arms : Request α → Bool
  | arm | armAfter _ | resume => true
  | setFunction _ | setDelay _ | cancel | suspend => false

/-- Unless it is refused, the request takes away what was armed before. -/
def disarms : Request α → Bool
  | arm | armAfter _ | resume | cancel | suspend => true
  | setFunction _ | setDelay _ => false

theorem arms_of_delay? {q : Request α} {t : Timer α} {delay : Time} (h : q.delay? t = some delay) : q.arms = true := by
  cases q with
  | arm | armAfter | resume => rfl
  | setFunction | setDelay | cancel | suspend => cases h

/-- Arming cancels what was armed before. -/
theorem disarms_of_arms {q : Request α} (h : q.arms = true) : q.disarms = true := by
  cases q with
  | arm | armAfter | resume => rfl
  | setFunction | setDelay | cancel | suspend => cases h

end Request

/-- A simulator and a timer that runs on it. -/
structure System (α : Type) where
  sim : Simulator α
  timer : Timer α

namespace System

/-- What the timer is doing, as the simulator's slots have it. -/
def state (x : System α) : TimerState :=
  match x.timer.remaining, x.timer.event with
  | some _, _ => .suspended
  | none, some id => if (x.sim.slots.get? id.slot id.uid).isSome then .running else .expired
  | none, none => .expired

/-- Wherever it is asked for, this is the state of the timer. -/
def Shows (x : System α) (st : TimerState) : Prop :=
  ∀ {ω : Type} (handle : Handler α ω) (w : ω), x.timer.state.exec handle x.sim w = .ok (.ok st, x.sim, w)

/-- Wherever it is asked for, this is the time until the timer fires, or what is left of the delay of a suspended one. -/
def ShowsLeft (x : System α) (d : Time) : Prop :=
  ∀ {ω : Type} (handle : Handler α ω) (w : ω), x.timer.delayLeft.exec handle x.sim w = .ok (.ok d, x.sim, w)

/-- Wherever it is made, the request is answered and leads to the other system. -/
def Answers (x : System α) (q : Request α) (result : Except SimError Unit) (y : System α) : Prop :=
  ∀ {ω : Type} (handle : Handler α ω) (w : ω),
    (q.program x.timer).exec handle x.sim w = .ok (.ok (result, y.timer), y.sim, w)

/-- The simulator after the timer's event was cancelled. -/
def disarmed (x : System α) : Simulator α := x.sim.withdraw x.timer.event

/-- The system in which the timer's event was cancelled and another one was scheduled. -/
def armed (x : System α) (a : α) (time : Time) : System α :=
  ⟨(x.disarmed.insert time x.disarmed.context (.perform a)).2,
    { x.timer with event := some (x.disarmed.insert time x.disarmed.context (.perform a)).1, remaining := none }⟩

end System

/-- The name that the timer keeps is that of an event of its simulator, and of none for the teardown. -/
def Named (x : System α) : Prop :=
  ∀ id, x.timer.event = some id → x.sim.Issued id ∧ id.slot ≠ Simulator.destroySlot

/-- What a request may do. -/
inductive Effect (x : System α) : Request α → Except SimError Unit → System α → Prop
  | untouched {q : Request α} {result : Except SimError Unit} {t : Timer α}
      (hq : q.disarms = true → result ≠ .ok ()) (hevent : t.event = x.timer.event)
      (hremaining : t.remaining = x.timer.remaining) : Effect x q result ⟨x.sim, t⟩
  | disarmed {q : Request α} {result : Except SimError Unit} (hq : q.arms = true → result ≠ .ok ())
      (remaining : Option Time) : Effect x q result ⟨x.disarmed, { x.timer with event := none, remaining }⟩
  | armed {q : Request α} {a : α} {delay time : Time} (hq : q.delay? x.timer = some delay)
      (ha : x.timer.callback = some a)
      (ht : time.femtos = x.sim.now.femtos + (x.sim.config.resolution.quantize delay).femtos)
      (hc : (Call.schedule delay a).perform x.disarmed =
        .ok (.ok (x.disarmed.insert time x.disarmed.context (.perform a)).1, (x.armed a time).sim)) :
      Effect x q (.ok ()) (x.armed a time)

/-! ## Cancelling -/

section Cancelling

variable {s s' : Simulator α} {id : EventId} {x : System α}

theorem withdraw_of_cancel {answer : Option (Action α)} (h : s.cancel id = .ok (answer, s')) :
    s.withdraw (some id) = s' := by
  simp only [Simulator.withdraw, Option.bind_some, h]
  rfl

/-- Nothing but events and counters changes, and no event is added. -/
structure Fewer (s s' : Simulator α) : Prop where
  sound : s'.Sound
  owner : s'.owner = s.owner
  config : s'.config = s.config
  now : s'.now = s.now
  nextUid : s'.nextUid = s.nextUid
  size : s'.slots.slots.size = s.slots.slots.size

theorem fewer_self (hs : s.Sound) : Fewer s s :=
  ⟨hs, rfl, rfl, rfl, rfl, rfl⟩

/-- Cancelling leaves all other events where they are. -/
theorem fewer_of_cancel (hs : s.Sound) {answer : Option (Action α)} (h : s.cancel id = .ok (answer, s')) :
    Fewer s s' := by
  have hsound : s'.Sound := hs.effect (Simulator.effect_of_cancel h)
  rcases Simulator.cancel_eq_ok h with ⟨-, rfl, -⟩ | ⟨e, -, -, -, -, rfl⟩ | ⟨r, slots, -, ht, -, rfl⟩
  · exact fewer_self hs
  · exact ⟨hsound, rfl, rfl, rfl, rfl, rfl⟩
  · obtain ⟨-, -, -, -, -, hsame⟩ := EventSlots.take?_eq_some hs.slots ht
    exact ⟨hsound, rfl, rfl, rfl, rfl, hsame⟩

theorem Named.fewer (h : Named x) (hs : x.sim.Sound) : Fewer x.sim x.disarmed := by
  unfold System.disarmed
  cases he : x.timer.event with
  | none => exact fewer_self hs
  | some id =>
    obtain ⟨answer, s', hc⟩ := (h id he).1.cancel_eq
    rw [withdraw_of_cancel hc]
    exact fewer_of_cancel hs hc

/-- The timer forgets its event, and the simulator has one fewer if that was pending. -/
theorem Named.exec_cancel (h : Named x) {ω : Type} (handle : Handler α ω) (w : ω) :
    x.timer.cancel.exec handle x.sim w =
      .ok (.ok { x.timer with event := none, remaining := none }, x.disarmed, w) := by
  unfold Timer.cancel System.disarmed
  cases he : x.timer.event with
  | none => rfl
  | some id =>
    obtain ⟨answer, s', hc⟩ := (h id he).1.cancel_eq
    rw [withdraw_of_cancel hc]
    simp only [exec_bind, request, exec, Call.perform, hc]
    rfl

end Cancelling

/-! ## Every request -/

section Requests

variable {x : System α} {q : Request α}

/-- A timer always shows one of its states. -/
theorem Named.shows (h : Named x) : x.Shows x.state := by
  intro ω handle w
  unfold System.state Timer.state
  cases hr : x.timer.remaining with
  | some d => rfl
  | none =>
    cases he : x.timer.event with
    | none => rfl
    | some id =>
      obtain ⟨hid, hslot⟩ := h id he
      simp only [exec_bind, query, exec, Query.answer, hid.isPending_eq hslot]
      rfl

theorem Named.exists_delayLeft (h : Named x) (hs : x.sim.Sound) : ∃ d, x.ShowsLeft d := by
  unfold System.ShowsLeft Timer.delayLeft
  cases hr : x.timer.remaining with
  | some d => exact ⟨d, fun _ _ => rfl⟩
  | none =>
    cases he : x.timer.event with
    | none => exact ⟨Time.zero, fun _ _ => rfl⟩
    | some id =>
      obtain ⟨d, hd⟩ := (h id he).1.exists_delayLeft_eq hs
      exact ⟨d, fun handle w => by simp only [query, exec, Query.answer, hd]⟩

/-- If the simulator schedules the event, the timer is armed. -/
theorem Named.answers_armed (h : Named x) {a : α} (ha : x.timer.callback = some a) {delay time : Time}
    (hp : ∀ ω : Type, (q.program x.timer : Program α ω _) = x.timer.armAfter delay)
    (hc : (Call.schedule delay a).perform x.disarmed =
      .ok (.ok (x.disarmed.insert time x.disarmed.context (.perform a)).1, (x.armed a time).sim)) :
    x.Answers q (.ok ()) (x.armed a time) := by
  intro ω handle w
  simp only [hp, armAfter, ha, exec_bind, h.exec_cancel, request, exec, hc]
  rw [← ha]
  rfl

/-- Without a callback, arming is refused at once. Otherwise the timer's event is cancelled, and another one is scheduled
unless the simulator refuses the delay. -/
theorem Named.exists_armed (h : Named x) (hs : x.sim.Sound) {delay : Time} (hq : q.delay? x.timer = some delay)
    (hp : ∀ ω : Type, (q.program x.timer : Program α ω _) = x.timer.armAfter delay) :
    ∃ result y, Effect x q result y ∧ x.Answers q result y := by
  cases ha : x.timer.callback with
  | none =>
    refine ⟨.error (.invalidState "timer has no callback"), x, .untouched (fun _ => nofun) rfl rfl, fun handle w => ?_⟩
    simp only [hp, armAfter, ha]
    rfl
  | some a =>
    have hfewer := h.fewer hs
    rcases x.disarmed.scheduleIn_cases x.disarmed.context delay (.perform a) with ⟨e, he⟩ | ⟨time, ht, he⟩
    · have hne : (.error e : Except SimError Unit) ≠ .ok () := nofun
      refine ⟨.error e, _, .disarmed (fun _ => hne) none, fun handle w => ?_⟩
      simp only [hp, armAfter, ha, exec_bind, h.exec_cancel, request, exec, Call.perform, he]
      rw [← ha]
      rfl
    · rw [hfewer.now, hfewer.config] at ht
      have hc : (Call.schedule delay a).perform x.disarmed =
          .ok (.ok (x.disarmed.insert time x.disarmed.context (.perform a)).1, (x.armed a time).sim) := by
        simp only [Call.perform, he]
        rfl
      exact ⟨.ok (), _, .armed hq ha ht hc, h.answers_armed ha hp hc⟩

/-- A running timer is suspended with the time that is left. -/
theorem Named.answers_suspend (h : Named x) (hx : x.state = .running) {d : Time} (hd : x.ShowsLeft d) :
    x.Answers .suspend (.ok ()) ⟨x.disarmed, { x.timer with event := none, remaining := some d }⟩ := by
  intro ω handle w
  simp only [Request.program, suspend, exec_bind, h.shows handle w, hx, if_true, hd handle w, h.exec_cancel]
  rfl

/-- Any other timer is not suspended. -/
theorem Named.refuses_suspend (h : Named x) (hx : x.state ≠ .running) :
    x.Answers .suspend (.error (.invalidState "cannot suspend a timer that is not running")) x := by
  intro ω handle w
  simp only [Request.program, suspend, exec_bind, h.shows handle w, hx, if_false]
  rfl

/-- Suspending has an answer in every state, and an effect that goes with it. -/
theorem Named.exists_suspended (h : Named x) (hs : x.sim.Sound) :
    ∃ result y, Effect x .suspend result y ∧ x.Answers .suspend result y := by
  by_cases hrunning : x.state = .running
  · obtain ⟨d, hd⟩ := h.exists_delayLeft hs
    exact ⟨_, _, .disarmed (q := .suspend) nofun (some d), h.answers_suspend hrunning hd⟩
  · exact ⟨.error _, x, .untouched (fun _ => nofun) rfl rfl, h.refuses_suspend hrunning⟩

/-- A timer that is not suspended is not resumed. -/
theorem refuses_resume (hr : x.timer.remaining = none) :
    x.Answers .resume (.error (.invalidState "cannot resume a timer that is not suspended")) x := by
  intro ω handle w
  simp only [Request.program, resume, hr]
  rfl

/-- Every request is answered, and has an effect. -/
theorem Named.exists_effect (h : Named x) (hs : x.sim.Sound) (q : Request α) :
    ∃ result y, Effect x q result y ∧ x.Answers q result y := by
  cases q with
  | setFunction a =>
    exact ⟨.ok (), ⟨x.sim, { x.timer with callback := some a }⟩, .untouched nofun rfl rfl, fun _ _ => rfl⟩
  | setDelay delay => exact ⟨.ok (), ⟨x.sim, { x.timer with delay }⟩, .untouched nofun rfl rfl, fun _ _ => rfl⟩
  | arm => exact h.exists_armed hs rfl fun _ => rfl
  | armAfter delay => exact h.exists_armed hs rfl fun _ => rfl
  | cancel =>
    refine ⟨.ok (), _, .disarmed (q := .cancel) nofun none, fun handle w => ?_⟩
    simp only [Request.program, exec_bind, h.exec_cancel]
    rfl
  | suspend => exact h.exists_suspended hs
  | resume =>
    cases hr : x.timer.remaining with
    | some remaining =>
      refine h.exists_armed hs (q := .resume) hr fun ω => ?_
      simp only [Request.program, resume, hr]
    | none => exact ⟨.error _, x, .untouched (fun _ => nofun) rfl rfl, refuses_resume hr⟩

end Requests

end Timer

end SimKernel
