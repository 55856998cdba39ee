import SimKernel.Proofs.Simulator.Execution
import SimKernel.Proofs.Simulator.Order

/-!
# Ways to drive a simulator

Whether events are executed by runs or by single steps, and wherever runs are cut short, makes no difference to what is
executed. `course` executes one event after the other; what any sequence of runs and steps executes is a beginning of it
(`exists_alike_course`), up to the flags that tell how the simulator is driven (`bare`). So two sequences agree on every
event that both reach (`turns_agree`).

Actions can see the flags in two answers only, those that tell whether the simulation is finished and what the report
is. Actions that ask for neither (`Program.Blind`) do the same whatever the flags are (`exec_bare`).
-/

namespace SimKernel

variable {α ω ρ : Type}

/-- The answer does not depend on how the simulator is driven. -/
def Query.Blind : Query → Prop
  | isFinished | report => False
  | _ => True

/-- The program asks nothing whose answer depends on how the simulator is driven. -/
def Program.Blind : Program α ω ρ → Prop
  | done _ | fail _ | fault _ => True
  | ask q next => q.Blind ∧ ∀ a, (next a).Blind
  | call _ next => ∀ a, (next a).Blind
  | drive _ next => ∀ a, (next a).Blind
  | look next => ∀ w, (next w).Blind
  | change _ next => next.Blind

/-- Requests that drive the simulator, one after the other, whatever the answers are. -/
def Program.drives : List Drive → Program α ω Unit
  | [] => done ()
  | d :: ds => drive d fun _ => drives ds

/-- An event that was executed, and simulator and model when its action had ended; nothing if that was in a fault. -/
structure Turn (α ω : Type) where
  event : EventRecord (Action α)
  after : Option (Simulator α × ω)

namespace Simulator

/-- The simulator without the flags that tell how it is driven. -/
def bare (s : Simulator α) : Simulator α :=
  { s with running := false, stopRequested := false, stopTimeArmed := false, stopReason := none }

/-- The outcome without the flags. -/
def stripped (o : Except Fault (Outcome α ω ρ)) : Except Fault (Outcome α ω ρ) :=
  o.map fun x => (x.1, x.2.1.bare, x.2.2)

/-- The event executed next. -/
def nextTurn (meaning : Meaning α ω) (s : Simulator α) (w : ω) : Option (Turn α ω) :=
  match s.nextEvent with
  | (none, _) => none
  | (some r, s) =>
    match s.advance r with
    | .ok s => some ⟨r, (perform meaning r.action s w).toOption.map Prod.snd⟩
    | .error _ => none

/-- The first events when they are executed one after the other. -/
def course (meaning : Meaning α ω) : Nat → Simulator α → ω → List (Turn α ω)
  | 0, _, _ => []
  | n + 1, s, w =>
    match nextTurn meaning s w with
    | none => []
    | some t => t :: t.after.elim [] fun x => course meaning n x.1 x.2

/-- The events executed by a run's loop. -/
def loopTurns (meaning : Meaning α ω) : Nat → Simulator α → ω → List (Turn α ω)
  | 0, _, _ => []
  | fuel + 1, s, w =>
    if s.stopRequested ∨ s.limitReached then []
    else
      (nextTurn meaning s w).toList ++
        match processNext meaning s w with
        | .ok (.ok true, s, w) => loopTurns meaning fuel s w
        | _ => []

/-- The events executed by a request that drives the simulator; destroy events are not among them. -/
def driveTurns (meaning : Meaning α ω) (fuel : Nat) (d : Drive) (s : Simulator α) (w : ω) : List (Turn α ω) :=
  if s.running then []
  else
    match d with
    | .run =>
      match s.armStopTime with
      | .ok (.ok passed, s) => loopTurns meaning fuel { s with running := true, stopRequested := passed } w
      | _ => []
    | .step => (nextTurn meaning { s with running := true } w).toList
    | .destroy => []

/-- The events executed by a sequence of requests that drive the simulator. -/
def turns (meaning : Meaning α ω) (fuel : Nat) : List Drive → Simulator α → ω → List (Turn α ω)
  | [], _, _ => []
  | d :: ds, s, w =>
    driveTurns meaning fuel d s w ++
      match handler meaning fuel d s w with
      | .ok (_, s, w) => turns meaning fuel ds s w
      | .error _ => []

end Simulator

/-- The turn without the flags. -/
def Turn.bare (t : Turn α ω) : Turn α ω :=
  { t with after := t.after.map fun x => (x.1.bare, x.2) }

namespace Simulator

variable {s s' : Simulator α} {w w' : ω}

/-! ## Flags make no difference -/

theorem nextEvent_of_none (hp : s.queue.pop? = none) : s.nextEvent = (none, s) := by
  rw [nextEvent]
  split
  · rfl
  · rename_i h
    cases hp.symm.trans h

theorem nextEvent_of_some {key : EventKey} {queue : EventQueue} {r : EventRecord (Action α)}
    {slots : EventSlots (Action α)} (hp : s.queue.pop? = some (key, queue))
    (ht : s.slots.take? key.slot key.sequence = some (r, slots)) : s.nextEvent = (some r, s.takeOut queue slots) := by
  rw [nextEvent]
  split
  · rename_i h
    cases hp.symm.trans h
  · rename_i h
    cases hp.symm.trans h
    rw [ht]
    rfl

/-- A key whose event was cancelled is passed over. -/
theorem nextEvent_of_stale {key : EventKey} {queue : EventQueue} (hp : s.queue.pop? = some (key, queue))
    (ht : s.slots.take? key.slot key.sequence = none) : s.nextEvent = (s.passOver queue).nextEvent := by
  rw [nextEvent]
  split
  · rename_i h
    cases hp.symm.trans h
  · rename_i h
    cases hp.symm.trans h
    rw [ht]
    rfl

/-- By induction on the keys that are passed over: the flags have no say in that. -/
theorem nextEvent_bare (s : Simulator α) : s.bare.nextEvent = (s.nextEvent.1, s.nextEvent.2.bare) := by
  fun_induction nextEvent s with
  | case1 s hp => exact nextEvent_of_none (s := s.bare) hp
  | case2 s key queue hp r slots ht => exact nextEvent_of_some (s := s.bare) hp ht
  | case3 s key queue hp ht ih => exact (nextEvent_of_stale (s := s.bare) hp ht).trans ih

/-- When no event was left, none is left afterwards. -/
theorem nextEvent_idle (hn : s.nextEvent = (none, s')) : s'.nextEvent = (none, s') := by
  fun_induction nextEvent s with
  | case1 s hp => cases hn; exact nextEvent_of_none hp
  | case2 s key queue hp r slots ht => cases hn
  | case3 s key queue hp ht ih => exact ih hn

theorem advance_bare (s : Simulator α) (r : EventRecord (Action α)) : s.bare.advance r = (s.advance r).map bare := by
  unfold advance
  by_cases h : r.time < s.now
  · rw [if_pos h, if_pos (show r.time < s.bare.now from h)]
    rfl
  · rw [if_neg h, if_neg (show ¬ r.time < s.bare.now from h)]
    rfl

/-- Only two answers tell anything about the flags. -/
theorem answer_bare (s : Simulator α) {q : Query} (h : q.Blind) : q.answer s.bare = q.answer s := by
  cases q with
  | isFinished | report => exact h.elim
  | now | context | config | rng | isPending | delayLeft | pending | executed => rfl

theorem keep_scheduleIn_bare (s : Simulator α) (context : ContextId) (delay : Time) (action : Action α) :
    (fun x => (x.1, x.2.bare)) (Call.keep s.bare (s.bare.scheduleIn context delay action)) =
      (fun x => (x.1, x.2.bare)) (Call.keep s (s.scheduleIn context delay action)) := by
  by_cases hneg : delay.isNegative
  · simp only [scheduleIn, hneg, if_true]
    rfl
  · cases htime : s.now.checkedAdd (s.config.resolution.quantize delay) <;>
      · simp only [scheduleIn, hneg, bare, htime]
        rfl

theorem keep_scheduleAt_bare (s : Simulator α) (time : Time) (action : Action α) :
    ((s.bare.scheduleAt time action).map (Call.keep s.bare)).map (fun x => (x.1, x.2.bare)) =
      ((s.scheduleAt time action).map (Call.keep s)).map fun x => (x.1, x.2.bare) := by
  unfold scheduleAt
  change (((time.sub s.now >>= _ : Except Fault _)).map _).map _ = _
  cases time.sub s.now with
  | error f => rfl
  | ok delay => exact congrArg Except.ok (keep_scheduleIn_bare s s.context delay action)

theorem cancel_bare (s : Simulator α) (id : EventId) :
    (s.bare.cancel id).map (fun x => (x.1, x.2.bare)) = (s.cancel id).map fun x => (x.1, x.2.bare) := by
  unfold cancel
  change (s.checkIssued id >>= _ : Except Fault _).map _ = _
  cases s.checkIssued id with
  | error f => rfl
  | ok =>
    simp only [bind, Except.bind, pure, Except.pure]
    by_cases hslot : id.slot = destroySlot
    · simp only [hslot, if_true, bare]
      cases s.destroyEvents.find? fun e => e.uid == id.uid <;> rfl
    · simp only [hslot, if_false, bare]
      cases s.slots.take? id.slot id.uid <;> rfl

/-- No request looks at the flags, though `stop` sets one. -/
theorem perform_bare (s : Simulator α) (c : Call α) :
    (c.perform s.bare).map (fun x => (x.1, x.2.bare)) = (c.perform s).map fun x => (x.1, x.2.bare) := by
  cases c with
  | scheduleNow | scheduleDestroy | stop | setRng => rfl
  | schedule | scheduleIn | stopAfter => exact congrArg Except.ok (keep_scheduleIn_bare s _ _ _)
  | scheduleAt | stopAt => exact keep_scheduleAt_bare s _ _
  | cancel id => exact cancel_bare s id

/-- What a program does is the same whatever the flags are. -/
theorem exec_bare {p : Program α ω ρ} (hp : p.Blind) (s : Simulator α) (w : ω) :
    stripped (p.exec Handler.refuse s.bare w) = stripped (p.exec Handler.refuse s w) := by
  induction p generalizing s w with
  | done | fail | fault => rfl
  | ask q next ih =>
    simp only [Program.exec, answer_bare s hp.1]
    cases q.answer s with
    | ok a => exact ih a (hp.2 a) s w
    | error f => rfl
  | call c next ih =>
    have hc := perform_bare s c
    simp only [Program.exec]
    cases h : c.perform s with
    | error f =>
      rw [h] at hc
      cases h' : c.perform s.bare with
      | error f' => rw [h'] at hc; cases hc; rfl
      | ok x => rw [h'] at hc; cases hc
    | ok x =>
      rw [h] at hc
      cases h' : c.perform s.bare with
      | error f' => rw [h'] at hc; cases hc
      | ok y =>
        rw [h'] at hc
        obtain ⟨a, s₁⟩ := x
        obtain ⟨b, s₂⟩ := y
        obtain ⟨rfl, hs⟩ := Prod.mk.inj (Except.ok.inj hc)
        change s₂.bare = s₁.bare at hs
        rw [← ih b (hp b) s₂ w, hs, ih b (hp b) s₁ w]
  | drive d next ih => exact ih _ (hp _) s w
  | look next ih => exact ih w (hp w) s w
  | change g next ih => exact ih hp s (g w)

theorem perform_action_bare {meaning : Meaning α ω} (hm : ∀ a, (meaning a).Blind) (action : Action α) (s : Simulator α)
    (w : ω) : stripped (perform meaning action s.bare w) = stripped (perform meaning action s w) := by
  cases action with
  | stop => rfl
  | perform a => exact exec_bare (hm a) s w

theorem map_stripped (o : Except Fault (Outcome α ω ρ)) :
    ((stripped o).toOption.map Prod.snd) = (o.toOption.map Prod.snd).map fun x => (x.1.bare, x.2) := by
  cases o <;> rfl

/-- The next event is the same whatever the flags are, and so is what its action does. -/
theorem nextTurn_bare {meaning : Meaning α ω} (hm : ∀ a, (meaning a).Blind) (s : Simulator α) (w : ω) :
    (nextTurn meaning s.bare w).map Turn.bare = (nextTurn meaning s w).map Turn.bare := by
  simp only [nextTurn, nextEvent_bare]
  obtain ⟨⟨_ | r, s₁⟩, h⟩ : ∃ x, s.nextEvent = x := ⟨_, rfl⟩
  · simp only [h]
  simp only [h, advance_bare]
  cases s₁.advance r with
  | error f => rfl
  | ok s₂ =>
    simp only [Except.map, Option.map_some, Turn.bare]
    rw [← map_stripped, ← map_stripped, perform_action_bare hm]

/-- The course of events is the same whatever the flags are. -/
theorem course_bare {meaning : Meaning α ω} (hm : ∀ a, (meaning a).Blind) (n : Nat) (s : Simulator α) (w : ω) :
    (course meaning n s.bare w).map Turn.bare = (course meaning n s w).map Turn.bare := by
  induction n generalizing s w with
  | zero => rfl
  | succ n ih =>
    have hn := nextTurn_bare hm s w
    simp only [course]
    cases h : nextTurn meaning s w with
    | none =>
      rw [h, Option.map_none, Option.map_eq_none_iff] at hn
      rw [hn]
    | some t =>
      rw [h, Option.map_some, Option.map_eq_some_iff] at hn
      obtain ⟨t', ht', he⟩ := hn
      rw [ht']
      simp only [List.map_cons, he]
      refine congrArg (t.bare :: ·) ?_
      have ha : t'.after.map (fun x => (x.1.bare, x.2)) = t.after.map fun x => (x.1.bare, x.2) := congrArg Turn.after he
      cases hx : t.after with
      | none =>
        rw [hx, Option.map_none, Option.map_eq_none_iff] at ha
        rw [ha]
      | some x =>
        rw [hx, Option.map_some, Option.map_eq_some_iff] at ha
        obtain ⟨y, hy, hxy⟩ := ha
        obtain ⟨hs, hw⟩ := Prod.mk.inj hxy
        rw [hy]
        change (course meaning n y.1 y.2).map Turn.bare = (course meaning n x.1 x.2).map Turn.bare
        rw [← ih y.1 y.2, hs, hw, ih x.1 x.2]

/-- Simulators that differ in their flags alone have the same course. -/
theorem course_congr {meaning : Meaning α ω} (hm : ∀ a, (meaning a).Blind) (n : Nat) {s s' : Simulator α}
    (h : s.bare = s'.bare) (w : ω) :
    (course meaning n s w).map Turn.bare = (course meaning n s' w).map Turn.bare := by
  rw [← course_bare hm n s w, h, course_bare hm n s' w]

/-- Longer courses begin like shorter ones. -/
theorem getElem?_course (meaning : Meaning α ω) {n k : Nat} (h : n < k) (s : Simulator α) (w : ω) :
    (course meaning k s w)[n]? = (course meaning (n + 1) s w)[n]? := by
  induction n generalizing k s w with
  | zero =>
    cases k with
    | zero => cases h
    | succ k =>
      simp only [course]
      cases nextTurn meaning s w <;> rfl
  | succ n ih =>
    cases k with
    | zero => cases h
    | succ k =>
      rw [course, course]
      cases ht : nextTurn meaning s w with
      | none => rfl
      | some t =>
        simp only [List.getElem?_cons_succ]
        cases t.after with
        | none => rfl
        | some x => exact ih (Nat.lt_of_succ_lt_succ h) x.1 x.2

/-- A course is shorter than asked for when no event is left or an action ends in a fault. -/
theorem length_course_le (meaning : Meaning α ω) (n : Nat) (s : Simulator α) (w : ω) :
    (course meaning n s w).length ≤ n := by
  induction n generalizing s w with
  | zero => exact Nat.le_refl 0
  | succ n ih =>
    simp only [course]
    cases nextTurn meaning s w with
    | none => exact Nat.zero_le _
    | some t =>
      refine Nat.succ_le_succ ?_
      cases t.after with
      | none => exact Nat.zero_le _
      | some x => exact ih x.1 x.2

/-! ## Runs and steps follow the course -/

/-- Executing the next event, for the turn that it is: it ended, it ended in a fault, or there was none. -/
theorem processNext_cases (meaning : Meaning α ω) (s : Simulator α) (w : ω) :
    (nextTurn meaning s w = none ∧ ∃ s₁, processNext meaning s w = .ok (.ok false, s₁, w) ∧ s₁.nextEvent = (none, s₁)) ∨
    (∃ f, processNext meaning s w = .error f ∧ ∀ t, nextTurn meaning s w = some t → t.after = none) ∨
    ∃ r result s₁ w₁, nextTurn meaning s w = some ⟨r, some (s₁, w₁)⟩ ∧
      processNext meaning s w = .ok (result, s₁, w₁) ∧ result ≠ .ok false := by
  obtain ⟨⟨_ | r, s₁⟩, h⟩ : ∃ x, s.nextEvent = x := ⟨_, rfl⟩
  · exact .inl ⟨by simp only [nextTurn, h], s₁, processNext_of_none meaning w h, nextEvent_idle h⟩
  · cases h' : s₁.advance r with
    | error f => exact .inr (.inl ⟨f, processNext_of_error meaning w h h', by simp [nextTurn, h, h']⟩)
    | ok s₂ =>
      have hnext := processNext_of_some meaning w h h'
      cases ho : perform meaning r.action s₂ w with
      | error f =>
        refine .inr (.inl ⟨f, by rw [hnext, ho]; rfl, ?_⟩)
        intro t ht
        simp only [nextTurn, h, h', ho, Option.some.injEq] at ht
        rw [← ht]
        rfl
      | ok x =>
        refine .inr (.inr ⟨r, x.1.map fun _ => true, x.2.1, x.2.2, ?_, by rw [hnext, ho]; rfl, ?_⟩)
        · simp only [nextTurn, h, h', ho]
          rfl
        · cases x.1 with
          | error e => exact fun he => nomatch he
          | ok u => exact fun he => nomatch he

/-- Nothing follows when no event is left. -/
theorem course_idle (meaning : Meaning α ω) (h : s.nextEvent = (none, s)) (n : Nat) (w : ω) :
    course meaning n s w = [] := by
  cases n with
  | zero => rfl
  | succ n => simp only [course, nextTurn, h]

/-- The events of a list are the next ones of the course, and what the outcome leaves is the rest of it. -/
def TakesTurns (meaning : Meaning α ω) (s : Simulator α) (w : ω) (ts : List (Turn α ω)) {σ : Type}
    (o : Except Fault (σ × Simulator α × ω)) : Prop :=
  ∃ k, course meaning k s w = ts ∧
    ∀ x, o = .ok x → ∀ m, course meaning (k + m) s w = ts ++ course meaning m x.2.1 x.2.2

/-- To execute nothing is a beginning of the course. -/
theorem TakesTurns.nil (meaning : Meaning α ω) (s : Simulator α) (w : ω) {σ : Type} (a : σ) :
    TakesTurns meaning s w [] (.ok (a, s, w)) :=
  ⟨0, rfl, by rintro x ⟨⟩ m; rw [Nat.zero_add]; rfl⟩

/-- The next turn comes before the rest. -/
theorem TakesTurns.cons {meaning : Meaning α ω} {t : Turn α ω} {ts : List (Turn α ω)} {σ : Type}
    {o : Except Fault (σ × Simulator α × ω)} (ht : nextTurn meaning s w = some t) (ha : t.after = some (s', w'))
    (h : TakesTurns meaning s' w' ts o) : TakesTurns meaning s w (t :: ts) o := by
  obtain ⟨k, hk, hm⟩ := h
  refine ⟨k + 1, ?_, ?_⟩
  · simp only [course, ht, ha, Option.elim_some, hk]
  · intro x hx m
    rw [Nat.add_right_comm, course, ht]
    simp only [ha, Option.elim_some, hm x hx m]
    rfl

/-- A turn after which there is nothing more. -/
theorem TakesTurns.last {meaning : Meaning α ω} {σ : Type} {f : Fault}
    (h : ∀ t, nextTurn meaning s w = some t → t.after = none) :
    TakesTurns meaning s w (nextTurn meaning s w).toList (.error f : Except Fault (σ × Simulator α × ω)) := by
  refine ⟨1, ?_, by rintro x ⟨⟩⟩
  cases ht : nextTurn meaning s w with
  | none => simp only [course, ht]; rfl
  | some t => simp only [course, ht, h t ht]; rfl

/-- When no event is left, the course is over and stays so. -/
theorem TakesTurns.idle {meaning : Meaning α ω} {σ : Type} (a : σ) (hn : nextTurn meaning s w = none)
    (h : s'.nextEvent = (none, s')) : TakesTurns meaning s w [] (.ok (a, s', w)) := by
  refine ⟨0, rfl, ?_⟩
  rintro x ⟨⟩ m
  rw [course_idle meaning h]
  cases m with
  | zero => rfl
  | succ m => simp only [course, hn]; rfl

/-- Executing the next event takes the one turn that it is, or none. -/
theorem takesTurns_next (meaning : Meaning α ω) (s : Simulator α) (w : ω) :
    TakesTurns meaning s w (nextTurn meaning s w).toList (processNext meaning s w) := by
  rcases processNext_cases meaning s w with ⟨hn, s₁, ho, hs₁⟩ | ⟨f, ho, hf⟩ | ⟨r, result, s₁, w₁, hn, ho, -⟩
  · rw [hn, ho]
    exact .idle _ hn hs₁
  · rw [ho]
    exact .last hf
  · rw [hn, ho]
    exact .cons hn rfl (.nil meaning s₁ w₁ result)

/-- By induction on the fuel. The loop ends where the flags, the limit or an action end it, and takes the next turns up
to there. -/
theorem takesTurns_loop (meaning : Meaning α ω) (fuel : Nat) (s : Simulator α) (w : ω) :
    TakesTurns meaning s w (loopTurns meaning fuel s w) (runLoop meaning fuel s w) := by
  induction fuel generalizing s w with
  | zero => exact ⟨0, rfl, by rintro x ⟨⟩⟩
  | succ fuel ih =>
    rw [loopTurns, runLoop]
    by_cases hs : s.stopRequested
    · simp only [hs, true_or, if_true]
      exact .nil meaning s w _
    by_cases hl : s.limitReached
    · simp only [hs, hl, or_true, if_true]
      exact .nil meaning s w _
    simp only [hs, hl]
    rcases processNext_cases meaning s w with ⟨hn, s₁, ho, hs₁⟩ | ⟨f, ho, hf⟩ | ⟨r, result, s₁, w₁, hn, ho, hne⟩
    · rw [hn, ho]
      exact .idle _ hn hs₁
    · rw [ho]
      simpa using TakesTurns.last hf
    · rw [hn, ho]
      cases result with
      | error e => exact .cons hn rfl (.nil meaning s₁ w₁ _)
      | ok b =>
        cases b with
        | false => exact absurd rfl hne
        | true => exact .cons hn rfl (ih s₁ w₁)

/-! ## What stays as it is -/

/-- What no request changes is not changed by a program that runs as an action. -/
theorem exec_refuse_keeps {I : Simulator α → Prop}
    (hI : ∀ (s s' : Simulator α) (c : Call α) (a : c.Answer), c.perform s = .ok (a, s') → I s → I s')
    {p : Program α ω ρ} {x : Outcome α ω ρ} (h : p.exec Handler.refuse s w = .ok x) (hs : I s) : I x.2.1 :=
  Program.exec_keeps hI (by rintro d s w x ⟨⟩ hs; exact hs) h hs

/-- No stop time is left to be armed. -/
def Armed (s : Simulator α) : Prop :=
  s.stopTimeArmed = true ∨ s.config.stopTime = none

/-- No request brings a stop time that is left to be armed. -/
theorem Effect.armed (h : s.Effect s') (hs : s.Armed) : s'.Armed := by
  cases h <;> exact hs

theorem nextEvent_armed (h : s.Armed) : s.nextEvent.2.Armed := by
  fun_induction nextEvent s with
  | case1 => exact h
  | case2 => exact h
  | case3 s key queue hp ht ih => exact ih h

theorem perform_armed {meaning : Meaning α ω} {action : Action α} {x : Outcome α ω Unit}
    (h : perform meaning action s w = .ok x) (hs : s.Armed) : x.2.1.Armed := by
  cases action with
  | stop => cases h; exact hs
  | perform a => exact exec_refuse_keeps (fun _ _ _ _ hc => (effect_of_perform hc).armed) h hs

/-- Executing an event does not either. -/
theorem processNext_armed {meaning : Meaning α ω} {x : Outcome α ω Bool} (h : processNext meaning s w = .ok x)
    (hs : s.Armed) : x.2.1.Armed := by
  have hn := nextEvent_armed hs
  obtain ⟨⟨_ | r, s₁⟩, he⟩ : ∃ x, s.nextEvent = x := ⟨_, rfl⟩
  · rw [he] at hn
    rw [processNext_of_none meaning w he] at h
    cases h
    exact hn
  rw [he] at hn
  cases ha : s₁.advance r with
  | error f =>
    rw [processNext_of_error meaning w he ha] at h
    cases h
  | ok s₂ =>
    obtain ⟨-, rfl⟩ := advance_eq_ok ha
    rw [processNext_of_some meaning w he ha] at h
    cases ho : perform meaning r.action _ w with
    | error f => rw [ho] at h; cases h
    | ok y =>
      rw [ho] at h
      cases h
      exact perform_armed ho hn

theorem runLoop_armed {meaning : Meaning α ω} {fuel : Nat} {x : Outcome α ω StopReason}
    (h : runLoop meaning fuel s w = .ok x) (hs : s.Armed) : x.2.1.Armed := by
  fun_induction runLoop meaning fuel s w with
  | case1 => cases h
  | case2 => cases h; exact hs
  | case3 => cases h; exact hs
  | case4 fuel s w hstop hlimit s₁ w₁ hn ih => exact ih h (processNext_armed hn hs)
  | case5 fuel s w hstop hlimit s₁ w₁ hn => cases h; exact processNext_armed hn hs
  | case6 fuel s w hstop hlimit e s₁ w₁ hn => cases h; exact processNext_armed hn hs
  | case7 => cases h

/-- With no stop time left to be armed, a run changes flags only before its loop. -/
theorem armStopTime_of_armed (h : s.Armed) :
    ∃ s₁, s.armStopTime = .ok (.ok false, s₁) ∧ s₁.bare = s.bare ∧ s₁.Armed := by
  unfold armStopTime
  by_cases ha : s.stopTimeArmed = true
  · rw [if_pos ha]
    exact ⟨s, rfl, rfl, h⟩
  · rw [if_neg ha]
    have hnone : s.config.stopTime = none := h.resolve_left ha
    simp only [hnone]
    exact ⟨_, rfl, rfl, .inl rfl⟩

/-! ## Sequences of requests -/

/-- Up to the flags, the events of a list are the next ones of the course, and what the outcome leaves is the rest. -/
def Keeps (meaning : Meaning α ω) (s : Simulator α) (w : ω) (ts : List (Turn α ω)) {σ : Type}
    (o : Except Fault (σ × Simulator α × ω)) : Prop :=
  ∃ k, (course meaning k s w).map Turn.bare = ts.map Turn.bare ∧
    ∀ x, o = .ok x → ∀ m, (course meaning (k + m) s w).map Turn.bare =
      ts.map Turn.bare ++ (course meaning m x.2.1 x.2.2).map Turn.bare

/-- Flags may be changed before and after. -/
theorem TakesTurns.keeps {meaning : Meaning α ω} (hm : ∀ a, (meaning a).Blind) {ts : List (Turn α ω)} {σ τ : Type}
    {o : Except Fault (σ × Simulator α × ω)} {o' : Except Fault (τ × Simulator α × ω)} (h : TakesTurns meaning s' w ts o)
    (hs : s.bare = s'.bare)
    (ho : ∀ x, o' = .ok x → ∃ y, o = .ok y ∧ x.2.1.bare = y.2.1.bare ∧ x.2.2 = y.2.2) : Keeps meaning s w ts o' := by
  obtain ⟨k, hk, hrest⟩ := h
  refine ⟨k, by rw [course_congr hm k hs w, hk], ?_⟩
  intro x hx m
  obtain ⟨y, hy, hb, hw⟩ := ho x hx
  rw [course_congr hm (k + m) hs w, hrest y hy m, List.map_append, hw, course_congr hm m hb]

/-- What is executed after something else follows it in the course. -/
theorem Keeps.append {meaning : Meaning α ω} {ts ts' : List (Turn α ω)} {σ τ : Type} {a : σ}
    {o : Except Fault (τ × Simulator α × ω)} (h : Keeps meaning s w ts (.ok (a, s', w')))
    (h' : Keeps meaning s' w' ts' o) : Keeps meaning s w (ts ++ ts') o := by
  obtain ⟨k, -, hm⟩ := h
  obtain ⟨l, hl, hm'⟩ := h'
  refine ⟨k + l, ?_, ?_⟩
  · rw [hm _ rfl l, hl, List.map_append]
  · intro x hx m
    rw [Nat.add_assoc, hm _ rfl (l + m), hm' x hx m, List.map_append, List.append_assoc]

/-- A request to run or to step executes the next events of the course, and no stop time is left to be armed. -/
theorem keeps_drive {meaning : Meaning α ω} (hm : ∀ a, (meaning a).Blind) (fuel : Nat) {d : Drive} (hd : d ≠ .destroy)
    (hs : s.Armed) (w : ω) :
    Keeps meaning s w (driveTurns meaning fuel d s w) (handler meaning fuel d s w) ∧
      ∀ x, handler meaning fuel d s w = .ok x → x.2.1.Armed := by
  cases d with
  | destroy => exact absurd rfl hd
  | run =>
    unfold driveTurns handler run
    by_cases hr : s.running
    · simp only [hr, if_true]
      exact ⟨(TakesTurns.nil meaning s w _).keeps hm rfl fun x hx => ⟨_, rfl, by cases hx; exact ⟨rfl, rfl⟩⟩,
        by rintro x ⟨⟩; exact hs⟩
    obtain ⟨s₁, ha, hb, hs₁⟩ := armStopTime_of_armed hs
    simp only [hr, ha, bind, Except.bind]
    have hl := takesTurns_loop meaning fuel { s₁ with running := true, stopRequested := false } w
    cases ho : runLoop meaning fuel { s₁ with running := true, stopRequested := false } w with
    | error f =>
      rw [ho] at hl
      exact ⟨hl.keeps hm hb.symm (by rintro x ⟨⟩), by rintro x ⟨⟩⟩
    | ok y =>
      have hy : y.2.1.Armed := runLoop_armed ho hs₁
      rw [ho] at hl
      obtain ⟨_ | reason, s₂, w₂⟩ := y
      · exact ⟨hl.keeps hm hb.symm (by rintro x ⟨⟩; exact ⟨_, rfl, rfl, rfl⟩), by rintro x ⟨⟩; exact hy⟩
      · exact ⟨hl.keeps hm hb.symm (by rintro x ⟨⟩; exact ⟨_, rfl, rfl, rfl⟩), by rintro x ⟨⟩; exact hy⟩
  | step =>
    unfold driveTurns handler step
    by_cases hr : s.running
    · simp only [hr, if_true]
      exact ⟨(TakesTurns.nil meaning s w _).keeps hm rfl fun x hx => ⟨_, rfl, by cases hx; exact ⟨rfl, rfl⟩⟩,
        by rintro x ⟨⟩; exact hs⟩
    simp only [hr, bind, Except.bind]
    have hn := takesTurns_next meaning { s with running := true } w
    cases ho : processNext meaning { s with running := true } w with
    | error f =>
      rw [ho] at hn
      exact ⟨hn.keeps hm rfl (by rintro x ⟨⟩), by rintro x ⟨⟩⟩
    | ok y =>
      have hy : y.2.1.Armed := processNext_armed ho hs
      rw [ho] at hn
      exact ⟨hn.keeps hm rfl (by rintro x ⟨⟩; exact ⟨_, rfl, rfl, rfl⟩), by rintro x ⟨⟩; exact hy⟩

/-- What a sequence of runs and steps executes is a beginning of the course, up to the flags. -/
theorem exists_alike_course {meaning : Meaning α ω} (hm : ∀ a, (meaning a).Blind) (fuel : Nat) {ds : List Drive}
    (hds : .destroy ∉ ds) (hs : s.Armed) (w : ω) :
    ∃ k, (course meaning k s w).map Turn.bare = (turns meaning fuel ds s w).map Turn.bare := by
  suffices h : Keeps meaning s w (turns meaning fuel ds s w) (.error .exhausted : Except Fault (Unit × _)) by
    obtain ⟨k, hk, -⟩ := h
    exact ⟨k, hk⟩
  induction ds generalizing s w with
  | nil => exact ⟨0, rfl, by rintro x ⟨⟩⟩
  | cons d ds ih =>
    obtain ⟨hd, hds⟩ := not_or.1 (List.mem_cons.not.1 hds)
    obtain ⟨hk, ha⟩ := keeps_drive hm fuel (Ne.symm hd) hs w
    rw [turns]
    cases ho : handler meaning fuel d s w with
    | error f =>
      rw [ho] at hk
      obtain ⟨k, hk, -⟩ := hk
      exact ⟨k, by simpa using hk, by rintro x ⟨⟩⟩
    | ok x =>
      rw [ho] at hk
      exact hk.append (ih hds (ha x ho) x.2.2)

/-! ## Turns are what histories tell -/

theorem executed_cons_of_none {m : Moment α} (h : m.deed.began? = none) (ms : List (Moment α)) :
    executed (m :: ms) = executed ms :=
  List.filterMap_cons_none h

/-- Actions execute no events. -/
theorem executed_moments_refuse (p : Program α ω ρ) (s : Simulator α) (w : ω) :
    executed (p.moments Handler.refuse (fun _ _ _ => []) s w) = [] := by
  induction p generalizing s w with
  | done | fail | fault => rfl
  | ask q next ih =>
    simp only [Program.moments]
    cases q.answer s with
    | ok a => exact ih a s w
    | error f => rfl
  | call c next ih =>
    simp only [Program.moments]
    cases c.perform s with
    | ok a => exact (executed_cons_of_none rfl _).trans (ih a.1 a.2 w)
    | error f => rfl
  | drive d next ih => exact (executed_cons_of_none rfl _).trans (ih _ s w)
  | look next ih => exact ih w s w
  | change g next ih => exact ih s (g w)

theorem executed_action (meaning : Meaning α ω) (action : Action α) (s : Simulator α) (w : ω) :
    executed (actionMoments meaning action s w) = [] := by
  cases action with
  | stop => rfl
  | perform a => exact executed_moments_refuse (meaning a) s w

theorem executed_next (meaning : Meaning α ω) (s : Simulator α) (w : ω) :
    executed (nextMoments meaning s w) = (nextTurn meaning s w).toList.map Turn.event := by
  unfold nextMoments nextTurn
  obtain ⟨⟨_ | r, s₁⟩, h⟩ : ∃ x, s.nextEvent = x := ⟨_, rfl⟩
  · simp only [h]
    rfl
  · simp only [h]
    cases s₁.advance r with
    | error f => rfl
    | ok s₂ => exact congrArg (r :: ·) (executed_action meaning r.action s₂ w)

/-- By induction on the fuel: the moments of a loop tell its turns. -/
theorem executed_loop (meaning : Meaning α ω) (fuel : Nat) (s : Simulator α) (w : ω) :
    executed (loopMoments meaning fuel s w) = (loopTurns meaning fuel s w).map Turn.event := by
  induction fuel generalizing s w with
  | zero => rfl
  | succ fuel ih =>
    rw [loopMoments, loopTurns]
    split
    case isTrue => rfl
    case isFalse =>
      rw [executed_append, executed_next, List.map_append]
      congr 1
      cases processNext meaning s w with
      | error f => rfl
      | ok x =>
        obtain ⟨_ | (_ | _), s₁, w₁⟩ := x
        · rfl
        · rfl
        · exact ih s₁ w₁

/-- Destroy events are no events that are executed. -/
theorem executed_destroyLoop (meaning : Meaning α ω) (fuel : Nat) (s : Simulator α) (w : ω) :
    executed (destroyLoopMoments meaning fuel s w) = [] := by
  induction fuel generalizing s w with
  | zero => rfl
  | succ fuel ih =>
    rw [destroyLoopMoments]
    cases s.destroyEvents with
    | nil => rfl
    | cons e rest =>
      simp only [List.cons_append]
      rw [executed_cons_of_none rfl, executed_append, executed_action, List.nil_append]
      split
      · exact ih _ _
      · rfl

theorem executed_arm (s : Simulator α) : executed (armMoments s) = [] := by
  unfold armMoments
  split
  · rfl
  · rw [executed_cons_of_none rfl]
    split
    · rfl
    · split
      · rfl
      · split <;> rfl

/-- Each request tells in its moments the turns that it takes. -/
theorem executed_within (meaning : Meaning α ω) (fuel : Nat) (d : Drive) (s : Simulator α) (w : ω) :
    executed (within meaning fuel d s w) = (driveTurns meaning fuel d s w).map Turn.event := by
  cases d with
  | run =>
    simp only [within, runMoments, driveTurns]
    split
    · rfl
    · rw [executed_append, executed_arm, List.nil_append]
      cases s.armStopTime with
      | error f => rfl
      | ok x =>
        obtain ⟨_ | passed, s₁⟩ := x
        · rfl
        · exact (executed_cons_of_none rfl _).trans (executed_loop meaning fuel _ w)
  | step =>
    simp only [within, stepMoments, driveTurns]
    split
    · rfl
    · exact (executed_cons_of_none rfl _).trans (executed_next meaning _ w)
  | destroy =>
    simp only [within, destroyMoments, driveTurns]
    split
    · rfl
    · rw [List.cons_append, executed_cons_of_none rfl, executed_append, executed_destroyLoop]
      split <;> rfl

/-- By induction on the requests. -/
theorem executed_drives (meaning : Meaning α ω) (fuel : Nat) (ds : List Drive) (s : Simulator α) (w : ω) :
    executed ((Program.drives ds : Program α ω Unit).moments (handler meaning fuel) (Simulator.within meaning fuel) s w) =
      (turns meaning fuel ds s w).map Turn.event := by
  induction ds generalizing s w with
  | nil => rfl
  | cons d ds ih =>
    rw [Program.drives, Program.moments, turns, executed_append, executed_within, List.map_append]
    congr 1
    cases handler meaning fuel d s w with
    | error f => rfl
    | ok x => exact (executed_cons_of_none rfl _).trans (ih x.2.1 x.2.2)

/-- **Driving.** Actions ask nothing whose answer depends on how the simulator is driven, and no stop time is left to be
armed. Then any two sequences of runs and steps execute the same events in the same order: the event that is the n-th in
both is the same one, and after its action simulator and model are the same, up to the flags. Where its action ends in a
fault, it does in both. -/
theorem turns_agree {meaning : Meaning α ω} (hm : ∀ a, (meaning a).Blind) (hs : s.Armed) (fuel fuel' : Nat)
    {ds ds' : List Drive} (hds : .destroy ∉ ds) (hds' : .destroy ∉ ds') (w : ω) :
    executed (history meaning fuel (Program.drives ds : Program α ω Unit) s w) =
      (turns meaning fuel ds s w).map Turn.event ∧
    ∀ (n : Nat) (t t' : Turn α ω), (turns meaning fuel ds s w)[n]? = some t → (turns meaning fuel' ds' s w)[n]? = some t' →
      t.event = t'.event ∧
      t.after.map (fun x => (x.1.bare, x.2)) = t'.after.map fun x => (x.1.bare, x.2) := by
  refine ⟨(executed_cons_of_none rfl _).trans (executed_drives meaning fuel ds s w), ?_⟩
  intro n t t' ht ht'
  obtain ⟨k, hk⟩ := exists_alike_course hm fuel hds hs w
  obtain ⟨l, hl⟩ := exists_alike_course hm fuel' hds' hs w
  -- Both are beginnings of one course, and the n-th event of a course does not depend on how far it goes.
  have nth {k fuel : Nat} {ds : List Drive} {t : Turn α ω}
      (hk : (course meaning k s w).map Turn.bare = (turns meaning fuel ds s w).map Turn.bare)
      (ht : (turns meaning fuel ds s w)[n]? = some t) :
      ((course meaning (n + 1) s w).map Turn.bare)[n]? = some t.bare := by
    have hx : ((course meaning k s w).map Turn.bare)[n]? = some t.bare := by rw [hk, List.getElem?_map, ht]; rfl
    have hlt : n < k := by
      obtain ⟨hlen, -⟩ := List.getElem?_eq_some_iff.1 hx
      rw [List.length_map] at hlen
      exact Nat.lt_of_lt_of_le hlen (length_course_le meaning k s w)
    rw [List.getElem?_map, getElem?_course meaning hlt] at hx
    rwa [List.getElem?_map]
  have he : t.bare = t'.bare := Option.some.inj ((nth hk ht).symm.trans (nth hl ht'))
  obtain ⟨hevent, hafter⟩ := Turn.mk.inj he
  exact ⟨hevent, hafter⟩

/-- The first action stops the run, the second one fails, and the others do nothing. -/
def stopsThenFails : Meaning Nat Unit
  | 0 => do Program.request .stop
  | 1 => Program.fail (.invalidState "failed")
  | _ => Program.done ()

/-- One event for each of the first three actions. -/
def threeEvents : Simulator Nat :=
  let s := ((ofConfig 0 {}).scheduleNow (.perform 0)).2
  let s := (s.scheduleNow (.perform 1)).2
  (s.scheduleNow (.perform 2)).2

/-- Runs that are stopped and fail reach the third event, and it is the one that single steps reach. -/
theorem turns_agree_stopsThenFails :
    (∀ a, (stopsThenFails a).Blind) ∧ threeEvents.Armed ∧
    ∃ t t', (turns stopsThenFails 3 [.run, .run, .run] threeEvents ())[2]? = some t ∧
      (turns stopsThenFails 0 [.step, .step, .step] threeEvents ())[2]? = some t' ∧
      t.event = t'.event ∧ t.after.map (fun x => (x.1.bare, x.2)) = t'.after.map fun x => (x.1.bare, x.2) := by
  have hm : ∀ a, (stopsThenFails a).Blind
    | 0 => fun _ => trivial
    | 1 => trivial
    | _ + 2 => trivial
  have hs : threeEvents.Armed := .inr rfl
  have hrun : (turns stopsThenFails 3 [.run, .run, .run] threeEvents ())[2]?.isSome := by decide +kernel
  have hstep : (turns stopsThenFails 0 [.step, .step, .step] threeEvents ())[2]?.isSome := by decide +kernel
  obtain ⟨t, ht⟩ := Option.isSome_iff_exists.1 hrun
  obtain ⟨t', ht'⟩ := Option.isSome_iff_exists.1 hstep
  exact ⟨hm, hs, t, t', ht, ht', (turns_agree hm hs 3 0 (by simp) (by simp) ()).2 2 t t' ht ht'⟩

end Simulator

end SimKernel
