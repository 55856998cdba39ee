import SimKernel.Proofs.Simulator.Accounting
import SimKernel.Proofs.Simulator.Fate

/-!
# Requests for events

A request asks for an event some span ahead of the clock. The span decides what becomes of it (`Decision`): there is a
fault if the span is no time, a refusal if the event were due in the past or after the last instant, and else exactly
one event is added, at the whole ticks of the span (`Adds`). What is refused changes nothing.

Delays are times, so asking for an event after a delay never ends in a fault. Asking for one at an absolute time can, if
that time is so far in the past that the difference to the clock does not fit (`scheduleAt_min_faults`).

The number of a new event is larger than all numbers that were given out before (`Path.named_lt`), and the event is the
only one that ever has it (`Path.only`).
-/

namespace SimKernel

variable {α : Type}

/-- The event that is named by the answer. -/
def Deed.named? : Deed α → Option EventId
  | called (.schedule _ _) answer | called (.scheduleIn _ _ _) answer | called (.scheduleAt _ _) answer
  | called (.stopAt _) answer | called (.stopAfter _) answer => (answer : Except SimError EventId).toOption
  | called (.scheduleNow _) answer | called (.scheduleDestroy _) answer => some (answer : EventId)
  | _ => none

namespace Simulator

variable {s s' t : Simulator α} {context : ContextId} {action : Action α} {id : EventId}

/-! ## Decisions -/

/-- Exactly one event is pending in addition, due after so many femtoseconds and known by a new name. -/
structure Adds (s : Simulator α) (femtos : Int) (context : ContextId) (action : Action α) (id : EventId)
    (s' : Simulator α) : Prop where
  uid : id.uid = s.nextUid
  owner : id.owner = s.owner
  vacant : s.slots.record? id.slot = none
  table : ∃ time : Time, time.femtos = femtos ∧ ∀ slot, s'.slots.record? slot =
    if slot = id.slot then some ⟨id.uid, time, context, action⟩ else s.slots.record? slot
  pending : s'.pending = s.pending + 1
  nextUid : s'.nextUid = s.nextUid + 1
  now : s'.now = s.now

/-- What becomes of a request for an event that is a span ahead of the clock. -/
inductive Decision (s : Simulator α) (span : Int) (context : ContextId) (action : Action α) :
    Except Fault (Except SimError EventId × Simulator α) → Prop
  | faulted (h : span < Time.least) : Decision s span context action (.error .overflow)
  | past {delay : Time} (hd : delay.femtos = span) (h : span < 0) :
      Decision s span context action (.ok (.error (.negativeDelay delay), s))
  | late {text : String} (h : 0 ≤ span)
      (h' : Time.greatest < s.now.femtos + s.config.resolution.wholeTicks span) :
      Decision s span context action (.ok (.error (.invalidState text), s))
  | added {id : EventId} {s' : Simulator α} (h : 0 ≤ span)
      (h' : s.now.femtos + s.config.resolution.wholeTicks span ≤ Time.greatest)
      (ha : Adds s (s.now.femtos + s.config.resolution.wholeTicks span) context action id s') :
      Decision s span context action (.ok (.ok id, s'))

/-- The answer to a request for an event is right: each kind of refusal is given exactly when it should be and changes
nothing, and otherwise the event is added. -/
structure Decides (s : Simulator α) (span : Int) (context : ContextId) (action : Action α)
    (x : Except Fault (Except SimError EventId × Simulator α)) : Prop where
  fault : (∃ f, x = .error f) ↔ span < Time.least
  past : (∃ delay s', x = .ok (.error (.negativeDelay delay), s')) ↔ Time.least ≤ span ∧ span < 0
  late : (∃ text s', x = .ok (.error (.invalidState text), s')) ↔
    0 ≤ span ∧ Time.greatest < s.now.femtos + s.config.resolution.wholeTicks span
  refused : ∀ e s', x = .ok (.error e, s') → s' = s
  added : 0 ≤ span → s.now.femtos + s.config.resolution.wholeTicks span ≤ Time.greatest → ∃ id s', x = .ok (.ok id, s') ∧
    Adds s (s.now.femtos + s.config.resolution.wholeTicks span) context action id s'

/-- The conditions of the four kinds of decisions exclude each other and leave nothing out. -/
theorem Decision.decides {span : Int} {x : Except Fault (Except SimError EventId × Simulator α)}
    (h : Decision s span context action x) : Decides s span context action x := by
  have hleast : Time.least < 0 := by decide
  cases h with
  | faulted h =>
    exact ⟨⟨fun _ => h, fun _ => ⟨_, rfl⟩⟩, ⟨(by rintro ⟨_, _, ⟨⟩⟩), fun ⟨h', _⟩ => by omega⟩,
      ⟨(by rintro ⟨_, _, ⟨⟩⟩), fun ⟨h', _⟩ => by omega⟩, (by rintro _ _ ⟨⟩), fun h' => by omega⟩
  | @past delay hd h =>
    have hle : Time.least ≤ span := hd ▸ delay.min_le
    exact ⟨⟨(by rintro ⟨_, ⟨⟩⟩), fun h' => by omega⟩, ⟨fun _ => ⟨hle, h⟩, fun _ => ⟨_, _, rfl⟩⟩,
      ⟨(by rintro ⟨_, _, ⟨⟩⟩), fun ⟨h', _⟩ => by omega⟩, (by rintro _ _ ⟨⟩; rfl), fun h' => by omega⟩
  | late h h' =>
    exact ⟨⟨(by rintro ⟨_, ⟨⟩⟩), fun _ => by omega⟩, ⟨(by rintro ⟨_, _, ⟨⟩⟩), fun _ => by omega⟩,
      ⟨fun _ => ⟨h, h'⟩, fun _ => ⟨_, _, rfl⟩⟩, (by rintro _ _ ⟨⟩; rfl), fun _ _ => by omega⟩
  | added h h' ha =>
    exact ⟨⟨(by rintro ⟨_, ⟨⟩⟩), fun _ => by omega⟩, ⟨(by rintro ⟨_, _, ⟨⟩⟩), fun _ => by omega⟩,
      ⟨(by rintro ⟨_, _, ⟨⟩⟩), fun _ => by omega⟩, (by rintro _ _ ⟨⟩), fun _ _ => ⟨_, _, rfl, ha⟩⟩

theorem Sound.adds_insert (h : s.Sound) (time : Time) (context : ContextId) (action : Action α) :
    Adds s time.femtos context action (s.insert time context action).1 (s.insert time context action).2 where
  uid := by rw [insert_fst]
  owner := by rw [insert_fst]
  vacant := by
    rw [insert_fst]
    exact h.slots.record?_nextSlot
  table := ⟨time, rfl, fun slot => by rw [insert_fst, h.record?_insert]⟩
  pending := pending_insert s time context action
  nextUid := rfl
  now := rfl

theorem decision_scheduleIn (h : s.Sound) (context : ContextId) (delay : Time) (action : Action α) :
    Decision s delay.femtos context action (.ok (Call.keep s (s.scheduleIn context delay action))) := by
  have hnow := h.now_nonneg
  by_cases hneg : delay.isNegative
  · simp only [scheduleIn, hneg, if_true]
    exact .past rfl (by simpa [Time.isNegative] using hneg)
  have hdelay : 0 ≤ delay.femtos := Time.isNegative_eq_false_iff.1 (by simpa using hneg)
  have hq := s.config.resolution.quantize_nonneg hdelay
  cases ht : s.now.checkedAdd (s.config.resolution.quantize delay) with
  | none =>
    simp only [scheduleIn, hneg, Bool.false_eq_true, if_false, ht]
    refine .late hdelay (Int.not_le.1 fun hle => ?_)
    exact absurd ((dif_pos ⟨by omega, Int.lt_add_one_of_le hle⟩).symm.trans ht) (Option.some_ne_none _)
  | some time =>
    simp only [scheduleIn, hneg, Bool.false_eq_true, if_false, ht]
    have ht : time.femtos = s.now.femtos + s.config.resolution.wholeTicks delay.femtos :=
      Time.ofFemtos?_eq_some_iff.1 ht
    exact .added hdelay (ht ▸ Int.le_of_lt_add_one time.lt_bound) (ht ▸ h.adds_insert time context action)

/-- The clock is at no negative time, so the difference to it can only be too small. -/
theorem decision_scheduleAt (h : s.Sound) (time : Time) (action : Action α) :
    Decision s (time.femtos - s.now.femtos) s.context action ((s.scheduleAt time action).map (Call.keep s)) := by
  have hnow := h.now_nonneg
  have hlt := time.lt_bound
  cases hd : Time.ofFemtos? (time.femtos - s.now.femtos) with
  | none =>
    simp only [scheduleAt, Time.sub, Time.ofFemtos, hd]
    refine .faulted (Int.not_le.1 fun hle => ?_)
    exact absurd ((dif_pos ⟨hle, by omega⟩).symm.trans hd) (Option.some_ne_none _)
  | some delay =>
    simp only [scheduleAt, Time.sub, Time.ofFemtos, hd]
    rw [← Time.ofFemtos?_eq_some_iff.1 hd]
    exact decision_scheduleIn h s.context delay action

/-! ## Numbers -/

/-- An answer names no event and none was added, or it names the one that got the next number. -/
def Numbers (s : Simulator α) (named : Option EventId) (s' : Simulator α) : Prop :=
  named = none ∧ s'.nextUid = s.nextUid ∨ ∃ id, named = some id ∧ id.uid = s.nextUid ∧ s'.nextUid = s.nextUid + 1

theorem Decision.numbers {span : Int} {x : Except Fault (Except SimError EventId × Simulator α)}
    (h : Decision s span context action x) {answer : Except SimError EventId} (hx : x = .ok (answer, s')) :
    Numbers s answer.toOption s' := by
  cases h with
  | faulted => cases hx
  | past | late => cases hx; exact .inl ⟨rfl, rfl⟩
  | added _ _ ha => cases hx; exact .inr ⟨_, rfl, ha.uid, ha.nextUid⟩

theorem Sound.numbers_of_perform (h : s.Sound) {c : Call α} {answer : c.Answer} (hc : c.perform s = .ok (answer, s')) :
    Numbers s (Deed.called c answer).named? s' := by
  cases c with
  | schedule | scheduleIn | stopAfter => exact (decision_scheduleIn h _ _ _).numbers hc
  | scheduleAt | stopAt => exact (decision_scheduleAt h _ _).numbers hc
  | scheduleNow a =>
    cases hc
    exact .inr ⟨_, rfl, (h.adds_insert s.now s.context (.perform a)).uid, rfl⟩
  | scheduleDestroy a => cases hc; exact .inr ⟨_, rfl, rfl, rfl⟩
  | cancel id =>
    rcases cancel_eq_ok hc with ⟨-, rfl, -⟩ | ⟨e, -, -, -, -, rfl⟩ | ⟨r, slots, -, -, -, rfl⟩
    all_goals exact .inl ⟨rfl, rfl⟩
  | stop | setRng => cases hc; exact .inl ⟨rfl, rfl⟩

theorem Sound.numbers_of_step (h : s.Sound) {m : Moment α} (hs : s.Step m) : Numbers s m.deed.named? m.state := by
  cases hs with
  | called hc => exact h.numbers_of_perform hc
  | began hn ha =>
    obtain ⟨-, he, -⟩ := h.nextEvent_eq_some hn
    obtain ⟨-, rfl⟩ := advance_eq_ok ha
    exact .inl ⟨rfl, by rw [he]⟩
  | idled hn =>
    obtain ⟨-, -, he, -⟩ := h.nextEvent_eq_none hn
    exact .inl ⟨rfl, by rw [he]⟩
  | tornDown | cleared | switched => exact .inl ⟨rfl, rfl⟩

/-- Numbers given out on a path are at least the next one at its beginning and less than the next one at its end. -/
theorem Path.named_lt {ms : List (Moment α)} (hp : Path s ms t) (h : s.Sound) :
    s.nextUid ≤ t.nextUid ∧ ∀ m ∈ ms, ∀ id, m.deed.named? = some id → s.nextUid ≤ id.uid ∧ id.uid < t.nextUid := by
  induction hp with
  | nil s => exact ⟨Nat.le_refl _, fun _ hm => absurd hm List.not_mem_nil⟩
  | @cons s t m ms hs _ ih =>
    obtain ⟨hle, hms⟩ := ih (Sound.step s m h hs)
    have hm := h.numbers_of_step hs
    have hlt : s.nextUid ≤ m.state.nextUid := by
      rcases hm with ⟨-, he⟩ | ⟨-, -, -, he⟩ <;> omega
    refine ⟨Nat.le_trans hlt hle, ?_⟩
    intro n hn id hid
    rcases List.mem_cons.1 hn with rfl | hn
    · rcases hm with ⟨hnone, -⟩ | ⟨id', hsome, hu, he⟩
      · cases hnone.symm.trans hid
      · cases hsome.symm.trans hid
        omega
    · obtain ⟨hge, hlt'⟩ := hms n hn id hid
      exact ⟨Nat.le_trans hlt hge, hlt'⟩

/-- The pending events with the number have the property. -/
def Only (uid : Nat) (P : EventRecord (Action α) → Prop) (s : Simulator α) : Prop := ∀ r, s.Pends r → r.uid = uid → P r

/-- Once a number is given out, no other event gets it: what holds of the pending events with the number, holds of those
that are pending or begin later. -/
theorem Path.only {ms : List (Moment α)} (hp : Path s ms t) (h : s.Sound) {uid : Nat} (hu : uid < s.nextUid)
    {P : EventRecord (Action α) → Prop} (hP : Only uid P s) :
    Only uid P t ∧ ∀ r ∈ executed ms, r.uid = uid → P r := by
  induction hp with
  | nil s => exact ⟨hP, fun _ hr => absurd hr List.not_mem_nil⟩
  | @cons s t m ms hs _ ih =>
    have hlt := (Path.single hs).named_lt h |>.1
    obtain ⟨ht, hms⟩ := ih (Sound.step s m h hs) (Nat.lt_of_lt_of_le hu hlt) fun r ⟨slot, hr⟩ hru => by
      rcases h.record?_of_step hs hr with hr | ⟨-, hnew⟩
      · exact hP r ⟨slot, hr⟩ hru
      · omega
    refine ⟨ht, ?_⟩
    intro r hr hru
    rw [executed_cons] at hr
    rcases List.mem_append.1 hr with hr | hr
    · have hb := Option.mem_toList.1 hr
      cases hs with
      | began he ha =>
        cases hb
        obtain ⟨-, -, -, -, slot, hr, -⟩ := h.step_began (.began he ha)
        exact hP _ ⟨slot, hr⟩ hru
      | _ => cases hb
    · exact hms r hr hru

/-! ## Every request -/

/-- **Scheduling.** At every moment of a history each request for an event is decided by its span: after a delay it is
refused as negative exactly when the delay is, at an absolute time exactly when that is before the clock, unless the
difference is no time, in which case alone there is a fault; it is refused as too late exactly when the clock plus the
whole ticks of the span is after the last instant; and otherwise exactly one event is added, due then, under a name whose
number was not given out before. A refusal changes nothing. -/
theorem decides_history {ω ρ : Type} (owner : Nat) (config : Config) (meaning : Meaning α ω) (fuel : Nat)
    (p : Program α ω ρ) (w : ω) (ms : List (Moment α)) (m : Moment α) (ns : List (Moment α))
    (he : history meaning fuel p (ofConfig owner config) w = ms ++ m :: ns) :
    let s := m.state
    (∀ delay a, Decides s delay.femtos s.context (.perform a) ((Call.schedule delay a).perform s)) ∧
    (∀ context delay a, Decides s delay.femtos context (.perform a) ((Call.scheduleIn context delay a).perform s)) ∧
    (∀ delay, Decides s delay.femtos s.context .stop ((Call.stopAfter delay).perform s)) ∧
    (∀ time a, Decides s (time.femtos - s.now.femtos) s.context (.perform a) ((Call.scheduleAt time a).perform s)) ∧
    (∀ time, Decides s (time.femtos - s.now.femtos) s.context .stop ((Call.stopAt time).perform s)) ∧
    ∀ n ∈ ms ++ [m], ∀ id, n.deed.named? = some id → id.uid < s.nextUid := by
  intro s
  obtain ⟨t, hp, -⟩ := path_history meaning fuel p (ofConfig owner config) w
  have hpast : Path (ofConfig owner config) (ms ++ [m]) s := (he ▸ hp : Path _ (ms ++ m :: ns) t).upTo
  have hs : s.Sound := (hpast.invariant Sound.step (sound_ofConfig owner config)).1
  refine ⟨?_, ?_, ?_, ?_, ?_, ?_⟩
  · exact fun delay a => (decision_scheduleIn hs s.context delay (.perform a)).decides
  · exact fun context delay a => (decision_scheduleIn hs context delay (.perform a)).decides
  · exact fun delay => (decision_scheduleIn hs s.context delay .stop).decides
  · exact fun time a => (decision_scheduleAt hs time (.perform a)).decides
  · exact fun time => (decision_scheduleAt hs time .stop).decides
  · exact fun n hn id hid => ((hpast.named_lt (sound_ofConfig owner config)).2 n hn id hid).2

/-- Two nanoseconds. -/
def twoNanos : Time := ⟨2_000_000, by decide, by decide⟩

/-- Puts the clock at two nanoseconds. -/
def reachTwo : Program Unit Unit Unit := do
  let _ ← Program.request (.schedule twoNanos ())
  let _ ← Program.requestDrive .step

/-- What happened until then. -/
def untilTwo : List (Moment Unit) := history (fun _ => .done ()) 0 reachTwo (ofConfig 0 {}) ()

theorem exists_untilTwo : ∃ m, untilTwo = untilTwo.dropLast ++ m :: [] ∧ m.state.now = twoNanos ∧
    m.state.config.resolution = ⟨.nanosecond⟩ := by
  obtain ⟨m, hm⟩ : ∃ m, untilTwo.getLast? = some m := ⟨_, rfl⟩
  have hlast : (untilTwo.getLast?.map fun m => (m.state.now, m.state.config.resolution)) = some (twoNanos, ⟨.nanosecond⟩) := by
    decide +kernel
  rw [hm] at hlast
  obtain ⟨hnow, hresolution⟩ := Prod.mk.inj (Option.some.inj hlast)
  exact ⟨m, (List.dropLast_append_getLast? m hm).symm, hnow, hresolution⟩

/-- With the clock at two nanoseconds, an event at three and a half is due at three, and one at a half is refused. -/
theorem decides_history_untilTwo : ∃ m, untilTwo = untilTwo.dropLast ++ m :: [] ∧
    (∃ id s', (Call.scheduleAt ⟨3_500_000, by decide, by decide⟩ ()).perform m.state = .ok (.ok id, s') ∧
      Adds m.state 3_000_000 m.state.context (.perform ()) id s') ∧
    ∃ delay s', (Call.scheduleAt ⟨500_000, by decide, by decide⟩ ()).perform m.state =
      .ok (.error (.negativeDelay delay), s') := by
  obtain ⟨m, he, hnow, hresolution⟩ := exists_untilTwo
  obtain ⟨-, -, -, hat, -, -⟩ := decides_history 0 {} (fun _ => .done ()) 0 reachTwo () _ m [] he
  have hadded := (hat ⟨3_500_000, by decide, by decide⟩ ()).added
  rw [hnow, hresolution] at hadded
  have hpast := (hat ⟨500_000, by decide, by decide⟩ ()).past
  rw [hnow] at hpast
  exact ⟨m, he, hadded (by decide) (by decide), hpast.2 (by decide)⟩

/-- A time before the clock need not be refused: the difference to the clock may be no time. -/
theorem scheduleAt_min_faults : ∃ m ∈ untilTwo, Time.min < m.state.now ∧
    ∃ f, (Call.scheduleAt Time.min ()).perform m.state = .error f := by
  obtain ⟨m, he, hnow, -⟩ := exists_untilTwo
  have hm : m ∈ untilTwo := by rw [he]; exact List.mem_append_right _ List.mem_cons_self
  refine ⟨m, hm, by rw [hnow]; decide, ?_⟩
  have hs := sound_history (fun _ => .done ()) 0 reachTwo (sound_ofConfig 0 {}) () m hm
  have hd := (decision_scheduleAt hs Time.min (.perform ())).decides
  rw [hnow] at hd
  exact hd.fault.2 (by decide)

end Simulator

end SimKernel
