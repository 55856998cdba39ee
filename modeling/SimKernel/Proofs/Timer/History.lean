import SimKernel.Proofs.Simulator.Scheduling
import SimKernel.Proofs.Timer.Requests

/-!
# Histories of a timer

What happens to a timer and to its simulator, in order: requests to the timer, and whatever else happens to the simulator.
Requests come from anywhere, be it the driver of the simulator, actions of other events, or the timer's own callback, and
others may even cancel the timer's event (`Step`). Whatever happens in the course of a program that uses a timer is such a
history (`path_of_exec`).

The invariant `Kept` says that of all events with which the timer was armed only the one can be pending that it keeps the
name of, and none while it is suspended. Every step keeps it (`Kept.step`): the name may go stale when the event begins, is
cancelled or is forgotten, but its number is never given out again. To the simulator a history of the timer is a path like
any other (`Path.sim`).
-/

namespace SimKernel.Timer

variable {α : Type}

/-- What happens to a timer and its simulator. -/
inductive Deed (α : Type) where
  | requested (q : Request α) (result : Except SimError Unit)
  /-- Something that is not a request to the timer. -/
  | other (d : SimKernel.Deed α)

/-- What happened, and the system after it. -/
structure Moment (α : Type) where
  deed : Deed α
  state : System α

namespace Deed

/-- The event that began to execute. -/
def began? : Deed α → Option (EventRecord (Action α))
  | requested _ _ => none
  | other d => d.began?

/-- The timer was armed. -/
def Arms : Deed α → Prop
  | requested q result => q.arms = true ∧ result = .ok ()
  | other _ => False

/-- What was armed before was taken away: the timer was cancelled, suspended, or armed again. -/
def Disarms : Deed α → Prop
  | requested q result => q.disarms = true ∧ result = .ok ()
  | other _ => False

end Deed

/-- The number of the event with which the timer was armed at the moment. -/
def Moment.number? (m : Moment α) : Option Nat :=
  match m.deed with
  | .requested q (.ok ()) => if q.arms then m.state.timer.event.map EventId.uid else none
  | _ => none

/-- The numbers of the events with which the timer was armed in the course of a history. -/
def numbers (ms : List (Moment α)) : List Nat := ms.filterMap Moment.number?

/-- The events that began in the course of a history. -/
def began (ms : List (Moment α)) : List (EventRecord (Action α)) := ms.filterMap fun m => m.deed.began?

/-- What may happen next to a timer and its simulator. -/
inductive Step (x : System α) : Moment α → Prop
  | requested {q : Request α} {ω : Type} {handle : Handler α ω} {w w' : ω} {result : Except SimError Unit} {t : Timer α}
      {s : Simulator α} (h : (q.program x.timer).exec handle x.sim w = .ok (.ok (result, t), s, w')) :
      Step x ⟨.requested q result, s, t⟩
  | other {d : SimKernel.Deed α} {s : Simulator α} (h : x.sim.Step ⟨d, s⟩) : Step x ⟨.other d, s, x.timer⟩

/-- The moments lead, step by step, from one system to another. -/
inductive Path : System α → List (Moment α) → System α → Prop
  | nil (x : System α) : Path x [] x
  | cons {x y : System α} {m : Moment α} {ms : List (Moment α)} (h : Step x m) (hs : Path m.state ms y) :
      Path x (m :: ms) y

theorem Path.append {x y z : System α} {ms ns : List (Moment α)} (h : Path x ms y) (h' : Path y ns z) :
    Path x (ms ++ ns) z := by
  induction h with
  | nil => exact h'
  | cons hs _ ih => exact .cons hs (ih h')

/-- A path taken apart at one of its moments. -/
theorem Path.split {x y : System α} {ms ns : List (Moment α)} {m : Moment α} (h : Path x (ms ++ m :: ns) y) :
    ∃ u, Path x ms u ∧ Step u m ∧ Path m.state ns y := by
  induction ms generalizing x with
  | nil =>
    cases h with
    | cons hs hp => exact ⟨x, .nil x, hs, hp⟩
  | cons m' ms ih =>
    cases h with
    | cons hs hp =>
      obtain ⟨u, hu, hrest⟩ := ih hp
      exact ⟨u, .cons hs hu, hrest⟩

/-! ## Keeping track of the timer's event -/

/-- Of all events with which the timer was armed, at most the one is pending that it keeps the name of. -/
structure Kept (uids : List Nat) (x : System α) : Prop where
  sound : x.sim.Sound
  /-- No slot has the number that is kept for destroy events. -/
  size_le : x.sim.slots.slots.size ≤ Simulator.destroySlot
  named : Named x
  mem : ∀ id, x.timer.event = some id → id.uid ∈ uids
  lt_next : ∀ uid ∈ uids, uid < x.sim.nextUid
  tracks : x.sim.Tracks (fun r => r.uid ∈ uids) x.timer.event
  suspended : x.timer.remaining.isSome = true → x.timer.event = none

theorem kept_ofConfig (owner : Nat) (config : Config) (delay : Time) :
    Kept [] (⟨Simulator.ofConfig owner config, { delay }⟩ : System α) where
  sound := Simulator.sound_ofConfig owner config
  size_le := Nat.zero_le _
  named _ he := nomatch he
  mem _ he := nomatch he
  lt_next _ hu := nomatch hu
  tracks _ _ _ hu := nomatch hu
  suspended hr := nomatch hr

section Kept

variable {uids : List Nat} {x y : System α} {q : Request α} {result : Except SimError Unit}

/-- Whatever happens to the simulator, it adds no event with a number that was given out before. -/
theorem Kept.other (h : Kept uids x) {d : SimKernel.Deed α} {s : Simulator α} (hs : x.sim.Step ⟨d, s⟩)
    (room : s.pending ≤ Simulator.destroySlot) : Kept uids ⟨s, x.timer⟩ := by
  have howner : s.owner = x.sim.owner := (h.sound.step_owner hs).1
  have hnext : x.sim.nextUid ≤ s.nextUid := ((Simulator.Path.single hs).named_lt h.sound).1
  refine ⟨Simulator.Sound.step x.sim _ h.sound hs, h.sound.step_size_le hs h.size_le room, ?_, h.mem, ?_, ?_,
    h.suspended⟩
  · intro id he
    obtain ⟨hid, hslot⟩ := h.named id he
    exact ⟨⟨hid.owner.trans howner.symm, Nat.lt_of_lt_of_le hid.uid_lt hnext⟩, hslot⟩
  · exact fun uid hu => Nat.lt_of_lt_of_le (h.lt_next uid hu) hnext
  · intro slot r hr hu
    rcases h.sound.record?_of_step hs hr with hr | ⟨-, hnew⟩
    · change x.timer.event = some ⟨r.uid, s.owner, slot⟩
      rw [howner]
      exact h.tracks slot r hr hu
    · exact absurd (h.lt_next r.uid hu) (by omega)

/-- After its event was cancelled the timer has none. -/
theorem Kept.tracks_disarmed (h : Kept uids x) : x.disarmed.Tracks (fun r => r.uid ∈ uids) none := by
  have htracks := h.tracks
  unfold System.disarmed
  cases he : x.timer.event with
  | none =>
    rw [he] at htracks
    exact htracks
  | some id =>
    obtain ⟨answer, s', hc⟩ := (h.named id he).1.cancel_eq
    rw [he] at htracks
    rw [withdraw_of_cancel hc]
    exact htracks.cancel h.sound h.size_le hc

theorem number?_eq_none (hq : q.arms = true → result ≠ .ok ()) :
    Moment.number? ⟨.requested q result, y⟩ = none := by
  unfold Moment.number?
  cases result with
  | error e => rfl
  | ok => exact if_neg fun ha => hq ha rfl

/-- The name of the event with which the timer is armed. -/
theorem event_armed (x : System α) (a : α) (time : Time) :
    (x.armed a time).timer.event = some ⟨x.disarmed.nextUid, x.disarmed.owner, x.disarmed.slots.nextSlot⟩ :=
  congrArg some (Simulator.insert_fst ..)

theorem number?_armed {a : α} {delay time : Time} (hq : q.delay? x.timer = some delay) :
    Moment.number? ⟨.requested q (.ok ()), x.armed a time⟩ = some x.disarmed.nextUid := by
  simp only [Moment.number?, Request.arms_of_delay? hq, if_true, event_armed, Option.map_some]

/-- The event with which the timer is armed. -/
theorem Named.record?_armed (h : Named x) (hs : x.sim.Sound) (a : α) (time : Time) :
    (x.armed a time).sim.slots.record? x.disarmed.slots.nextSlot =
      some ⟨x.disarmed.nextUid, time, x.disarmed.context, .perform a⟩ :=
  ((h.fewer hs).sound.record?_insert _ _ _ _).trans (if_pos rfl)

/-- The event with which the timer is armed gets a number of its own. -/
theorem Kept.armed (h : Kept uids x) {a : α} {time : Time} (ht : x.sim.now.femtos ≤ time.femtos)
    (room : (x.armed a time).sim.pending ≤ Simulator.destroySlot) :
    Kept (uids ++ [x.disarmed.nextUid]) (x.armed a time) := by
  have hfewer := h.named.fewer h.sound
  have hs := hfewer.sound
  have hnone := h.tracks_disarmed
  rw [← hfewer.now] at ht
  have hsize : (x.armed a time).sim.slots.slots.size ≤ Simulator.destroySlot :=
    hs.size_insert_le (hfewer.size ▸ h.size_le) room
  have hlt : ∀ uid ∈ uids, uid < x.disarmed.nextUid := fun uid hu => hfewer.nextUid ▸ h.lt_next uid hu
  refine ⟨hs.insert ht _ _, hsize, ?_, ?_, ?_, ?_, nofun⟩
  · intro id he
    cases (event_armed x a time).symm.trans he
    exact ⟨⟨rfl, Nat.lt_succ_self _⟩, Simulator.ne_destroySlot hsize (h.named.record?_armed h.sound a time)⟩
  · intro id he
    cases (event_armed x a time).symm.trans he
    exact List.mem_append_right _ List.mem_cons_self
  · intro uid hu
    rcases List.mem_append.1 hu with hu | hu
    · exact Nat.lt_succ_of_lt (hlt uid hu)
    · rw [List.mem_singleton.1 hu]
      exact Nat.lt_succ_self _
  · intro slot r hr hu
    rw [System.armed, hs.record?_insert] at hr
    split at hr
    case isTrue he =>
      cases hr
      rw [event_armed, he]
      rfl
    case isFalse =>
      -- An older event has a lesser number, and none of those is pending.
      have hold := hs.uid_lt hr
      rcases List.mem_append.1 hu with hu | hu
      · exact nomatch hnone slot r hr hu
      · rw [List.mem_singleton.1 hu] at hold
        exact absurd hold (Nat.lt_irrefl _)

theorem Kept.effect (h : Kept uids x) (he : Effect x q result y) (room : y.sim.pending ≤ Simulator.destroySlot) :
    Kept (uids ++ (Moment.number? ⟨.requested q result, y⟩).toList) y := by
  cases he with
  | untouched hq hevent hremaining =>
    rw [number?_eq_none fun ha => hq (Request.disarms_of_arms ha), Option.toList_none, List.append_nil]
    exact ⟨h.sound, h.size_le, fun id he => h.named id (hevent ▸ he), fun id he => h.mem id (hevent ▸ he), h.lt_next,
      hevent ▸ h.tracks, fun hr => hevent.trans (h.suspended (hremaining ▸ hr))⟩
  | disarmed hq remaining =>
    rw [number?_eq_none hq, Option.toList_none, List.append_nil]
    have hfewer := h.named.fewer h.sound
    exact ⟨hfewer.sound, hfewer.size ▸ h.size_le, nofun, nofun, fun uid hu => hfewer.nextUid ▸ h.lt_next uid hu,
      h.tracks_disarmed, fun _ => rfl⟩
  | armed hq ha ht hc =>
    rw [number?_armed hq, Option.toList_some]
    refine h.armed ?_ room
    rcases Simulator.schedule_eq_ok hc with ⟨e, he, -⟩ | ⟨-, hdelay, -⟩
    · cases he
    · have := x.sim.config.resolution.quantize_nonneg hdelay
      omega

/-- A request leads to the one system that it is answered with. -/
theorem Kept.effect_of_exec (h : Kept uids x) {ω : Type} {handle : Handler α ω} {w w' : ω} {t : Timer α} {s : Simulator α}
    (he : (q.program x.timer).exec handle x.sim w = .ok (.ok (result, t), s, w')) : Effect x q result ⟨s, t⟩ := by
  obtain ⟨result', y, heffect, hanswers⟩ := h.named.exists_effect h.sound q
  cases he.symm.trans (hanswers handle w)
  exact heffect

theorem Kept.step {m : Moment α} (h : Kept uids x) (hm : Step x m) (room : m.state.sim.pending ≤ Simulator.destroySlot) :
    Kept (uids ++ m.number?.toList) m.state := by
  cases hm with
  | requested he => exact h.effect (h.effect_of_exec he) room
  | other hs =>
    change Kept (uids ++ []) _
    rw [List.append_nil]
    exact h.other hs room

theorem numbers_cons (m : Moment α) (ms : List (Moment α)) : numbers (m :: ms) = m.number?.toList ++ numbers ms :=
  filterMap_cons_eq_append _ m ms

theorem Kept.path {ms : List (Moment α)} (h : Kept uids x) (hp : Path x ms y)
    (room : ∀ m ∈ ms, m.state.sim.pending ≤ Simulator.destroySlot) : Kept (uids ++ numbers ms) y := by
  induction hp generalizing uids with
  | nil => simpa [numbers] using h
  | @cons x y m ms hm _ ih =>
    have hy := ih (h.step hm (room m List.mem_cons_self)) fun n hn => room n (List.mem_cons_of_mem _ hn)
    rwa [List.append_assoc, ← numbers_cons] at hy

/-! ## The simulator's history -/

theorem began_cons (m : Moment α) (ms : List (Moment α)) : began (m :: ms) = m.deed.began?.toList ++ began ms :=
  filterMap_cons_eq_append _ m ms

/-- Cancelling the timer's event is a request to the simulator. -/
theorem Named.path (h : Named x) : ∃ ns, Simulator.Path x.sim ns x.disarmed ∧ executed ns = [] := by
  unfold System.disarmed
  cases he : x.timer.event with
  | none => exact ⟨[], .nil _, rfl⟩
  | some id =>
    obtain ⟨answer, s', hc⟩ := (h id he).1.cancel_eq
    rw [withdraw_of_cancel hc]
    exact ⟨_, .single (.called (c := .cancel id) hc), rfl⟩

theorem Kept.path_of_effect (h : Kept uids x) (he : Effect x q result y) :
    ∃ ns, Simulator.Path x.sim ns y.sim ∧ executed ns = [] := by
  obtain ⟨ns, hp, hnone⟩ := h.named.path
  cases he with
  | untouched => exact ⟨[], .nil _, rfl⟩
  | disarmed => exact ⟨ns, hp, hnone⟩
  | armed hq ha ht hc =>
    refine ⟨_, hp.append (.single (.called hc)), ?_⟩
    rw [executed_append, hnone]
    rfl

/-- On the simulator the history of a timer is a path at which the same events begin. -/
theorem Path.sim {ms : List (Moment α)} (hp : Path x ms y) (h : Kept uids x)
    (room : ∀ m ∈ ms, m.state.sim.pending ≤ Simulator.destroySlot) :
    ∃ ns, Simulator.Path x.sim ns y.sim ∧ executed ns = began ms := by
  induction hp generalizing uids with
  | nil => exact ⟨[], .nil _, rfl⟩
  | @cons x y m ms hm _ ih =>
    obtain ⟨ns, hns, hbegan⟩ := ih (h.step hm (room m List.mem_cons_self)) fun n hn => room n (List.mem_cons_of_mem _ hn)
    cases hm with
    | requested he =>
      obtain ⟨ns', hns', hnone⟩ := h.path_of_effect (h.effect_of_exec he)
      refine ⟨ns' ++ ns, hns'.append hns, ?_⟩
      rw [executed_append, hnone, hbegan]
      rfl
    | @other d s hs =>
      refine ⟨⟨d, s⟩ :: ns, .cons hs hns, ?_⟩
      rw [executed_cons, began_cons, hbegan]
      rfl

end Kept

end SimKernel.Timer
