import SimKernel.Proofs.Simulator.Scheduling
import SimKernel.Proofs.Simulator.StopTime

/-!
# Whole ticks

Only delays are cut down to whole ticks, never the times that they lead to. Since the clock starts at zero and moves from
one event to the next, it stands at a whole tick all the same, and all events are due at one (`Aligned`). So it makes no
difference whether an event is asked for after a delay or at the time that the delay leads to (`Ticking`): it is due at
the whole ticks of the instant asked for (`Aligned.adds_of_schedules`).

Events of one tick are executed in the order of their numbers, which is the one in which they were scheduled
(`ticks_history`).
-/

namespace SimKernel

variable {α : Type}

/-- The instant for which a call asks for an event, in femtoseconds. -/
def Call.instant? (now : Time) : Call α → Option Int
  | schedule delay _ | scheduleIn _ delay _ | stopAfter delay => some (now.femtos + delay.femtos)
  | scheduleAt time _ | stopAt time => some time.femtos
  | scheduleNow _ => some now.femtos
  | scheduleDestroy _ | cancel _ | stop | setRng _ => none

/-- At the moment an event was scheduled that had been asked for at the instant. -/
def Moment.Schedules (m : Moment α) (id : EventId) (instant : Int) : Prop :=
  m.deed.named? = some id ∧ ∃ c answer, m.deed = .called c answer ∧ c.instant? m.state.now = some instant

/-- In a list in which things come in a strict order, the lesser of two comes first. -/
theorem pair_sublist {β : Type} {R : β → β → Prop} (hR : ∀ {a b}, R a b → ¬ R b a) {l : List β} (hl : l.Pairwise R) {a b : β}
    (ha : a ∈ l) (hb : b ∈ l) (hab : R a b) : [a, b].Sublist l := by
  obtain ⟨xs, ys, rfl⟩ := List.append_of_mem hb
  obtain ⟨-, hys, -⟩ := List.pairwise_append.1 hl
  rcases List.mem_append.1 ha with ha | ha
  · exact (List.singleton_sublist.2 ha).append (List.singleton_sublist.2 List.mem_cons_self)
  · rcases List.mem_cons.1 ha with rfl | ha
    · exact absurd hab (hR hab)
    · exact absurd ((List.pairwise_cons.1 hys).1 a ha) (hR hab)

namespace Simulator

variable {s s' t : Simulator α} {id : EventId} {m : Moment α}

/-- What holds of a simulator whose events are due at whole ticks. -/
structure Ticking (s : Simulator α) : Prop where
  aligned : s.Aligned
  /-- Asking for an event at a time is asking for it after the delay that leads there. -/
  agrees : ∀ (time : Time) (a : α), s.now ≤ time → ∃ delay id s', delay.femtos = time.femtos - s.now.femtos ∧
    (Call.scheduleAt time a).perform s = .ok (.ok id, s') ∧ (Call.schedule delay a).perform s = .ok (.ok id, s') ∧
    Adds s (s.config.resolution.quantize time).femtos s.context (.perform a) id s'
  /-- The time until an event runs is a number of whole ticks. -/
  left : ∀ id, s.Issued id → ∃ d, s.delayLeft id = .ok d ∧ (s.config.resolution.unit.femtos : Int) ∣ d.femtos ∧
    ∀ r, id.slot ≠ destroySlot → s.slots.get? id.slot id.uid = some r → d.femtos = r.time.femtos - s.now.femtos

theorem Aligned.ticking (ha : s.Aligned) (hs : s.Sound) : s.Ticking where
  aligned := ha
  agrees time a hle := by
    have hat := scheduleAt_of_le hs ha hle (.perform a)
    obtain ⟨delay, hd, hin⟩ := Outcome.bind_eq_ok_iff.1 hat
    refine ⟨delay, _, _, Time.sub_eq_ok_iff.1 hd, ?_, ?_,
      hs.adds_insert (s.config.resolution.quantize time) s.context (.perform a)⟩
    · simp only [Call.perform, hat]
      rfl
    · simp only [Call.perform, Except.ok.inj hin]
      rfl
  left id hid := by
    by_cases hslot : id.slot = destroySlot
    · exact ⟨_, hid.delayLeft_of_none (.inl hslot), Int.dvd_zero _, fun _ hne => absurd hslot hne⟩
    cases hg : s.slots.get? id.slot id.uid with
    | none =>
      exact ⟨_, hid.delayLeft_of_none (.inr hg), Int.dvd_zero _, fun _ _ h => absurd h.symm (Option.some_ne_none _)⟩
    | some r =>
      obtain ⟨d, hd, he⟩ := hid.delayLeft_of_get? hs hslot hg
      have hdue := ha.due r ⟨_, (EventSlots.get?_eq_some_iff.1 hg).1⟩
      refine ⟨d, hd, he ▸ Int.dvd_sub hdue ha.now, ?_⟩
      rintro _ - ⟨⟩
      exact he

/-! ## When an event is due -/

theorem Decision.adds {span : Int} {context : ContextId} {action : Action α}
    {x : Except Fault (Except SimError EventId × Simulator α)} (h : Decision s span context action x)
    {answer : Except SimError EventId} (hx : x = .ok (answer, s')) (hid : answer.toOption = some id) :
    0 ≤ span ∧ Adds s (s.now.femtos + s.config.resolution.wholeTicks span) context action id s' := by
  cases h with
  | faulted => cases hx
  | past | late => cases hx; cases hid
  | added h _ ha => cases hx; cases hid; exact ⟨h, ha⟩

/-- An event is due at the whole ticks of the instant for which it was asked. -/
theorem Aligned.adds_of_schedules (ha : s.Aligned) (hs : s.Sound) (hstep : s.Step m) {instant : Int}
    (hm : m.Schedules id instant) :
    ∃ context action, Adds s (s.config.resolution.wholeTicks instant) context action id m.state := by
  obtain ⟨hid, c, answer, hd, hinstant⟩ := hm
  cases hstep with
  | @called c' _ s' hc =>
    obtain ⟨rfl, -⟩ := Deed.called.inj hd
    cases c' with
    | schedule | scheduleIn | stopAfter =>
      obtain ⟨hspan, hadds⟩ := (decision_scheduleIn hs _ _ _).adds hc hid
      rw [← Resolution.wholeTicks_add hs.now_nonneg ha.now hspan] at hadds
      have hnow : s'.now = s.now := hadds.now
      cases hinstant
      exact ⟨_, _, hnow ▸ hadds⟩
    | scheduleAt | stopAt =>
      obtain ⟨hspan, hadds⟩ := (decision_scheduleAt hs _ _).adds hc hid
      rw [← Resolution.wholeTicks_add hs.now_nonneg ha.now hspan, Int.add_comm, Int.sub_add_cancel] at hadds
      cases hinstant
      exact ⟨_, _, hadds⟩
    | scheduleNow a =>
      cases hc
      cases hid
      cases hinstant
      have hnow : s.config.resolution.wholeTicks s.now.femtos = s.now.femtos := Int.tdiv_mul_cancel ha.now
      exact ⟨_, _, hnow.symm ▸ hs.adds_insert s.now s.context (.perform a)⟩
    | scheduleDestroy | cancel | stop | setRng => cases hinstant
  | _ => cases hd

/-- The event that was added is the only one with its number. -/
theorem Adds.only {femtos : Int} {context : ContextId} {action : Action α} (h : Adds s femtos context action id s')
    (hs : s'.Sound) : Only id.uid (fun r => r.time.femtos = femtos) s' := by
  obtain ⟨time, ht, htable⟩ := h.table
  intro r ⟨slot, hr⟩ hu
  have hnew := htable id.slot
  rw [if_pos rfl] at hnew
  rw [(hs.slot_unique hr hnew hu).2]
  exact ht

/-- An event that is executed at any time is due at the whole ticks of the instant for which it was asked. -/
theorem Path.time_of_executed {owner : Nat} {config : Config} {ms ns : List (Moment α)}
    (hp : Path (ofConfig owner config) (ms ++ m :: ns) t) {instant : Int} (hm : m.Schedules id instant)
    {r : EventRecord (Action α)} (hr : r ∈ executed (ms ++ m :: ns)) (hu : r.uid = id.uid) :
    r.time.femtos = config.resolution.wholeTicks instant := by
  obtain ⟨u, hpast, hstep, hrest⟩ := hp.split
  obtain ⟨hs, ha, rfl⟩ := hpast.kept.1
  obtain ⟨context, action, hadds⟩ := ha.adds_of_schedules hs hstep hm
  obtain ⟨-, c, answer, hd, -⟩ := hm
  rw [executed_append, executed_cons_of_none (by rw [hd]; rfl)] at hr
  rcases List.mem_append.1 hr with hr | hr
  · -- Events that were executed before have lesser numbers.
    have hlt := ((hpast.ran (ran_ofConfig owner u.config)).past r hr).2
    rw [hu, hadds.uid] at hlt
    exact absurd hlt (Nat.lt_irrefl _)
  · have hs' := Sound.step u m hs hstep
    have hlt : id.uid < m.state.nextUid := by
      rw [hadds.uid, hadds.nextUid]
      exact Nat.lt_succ_self _
    exact (hrest.only hs' hlt (hadds.only hs')).2 r hr hu

/-! ## Every history -/

/-- **Whole ticks.** At every moment of a history the clock and all pending events stand at whole ticks, asking for an event
at a time that is not past agrees with asking for it after a delay, and the time until an event runs is a number of whole
ticks. Events are due at the whole ticks of the instants for which they were asked, and those due at the same tick are
executed in the order in which they were scheduled. -/
theorem ticks_history {ω ρ : Type} (owner : Nat) (config : Config) (meaning : Meaning α ω) (fuel : Nat)
    (p : Program α ω ρ) (w : ω) :
    let h := history meaning fuel p (ofConfig owner config) w
    (∀ m ∈ h, m.state.config = config ∧ m.state.Ticking) ∧
    ∀ ms m ns n os id id' instant instant', h = ms ++ m :: (ns ++ n :: os) →
      m.Schedules id instant → n.Schedules id' instant' →
      ∀ r ∈ executed h, ∀ r' ∈ executed h, r.uid = id.uid → r'.uid = id'.uid →
        r.time.femtos = config.resolution.wholeTicks instant ∧
        r'.time.femtos = config.resolution.wholeTicks instant' ∧
        (config.resolution.wholeTicks instant = config.resolution.wholeTicks instant' → [r, r'].Sublist (executed h)) := by
  intro h
  obtain ⟨t, hp, -⟩ := path_history meaning fuel p (ofConfig owner config) w
  constructor
  · intro m hm
    obtain ⟨hs, ha, hc⟩ := hp.kept.2 m hm
    exact ⟨hc, ha.ticking hs⟩
  · intro ms m ns n os id id' instant instant' he hm hn r hr r' hr' hu hu'
    have hfirst : Path (ofConfig owner config) (ms ++ m :: (ns ++ n :: os)) t := he ▸ hp
    have hsecond : Path (ofConfig owner config) ((ms ++ m :: ns) ++ n :: os) t := by simpa using hfirst
    have ht := hfirst.time_of_executed hm (he ▸ hr) hu
    have ht' := hsecond.time_of_executed hn (by simpa using he ▸ hr') hu'
    refine ⟨ht, ht', fun hsame => ?_⟩
    -- The event scheduled later has the greater number.
    obtain ⟨u, hpast, hstep, hrest⟩ := hfirst.split
    obtain ⟨hs, -⟩ := hpast.kept.1
    have hlt := ((Path.single hstep).named_lt hs).2 m List.mem_cons_self id hm.1
    have hge := (hrest.named_lt (Sound.step u m hs hstep)).2 n (List.mem_append_right _ List.mem_cons_self) id' hn.1
    have hbefore : r.before r' := .inr ⟨by rw [ht, ht', hsame], by omega⟩
    exact pair_sublist EventRecord.before_asymm (hp.ran (ran_ofConfig owner config)).order hr hr' hbefore

/-- Asks for two events in one nanosecond, the later instant first, and executes them. -/
def twoInOneNano : Program Unit Unit Unit := do
  let _ ← Program.request (.scheduleAt ⟨1_700_000, by decide, by decide⟩ ())
  let _ ← Program.request (.schedule ⟨1_200_000, by decide, by decide⟩ ())
  let _ ← Program.requestDrive .step
  let _ ← Program.requestDrive .step

theorem ticks_history_twoInOneNano :
    let h := history (fun _ => Program.done ()) 0 twoInOneNano (ofConfig 0 {}) ()
    ∃ r r', (executed h).map EventRecord.uid = [0, 1] ∧ r.uid = 0 ∧ r'.uid = 1 ∧ r.time.femtos = 1_000_000 ∧
      r'.time.femtos = 1_000_000 ∧ [r, r'].Sublist (executed h) := by
  intro h
  have huids : (executed h).map EventRecord.uid = [0, 1] := by decide +kernel
  obtain ⟨r, rest, he, hu, hrest⟩ := List.map_eq_cons_iff.1 huids
  obtain ⟨r', rest', rfl, hu', hnil⟩ := List.map_eq_cons_iff.1 hrest
  have hr : r ∈ executed h := by simp [he]
  have hr' : r' ∈ executed h := by simp [he]
  have ht := (ticks_history 0 {} (fun _ => Program.done ()) 0 twoInOneNano ()).2 [⟨.switched, _⟩] _ [] _ _ ⟨0, 0, 0⟩ ⟨1, 0, 1⟩
    1_700_000 1_200_000 rfl ⟨rfl, _, _, rfl, rfl⟩ ⟨rfl, _, _, rfl, rfl⟩ r hr r' hr' hu hu'
  exact ⟨r, r', huids, hu, hu', ht.1, ht.2.1, ht.2.2 (by decide)⟩

end Simulator

end SimKernel
