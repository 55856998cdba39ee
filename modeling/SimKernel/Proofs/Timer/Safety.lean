import SimKernel.Proofs.Timer.History

/-!
# Timers are safe

A timer that runs has one pending event, and otherwise it has none (`Kept.pendingOf_eq`). Each time it is armed, the event
begins at most once from then on, and exactly at the point for which the timer was armed; after the timer was cancelled,
suspended, or armed again it does not begin any more (`FiresAtMostOnce`). When a teardown forgets the event, the timer is
expired, and cancelling it does nothing (`Kept.disarmed_of_expired`). `safe_of_path` puts this together.
-/

namespace SimKernel.Timer

variable {α : Type}

/-- The number of pending events that have one of the numbers. -/
def pendingOf (uids : List Nat) (s : Simulator α) : Nat := s.slots.records.countP fun r => r.uid ∈ uids

/-- In the course of the moments the event with the number begins at most once, at the point and with the action, and not
after the timer was disarmed. -/
structure FiresAtMostOnce (uid : Nat) (a : α) (point : Time) (ns : List (Moment α)) : Prop where
  once : ((began ns).map EventRecord.uid).count uid ≤ 1
  exact : ∀ n ∈ ns, ∀ r, n.deed.began? = some r → r.uid = uid → r.action = .perform a ∧ n.state.sim.now = point
  disarmed : ∀ pre n post, ns = pre ++ n :: post → n.deed.Disarms → ∀ r ∈ began post, r.uid ≠ uid

section Safety

variable {uids : List Nat} {x y z : System α} {ns : List (Moment α)}

/-! ## One pending event -/

theorem pendingOf_eq_zero {s : Simulator α} (h : ∀ slot r, s.slots.record? slot = some r → r.uid ∉ uids) :
    pendingOf uids s = 0 := by
  refine List.countP_eq_zero.2 fun r hr => ?_
  obtain ⟨slot, hr⟩ := EventSlots.mem_records_iff.1 hr
  simpa using h slot r hr

/-- Numbers of pending events are all different. -/
theorem pendingOf_eq_one {s : Simulator α} (hs : s.Sound) {r : EventRecord (Action α)} (hr : s.Pends r) (hu : r.uid ∈ uids)
    (h : ∀ r', s.Pends r' → r'.uid ∈ uids → r'.uid = r.uid) : pendingOf uids s = 1 := by
  have hmem : r.uid ∈ s.slots.records.map EventRecord.uid := List.mem_map_of_mem (EventSlots.mem_records_iff.2 hr)
  rw [← List.count_eq_one_of_mem hs.nodup_records hmem, List.count, List.countP_map]
  refine List.countP_congr fun r' hr' => ?_
  have hr' := EventSlots.mem_records_iff.1 hr'
  simp only [decide_eq_true_eq, Function.comp, beq_iff_eq]
  exact ⟨h r' hr', fun he => he ▸ hu⟩

theorem Kept.pendingOf_eq (h : Kept uids x) : pendingOf uids x.sim = if x.state = .running then 1 else 0 := by
  have htracks := h.tracks
  cases he : x.timer.event with
  | none =>
    rw [he] at htracks
    have hstate : x.state ≠ .running := by
      unfold System.state
      cases x.timer.remaining <;> simp [he]
    rw [if_neg hstate]
    exact pendingOf_eq_zero fun slot r hr hu => nomatch htracks slot r hr hu
  | some id =>
    rw [he] at htracks
    have hremaining : x.timer.remaining = none := by
      cases hr : x.timer.remaining with
      | none => rfl
      | some d => cases he.symm.trans (h.suspended (by rw [hr]; rfl))
    cases hg : x.sim.slots.get? id.slot id.uid with
    | none =>
      have hstate : x.state = .expired := by simp [System.state, hremaining, he, hg]
      rw [hstate, if_neg nofun]
      refine pendingOf_eq_zero fun slot r hr hu => ?_
      cases htracks slot r hr hu
      cases hg.symm.trans (EventSlots.get?_eq_some_iff.2 ⟨hr, rfl⟩)
    | some r =>
      have hstate : x.state = .running := by simp [System.state, hremaining, he, hg]
      obtain ⟨hr, hru⟩ := EventSlots.get?_eq_some_iff.1 hg
      rw [hstate, if_pos rfl]
      refine pendingOf_eq_one h.sound ⟨_, hr⟩ (hru ▸ h.mem id he) fun r' ⟨slot', hr'⟩ hu' => ?_
      cases htracks slot' r' hr' hu'
      exact hru.symm

/-! ## One invocation at most -/

/-- Disarming takes the timer's event away, and events added then have other numbers. -/
theorem Kept.gone_of_disarms (h : Kept uids x) {m : Moment α} (hm : Step x m) (hd : m.deed.Disarms) {uid : Nat}
    (hu : uid ∈ uids) : Simulator.Only uid (fun _ => False) m.state.sim := by
  have hfewer := h.named.fewer h.sound
  have hnone := h.tracks_disarmed
  rintro r ⟨slot, hr⟩ rfl
  cases hm with
  | other => exact hd
  | requested he =>
    obtain ⟨hq, rfl⟩ := hd
    cases h.effect_of_exec he with
    | untouched hq' => exact hq' hq rfl
    | disarmed => exact nomatch hnone slot r hr hu
    | armed =>
      rcases hfewer.sound.record?_of_step (.called ‹_›) hr with hr | ⟨-, hnew⟩
      · exact nomatch hnone slot r hr hu
      · have := h.lt_next r.uid hu
        have := hfewer.nextUid
        omega

/-- What holds of the pending events with a number that was given out holds of those that are pending or begin later. -/
theorem Path.only (hp : Path x ns z) (h : Kept uids x) (room : ∀ n ∈ ns, n.state.sim.pending ≤ Simulator.destroySlot)
    {uid : Nat} (hu : uid ∈ uids) {P : EventRecord (Action α) → Prop} (hP : Simulator.Only uid P x.sim) :
    Simulator.Only uid P z.sim ∧ ∀ r ∈ began ns, r.uid = uid → P r := by
  obtain ⟨ms, hms, hbegan⟩ := hp.sim h room
  rw [← hbegan]
  exact hms.only h.sound (h.lt_next uid hu) hP

theorem Kept.firesAtMostOnce (h : Kept uids x) {uid : Nat} (hu : uid ∈ uids) {a : α} {point : Time}
    (hP : Simulator.Only uid (fun r => r.action = .perform a ∧ r.time = point) x.sim) (hp : Path x ns z)
    (room : ∀ n ∈ ns, n.state.sim.pending ≤ Simulator.destroySlot) (hnodup : ((began ns).map EventRecord.uid).Nodup) :
    FiresAtMostOnce uid a point ns where
  once := List.nodup_iff_count_le_one.1 hnodup uid
  exact n hn r hr hru := by
    obtain ⟨pre, post, rfl⟩ := List.append_of_mem hn
    obtain ⟨u, hpre, hstep, -⟩ := hp.split
    have hroom : ∀ k ∈ pre, k.state.sim.pending ≤ Simulator.destroySlot := fun k hk => room k (List.mem_append_left _ hk)
    have hbefore := (hpre.only h hroom hu hP).1
    cases hstep with
    | requested => cases hr
    | @other d s hs =>
      cases d with
      | began r' =>
        cases hr
        obtain ⟨hnow, -, -, -, slot, hpending, -⟩ := (h.path hpre hroom).sound.step_began hs
        obtain ⟨ha, ht⟩ := hbefore _ ⟨slot, hpending⟩ hru
        exact ⟨ha, hnow.trans ht⟩
      | _ => cases hr
  disarmed pre n post he hd r hr hru := by
    subst he
    obtain ⟨u, hpre, hstep, hpost⟩ := hp.split
    have hroom : ∀ k ∈ pre, k.state.sim.pending ≤ Simulator.destroySlot := fun k hk => room k (List.mem_append_left _ hk)
    have hmem {k} (hk : k ∈ n :: post) : k ∈ pre ++ n :: post := List.mem_append_right _ hk
    have hu' : uid ∈ uids ++ numbers pre := List.mem_append_left _ hu
    have hkept := h.path hpre hroom
    have hgone := hkept.gone_of_disarms hstep hd hu'
    exact (hpost.only (hkept.step hstep (room n (hmem List.mem_cons_self)))
      (fun k hk => room k (hmem (List.mem_cons_of_mem _ hk))) (List.mem_append_left _ hu') hgone).2 r hr hru

/-- Arming adds one event that is due at the point, and the timer is running. -/
theorem Kept.of_arms (h : Kept uids x) {m : Moment α} (hm : Step x m) (hd : m.deed.Arms)
    (room : m.state.sim.pending ≤ Simulator.destroySlot) :
    ∃ (q : Request α) (a : α) (delay point : Time) (id : EventId), m.deed = .requested q (.ok ()) ∧
      q.delay? x.timer = some delay ∧ x.timer.callback = some a ∧
      point.femtos = x.sim.now.femtos + (x.sim.config.resolution.quantize delay).femtos ∧
      m.state.timer.event = some id ∧ m.state.state = .running ∧ m.number? = some id.uid ∧
      Simulator.Only id.uid (fun r => r.action = .perform a ∧ r.time = point) m.state.sim := by
  have hkept := h.step hm room
  cases hm with
  | other => exact hd.elim
  | requested he =>
    obtain ⟨hq, rfl⟩ := hd
    cases h.effect_of_exec he with
    | untouched hq' => exact absurd rfl (hq' (Request.disarms_of_arms hq))
    | disarmed hq' => exact absurd rfl (hq' hq)
    | @armed a delay time hdelay ha ht _ =>
      have hnew := h.named.record?_armed h.sound a time
      refine ⟨_, a, delay, time, _, rfl, hdelay, ha, ht, event_armed x a time, ?_, number?_armed hdelay, ?_⟩
      · have hg : (x.armed a time).sim.slots.get? x.disarmed.slots.nextSlot x.disarmed.nextUid = some _ :=
          EventSlots.get?_eq_some_iff.2 ⟨hnew, rfl⟩
        change (x.armed a time).state = .running
        have hremaining : (x.armed a time).timer.remaining = none := rfl
        simp only [System.state, hremaining, event_armed, hg, Option.isSome_some, if_true]
      · intro r ⟨slot, hr⟩ hu
        obtain ⟨-, rfl⟩ := hkept.sound.slot_unique hr hnew hu
        exact ⟨rfl, rfl⟩

/-- Events that begin in the course of a history have different numbers. -/
theorem Path.nodup_began {owner : Nat} {config : Config} {delay : Time}
    (hp : Path ⟨Simulator.ofConfig owner config, { delay }⟩ ns y)
    (room : ∀ n ∈ ns, n.state.sim.pending ≤ Simulator.destroySlot) : ((began ns).map EventRecord.uid).Nodup := by
  obtain ⟨ms, hms, hbegan⟩ := hp.sim (kept_ofConfig owner config delay) room
  rw [← hbegan]
  exact (hms.ran (Simulator.ran_ofConfig owner config)).nodup

/-! ## Teardowns -/

/-- A timer that is not asked for anything stays as it is. -/
theorem Path.timer_eq (hp : Path x ns z) (h : ∀ n ∈ ns, ∃ d, n.deed = .other d) : z.timer = x.timer := by
  induction hp with
  | nil => rfl
  | @cons x z m ns hm _ ih =>
    rw [ih fun n hn => h n (List.mem_cons_of_mem _ hn)]
    cases hm with
    | requested =>
      obtain ⟨d, hd⟩ := h _ List.mem_cons_self
      cases hd
    | other => rfl

/-- Cancelling an expired timer does nothing to the simulator. -/
theorem Kept.disarmed_of_expired (h : Kept uids x) (hx : x.state = .expired) : x.disarmed = x.sim := by
  unfold System.disarmed
  cases he : x.timer.event with
  | none => rfl
  | some id =>
    obtain ⟨hid, hslot⟩ := h.named id he
    obtain ⟨answer, s', hc⟩ := hid.cancel_eq
    rw [withdraw_of_cancel hc]
    rcases Simulator.cancel_eq_ok hc with ⟨-, rfl, -⟩ | ⟨e, -, hd, -⟩ | ⟨r, slots, -, ht, -⟩
    · rfl
    · exact absurd hd hslot
    · -- The event would be pending, and the timer running.
      obtain ⟨hg, -⟩ := EventSlots.take?_eq_some h.sound.slots ht
      unfold System.state at hx
      cases hr : x.timer.remaining <;> simp [hr, he, hg] at hx

/-- A running timer whose event is not pending any more is expired, until it is asked for something. -/
theorem Kept.expired_of_cleared (h : Kept uids x) (hx : x.state = .running) {s : Simulator α}
    (hs : x.sim.Step ⟨.cleared, s⟩) (hp : Path ⟨s, x.timer⟩ ns z) (hns : ∀ n ∈ ns, ∃ d, n.deed = .other d)
    (room : ∀ n ∈ ns, n.state.sim.pending ≤ Simulator.destroySlot) : z.state = .expired := by
  have hempty : ∀ slot, s.slots.record? slot = none := by
    cases hs
    exact EventSlots.record?_empty
  have hpending : s.pending ≤ Simulator.destroySlot := by
    cases hs
    exact Nat.zero_le _
  have hkept := h.other hs hpending
  have htimer := hp.timer_eq hns
  unfold System.state at hx ⊢
  rw [htimer]
  cases hr : x.timer.remaining with
  | some d => rw [hr] at hx; cases hx
  | none =>
    cases he : x.timer.event with
    | none => rfl
    | some id =>
      have hgone : Simulator.Only id.uid (fun _ => False) s := fun r ⟨slot, hr⟩ _ => nomatch (hempty slot).symm.trans hr
      have hnone : z.sim.slots.get? id.slot id.uid = none := by
        rw [Option.eq_none_iff_forall_ne_some]
        intro r hg
        obtain ⟨hr, hu⟩ := EventSlots.get?_eq_some_iff.1 hg
        exact (hp.only hkept room (h.mem id he) hgone).1 r ⟨_, hr⟩ hu
      simp [hnone]

end Safety

/-! ## Every history -/

theorem System.Shows.eq {x : System α} {st st' : TimerState} (h : x.Shows st) (h' : x.Shows st') : st = st' := by
  cases (h Handler.refuse ()).symm.trans (h' Handler.refuse ())
  rfl

/-- **Timers are safe.** Let a history of a new timer and a new simulator never have more events pending than there are names
of slots. Then one event with which the timer was armed is pending if the timer is running, and none if it is expired or
suspended, and every request to it is answered. If it is armed next, it is running, and the event with which it was armed
begins at most once from then on, to perform the callback, when the clock stands at the point that lies the whole ticks of
the delay ahead; it does not begin after the timer was cancelled, suspended, or armed again. If a teardown forgets the
events of a running timer, the timer is expired until it is asked for something, and cancelling it changes nothing. -/
theorem safe_of_path {owner : Nat} {config : Config} {delay : Time} {ms : List (Moment α)} {y : System α}
    (hp : Path ⟨Simulator.ofConfig owner config, { delay }⟩ ms y)
    (room : ∀ m ∈ ms, m.state.sim.pending ≤ Simulator.destroySlot) :
    (∃ st, y.Shows st ∧ pendingOf (numbers ms) y.sim = if st = .running then 1 else 0) ∧
    (∀ q, ∃ result z, y.Answers q result z) ∧
    ∀ m ns z, Step y m → Path m.state ns z → (∀ n ∈ m :: ns, n.state.sim.pending ≤ Simulator.destroySlot) →
      (m.deed.Arms → ∃ (q : Request α) (a : α) (d point : Time) (id : EventId), m.deed = .requested q (.ok ()) ∧
        q.delay? y.timer = some d ∧ y.timer.callback = some a ∧
        point.femtos = y.sim.now.femtos + (y.sim.config.resolution.quantize d).femtos ∧
        m.state.timer.event = some id ∧ m.state.Shows .running ∧ FiresAtMostOnce id.uid a point ns) ∧
      (m.deed = .other .cleared → y.Shows .running → (∀ n ∈ ns, ∃ d, n.deed = .other d) →
        z.Shows .expired ∧
          z.Answers .cancel (.ok ()) ⟨z.sim, { z.timer with event := none, remaining := none }⟩) := by
  have hy : Kept (numbers ms) y := (kept_ofConfig owner config delay).path hp room
  refine ⟨⟨y.state, hy.named.shows, hy.pendingOf_eq⟩, ?_, ?_⟩
  · intro q
    obtain ⟨result, z, -, hanswers⟩ := hy.named.exists_effect hy.sound q
    exact ⟨result, z, hanswers⟩
  intro m ns z hm hns hroom
  have hroom' : ∀ n ∈ ns, n.state.sim.pending ≤ Simulator.destroySlot := fun n hn => hroom n (List.mem_cons_of_mem _ hn)
  have hkept := hy.step hm (hroom m List.mem_cons_self)
  constructor
  · intro hd
    obtain ⟨q, a, d, point, id, hq, hdelay, ha, hpoint, hevent, hstate, hnumber, honly⟩ :=
      hy.of_arms hm hd (hroom m List.mem_cons_self)
    rw [hnumber, Option.toList_some] at hkept
    have hnodup : ((began (ms ++ m :: ns)).map EventRecord.uid).Nodup := by
      refine (hp.append (.cons hm hns)).nodup_began fun n hn => ?_
      rcases List.mem_append.1 hn with hn | hn
      · exact room n hn
      · exact hroom n hn
    have hsub : (began ns).Sublist (began (ms ++ m :: ns)) :=
      ((List.sublist_cons_self m ns).trans (List.sublist_append_right ms _)).filterMap _
    exact ⟨q, a, d, point, id, hq, hdelay, ha, hpoint, hevent, hstate ▸ hkept.named.shows,
      hkept.firesAtMostOnce (List.mem_append_right _ List.mem_cons_self) honly hns hroom' (hnodup.sublist (hsub.map _))⟩
  · intro hd hrunning hother
    have hstate : y.state = .running := System.Shows.eq hy.named.shows hrunning
    cases hm with
    | requested => cases hd
    | @other d s hs =>
      cases hd
      have hz := hkept.path hns hroom'
      have hexpired := hy.expired_of_cleared hstate hs hns hother hroom'
      refine ⟨hexpired ▸ hz.named.shows, fun handle w => ?_⟩
      simp only [Request.program, Program.exec_bind, hz.named.exec_cancel, hz.disarmed_of_expired hexpired]
      rfl

/-- The system after the request, if it is granted. -/
def ask? (q : Request Nat) (x : System Nat) : Option (System Nat) :=
  match (q.program x.timer).exec Handler.refuse x.sim () with
  | .ok (.ok (.ok (), t), s, _) => some ⟨s, t⟩
  | _ => none

theorem step_of_ask? {q : Request Nat} {x y : System Nat} (h : ask? q x = some y) : Step x ⟨.requested q (.ok ()), y⟩ := by
  unfold ask? at h
  split at h
  case h_1 t s w he => cases h; exact .requested he
  case h_2 => cases h

/-- A timer that is armed, suspended and resumed fires once, unless the simulator is torn down before. -/
theorem safe_of_path_suspendedOnce : ∃ (x y : System Nat) (ms : List (Moment Nat)) (n : Moment Nat) (id : EventId)
    (point : Time), Path ⟨Simulator.ofConfig 0 {}, {}⟩ ms x ∧
      ms.map Moment.deed = [.requested (.setFunction 7) (.ok ()),
        .requested (.armAfter ⟨10_000_000, by decide, by decide⟩) (.ok ()), .requested .suspend (.ok ())] ∧
      x.state = .suspended ∧ pendingOf (numbers ms) x.sim = 0 ∧
      Step x ⟨.requested .resume (.ok ()), y⟩ ∧ y.Shows .running ∧ y.timer.event = some id ∧
      (Step y n ∧ n.deed.began?.map EventRecord.action = some (.perform 7) ∧ FiresAtMostOnce id.uid 7 point [n]) ∧
      ∃ z, Step y ⟨.other .cleared, z⟩ ∧ z.Shows .expired := by
  have hrun : ((ask? (.setFunction 7) ⟨Simulator.ofConfig 0 {}, {}⟩).bind fun a =>
      (ask? (.armAfter ⟨10_000_000, by decide, by decide⟩) a).bind fun b => (ask? .suspend b).bind fun x =>
        (ask? .resume x).map fun (y : System Nat) =>
          (decide (∀ s ∈ [a.sim, b.sim, x.sim, y.sim, y.sim.nextEvent.2], s.pending ≤ Simulator.destroySlot), x.state,
            x.timer.callback, y.sim.nextEvent.1.map EventRecord.action)) =
      some (true, .suspended, some 7, some (.perform 7)) := by
    decide +kernel
  obtain ⟨a, ha, hrun⟩ := Option.bind_eq_some_iff.1 hrun
  obtain ⟨b, hb, hrun⟩ := Option.bind_eq_some_iff.1 hrun
  obtain ⟨x, hx, hrun⟩ := Option.bind_eq_some_iff.1 hrun
  obtain ⟨y, hy, hrun⟩ := Option.map_eq_some_iff.1 hrun
  simp only [Prod.mk.injEq, decide_eq_true_eq, List.forall_mem_cons] at hrun
  obtain ⟨⟨hrooma, hroomb, hroomx, hroomy, hroomn, -⟩, hstate, hcallback, hnext⟩ := hrun
  obtain ⟨ms, hms, hp, hroom⟩ : ∃ ms : List (Moment Nat), ms.map Moment.deed = [.requested (.setFunction 7) (.ok ()),
      .requested (.armAfter ⟨10_000_000, by decide, by decide⟩) (.ok ()), .requested .suspend (.ok ())] ∧
      Path ⟨Simulator.ofConfig 0 {}, {}⟩ ms x ∧ ∀ m ∈ ms, m.state.sim.pending ≤ Simulator.destroySlot :=
    ⟨_, rfl, .cons (step_of_ask? ha) (.cons (step_of_ask? hb) (.cons (step_of_ask? hx) (.nil x))),
      by simp [hrooma, hroomb, hroomx]⟩
  have hm := step_of_ask? hy
  have hkept := (kept_ofConfig 0 {} Time.zero).path hp hroom
  have hsound := (hkept.step hm hroomy).sound
  -- The event is due next.
  obtain ⟨r, hr, hperform⟩ := Option.map_eq_some_iff.1 hnext
  obtain ⟨s, hs⟩ := hsound.advance (Prod.ext hr rfl)
  have hn : Step y ⟨.other (.began r), s, y.timer⟩ := .other (.began (Prod.ext hr rfl) hs)
  have hrooms : s.pending ≤ Simulator.destroySlot := by
    obtain ⟨-, rfl⟩ := Simulator.advance_eq_ok hs
    exact hroomn
  obtain ⟨z, hcleared, hroomz⟩ : ∃ z, Step y ⟨.other .cleared, z⟩ ∧ z.sim.pending ≤ Simulator.destroySlot :=
    ⟨_, .other .cleared, Nat.zero_le _⟩
  obtain ⟨⟨st, hshows, hpending⟩, -, hsafe⟩ := safe_of_path hp hroom
  cases hshows.eq hkept.named.shows
  obtain ⟨q, d, delay, point, id, hq, -, hd, -, hevent, hrunning, honce⟩ :=
    (hsafe _ _ _ hm (.cons hn (.nil _)) (by simp [hroomy, hrooms])).1 ⟨rfl, rfl⟩
  cases hcallback.symm.trans hd
  obtain ⟨-, -, hsafe'⟩ := safe_of_path (hp.append (.cons hm (.nil _)))
    (List.forall_mem_append.2 ⟨hroom, List.forall_mem_singleton.2 hroomy⟩)
  have hexpired := (hsafe' _ _ _ hcleared (.nil _) (List.forall_mem_singleton.2 hroomz)).2 rfl hrunning
    fun _ h => absurd h List.not_mem_nil
  exact ⟨x, y, ms, _, id, point, hp, hms, hstate, hpending.trans (by rw [hstate]; rfl), hm, hrunning, hevent,
    ⟨hn, congrArg _ hperform, honce⟩, z, hcleared, hexpired.1⟩

end SimKernel.Timer
