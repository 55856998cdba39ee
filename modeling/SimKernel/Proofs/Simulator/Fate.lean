import SimKernel.Proofs.Outcome
import SimKernel.Proofs.Simulator.Execution
import SimKernel.Proofs.Simulator.Table

/-!
# What becomes of a pending event

An event that is pending stays in its slot until it begins, is cancelled by its name, or is forgotten in a teardown
(`Sound.record?_after`, `Path.fate`); as long as it stays, no event begins that comes after it (`Path.began_of_pending`). All
events are due at whole ticks (`Aligned`).
-/

namespace SimKernel

variable {α : Type}

namespace Deed

/-- The number of the event that is cancelled. -/
def cancelled? : Deed α → Option Nat
  | called (.cancel id) answer => (answer : Option (Action α)).map fun _ => id.uid
  | _ => none

/-- The event with the number is cancelled. -/
def Cancels (uid : Nat) (d : Deed α) : Prop := d.cancelled? = some uid

instance (uid : Nat) (d : Deed α) : Decidable (d.Cancels uid) := inferInstanceAs (Decidable (_ = _))

/-- The event with the number begins, is cancelled, or is forgotten with all others. -/
def Ends (uid : Nat) (d : Deed α) : Prop :=
  (∃ r, d = .began r ∧ r.uid = uid) ∨ d.Cancels uid ∨ d = .cleared

end Deed

theorem EventRecord.before_asymm {β : Type} {r r' : EventRecord β} (h : r.before r') : ¬ r'.before r := by
  unfold EventRecord.before at h ⊢
  omega

/-- The whole ticks of a span, which may be longer than any time. -/
def Resolution.wholeTicks (resolution : Resolution) (span : Int) : Int :=
  span.tdiv resolution.unit.femtos * resolution.unit.femtos

theorem Resolution.dvd_quantize (resolution : Resolution) (time : Time) :
    (resolution.unit.femtos : Int) ∣ (resolution.quantize time).femtos :=
  Int.dvd_mul_left _ _

/-- The whole ticks of a span after a whole tick are the whole ticks of the sum. -/
theorem Resolution.wholeTicks_add {resolution : Resolution} {now span : Int} (hnow : 0 ≤ now)
    (hd : (resolution.unit.femtos : Int) ∣ now) (hspan : 0 ≤ span) :
    resolution.wholeTicks (now + span) = now + resolution.wholeTicks span := by
  have hpos : (0 : Int) < resolution.unit.femtos := Int.ofNat_lt.2 resolution.unit.femtos_pos
  obtain ⟨k, rfl⟩ := hd
  simp only [wholeTicks]
  rw [Int.tdiv_eq_ediv_of_nonneg (by omega), Int.tdiv_eq_ediv_of_nonneg hspan,
    Int.mul_add_ediv_left _ _ (Int.ne_of_gt hpos), Int.add_mul, Int.mul_comm k]

namespace Simulator

variable {s s' t : Simulator α} {m : Moment α} {ms : List (Moment α)} {slot : Nat} {r : EventRecord (Action α)}

/-- The event is pending. -/
def Pends (s : Simulator α) (r : EventRecord (Action α)) : Prop := ∃ slot, s.slots.record? slot = some r

/-! ## Staying pending -/

/-- Requests that are not answered with an event take none away. -/
theorem Sound.record?_of_perform (h : s.Sound) {c : Call α} {answer : c.Answer} (hc : c.perform s = .ok (answer, s'))
    (hr : s.slots.record? slot = some r) :
    s'.slots.record? slot = some r ∨ (Deed.called c answer).Cancels r.uid := by
  by_cases hcancel : ∃ id, c = .cancel id
  · obtain ⟨id, rfl⟩ := hcancel
    rcases cancel_eq_ok hc with ⟨-, rfl, -⟩ | ⟨e, -, -, -, -, rfl⟩ | ⟨r', slots, -, ht, rfl, rfl⟩
    · exact .inl hr
    · exact .inl hr
    · obtain ⟨hg, -, hrec, -⟩ := EventSlots.take?_eq_some h.slots ht
      obtain ⟨hr', hu⟩ := EventSlots.get?_eq_some_iff.1 hg
      change slots.record? slot = some r ∨ _
      rw [hrec]
      split
      case isTrue he =>
        subst slot
        obtain rfl : r' = r := Option.some.inj (hr'.symm.trans hr)
        exact .inr (congrArg some hu.symm)
      case isFalse => exact .inl hr
  · rcases perform_cases hc with ⟨time, context, action, -, -, rfl⟩ | ⟨id, r', slots, -, hremoved, -⟩ | he
    · exact .inl (h.record?_insert_of_some time context action hr)
    · cases c with
      | cancel id => exact absurd ⟨id, rfl⟩ hcancel
      | _ => cases hremoved
    · exact .inl (he.slots.symm ▸ hr)

theorem Sound.record?_after (h : s.Sound) (hs : s.Step m) (hr : s.slots.record? slot = some r) :
    m.state.slots.record? slot = some r ∨ m.deed = .began r ∨ m.deed.Cancels r.uid ∨ m.deed = .cleared := by
  cases hs with
  | called hc =>
    rcases h.record?_of_perform hc hr with hr | hcancels
    · exact .inl hr
    · exact .inr (.inr (.inl hcancels))
  | @began r' _ _ hn ha =>
    obtain ⟨-, -, -, -, slot', hr', hrec, -⟩ := h.step_began (.began hn ha)
    rw [hrec]
    split
    case isTrue he =>
      subst slot
      obtain rfl : r' = r := Option.some.inj (hr'.symm.trans hr)
      exact .inr (.inl rfl)
    case isFalse => exact .inl hr
  | idled hn => exact .inl ((h.step_idled (.idled hn)).slots.symm ▸ hr)
  | tornDown | switched => exact .inl hr
  | cleared => exact .inr (.inr (.inr rfl))

theorem Sound.record?_of_not_ends (h : s.Sound) (hs : s.Step m) (hr : s.slots.record? slot = some r)
    (hm : ¬ m.deed.Ends r.uid) : m.state.slots.record? slot = some r := by
  rcases h.record?_after hs hr with hr | hd | hd | hd
  · exact hr
  · exact absurd (.inl ⟨r, hd, rfl⟩) hm
  · exact absurd (.inr (.inl hd)) hm
  · exact absurd (.inr (.inr hd)) hm

/-- What has become of an event at the end of a path: it is still pending, or it was executed, cancelled or forgotten. -/
theorem Path.fate (hp : Path s ms t) (h : s.Sound) (hr : s.slots.record? slot = some r) :
    t.slots.record? slot = some r ∨ r ∈ executed ms ∨ (∃ m ∈ ms, m.deed.Cancels r.uid) ∨ ∃ m ∈ ms, m.deed = .cleared := by
  induction hp with
  | nil => exact .inl hr
  | @cons s t m ms hs _ ih =>
    rcases h.record?_after hs hr with hr | hd | hd | hd
    · rcases ih (Sound.step s m h hs) hr with hr | hex | ⟨n, hn, hc⟩ | ⟨n, hn, hc⟩
      · exact .inl hr
      · refine .inr (.inl ?_)
        rw [executed_cons]
        exact List.mem_append_right _ hex
      · exact .inr (.inr (.inl ⟨n, List.mem_cons_of_mem _ hn, hc⟩))
      · exact .inr (.inr (.inr ⟨n, List.mem_cons_of_mem _ hn, hc⟩))
    · exact .inr (.inl (List.mem_filterMap.2 ⟨m, List.mem_cons_self, by rw [hd]; rfl⟩))
    · exact .inr (.inr (.inl ⟨m, List.mem_cons_self, hd⟩))
    · exact .inr (.inr (.inr ⟨m, List.mem_cons_self, hd⟩))

/-- A path from one of its moments on. -/
theorem Path.after {ns : List (Moment α)} (hp : Path s (ms ++ m :: ns) t) : Path m.state ns t := by
  obtain ⟨u, -, -, hrest⟩ := hp.split
  exact hrest

/-- What has become of an event that was pending at some moment of a path. -/
theorem Path.fate_of_pends (hp : Path s ms t) (h : s.Sound) (hr : s.Pends r ∨ ∃ m ∈ ms, m.state.Pends r) :
    t.Pends r ∨ r ∈ executed ms ∨ (∃ m ∈ ms, m.deed.Cancels r.uid) ∨ ∃ m ∈ ms, m.deed = .cleared := by
  rcases hr with ⟨slot, hr⟩ | ⟨m, hm, slot, hr⟩
  · exact (hp.fate h hr).imp_left fun hr => ⟨slot, hr⟩
  · have hsound := (hp.invariant Sound.step h).2 m hm
    obtain ⟨pre, post, rfl⟩ := List.append_of_mem hm
    have hmem {n} (hn : n ∈ post) : n ∈ pre ++ m :: post := List.mem_append_right _ (List.mem_cons_of_mem _ hn)
    rcases hp.after.fate hsound hr with hr | hex | ⟨n, hn, hc⟩ | ⟨n, hn, hc⟩
    · exact .inl ⟨slot, hr⟩
    · obtain ⟨n, hn, hd⟩ := List.mem_filterMap.1 hex
      exact .inr (.inl (List.mem_filterMap.2 ⟨n, hmem hn, hd⟩))
    · exact .inr (.inr (.inl ⟨n, hmem hn, hc⟩))
    · exact .inr (.inr (.inr ⟨n, hmem hn, hc⟩))

/-- An event that begins is the pending one, or it comes before it. -/
theorem Sound.began_of_pending (h : s.Sound) (hr : s.slots.record? slot = some r) {r' : EventRecord (Action α)}
    (hs : s.Step ⟨.began r', s'⟩) : r' = r ∨ r'.before r := by
  obtain ⟨-, -, -, -, slot', hr', -, hleast⟩ := h.step_began hs
  by_cases he : slot = slot'
  · subst he
    exact .inl (Option.some.inj (hr'.symm.trans hr))
  · exact .inr (hleast slot r hr he)

/-- By induction on the moments before. -/
theorem Path.began_of_pending (hp : Path s ms t) (h : s.Sound) (hr : s.slots.record? slot = some r)
    {pre post : List (Moment α)} (he : ms = pre ++ m :: post) (hpre : ∀ n ∈ pre, ¬ n.deed.Ends r.uid)
    {r' : EventRecord (Action α)} (hm : m.deed = .began r') : r' = r ∨ r'.before r := by
  subst he
  induction pre generalizing s with
  | nil =>
    cases hp with
    | cons hs _ =>
      obtain ⟨deed, state⟩ := m
      cases hm
      exact h.began_of_pending hr hs
  | cons n pre ih =>
    cases hp with
    | cons hs hp =>
      have hn := h.record?_of_not_ends hs hr (hpre n List.mem_cons_self)
      exact ih (Sound.step s n h hs) hn (fun k hk => hpre k (List.mem_cons_of_mem _ hk)) hp

/-! ## Whole ticks -/

/-- The clock stands at a whole tick, and all pending events are due at one. -/
structure Aligned (s : Simulator α) : Prop where
  now : (s.config.resolution.unit.femtos : Int) ∣ s.now.femtos
  due : ∀ r, s.Pends r → (s.config.resolution.unit.femtos : Int) ∣ r.time.femtos

theorem aligned_ofConfig (owner : Nat) (config : Config) : (ofConfig owner config : Simulator α).Aligned where
  now := Int.dvd_zero _
  due _ := fun ⟨_, hr⟩ => absurd (hr.symm.trans (EventSlots.record?_empty _)) (Option.some_ne_none _)

/-- Requests and events that add no pending event, on a clock that stands at a whole tick. -/
theorem Aligned.of_fewer (h : s.Aligned) (hconfig : s'.config = s.config)
    (hnow : (s.config.resolution.unit.femtos : Int) ∣ s'.now.femtos) (hsub : ∀ r, s'.Pends r → s.Pends r) : s'.Aligned where
  now := by rwa [hconfig]
  due r hr := by
    rw [hconfig]
    exact h.due r (hsub r hr)

theorem Aligned.insert (h : s.Aligned) (hs : s.Sound) {time : Time}
    (ht : (s.config.resolution.unit.femtos : Int) ∣ time.femtos) (context : ContextId) (action : Action α) :
    (s.insert time context action).2.Aligned where
  now := h.now
  due r := by
    rintro ⟨slot, hr⟩
    rw [hs.record?_insert] at hr
    split at hr
    · cases hr
      exact ht
    · exact h.due r ⟨slot, hr⟩

/-- An event after a delay is refused, or due as far ahead as the whole ticks of the delay. -/
theorem scheduleIn_cases (s : Simulator α) (context : ContextId) (delay : Time) (action : Action α) :
    (∃ e, s.scheduleIn context delay action = .error e) ∨
      ∃ time : Time, time.femtos = s.now.femtos + (s.config.resolution.quantize delay).femtos ∧
        s.scheduleIn context delay action = .ok (s.insert time context action) := by
  unfold scheduleIn
  split
  case isTrue => exact .inl ⟨_, rfl⟩
  case isFalse =>
    dsimp only
    split
    case h_1 time ht => exact .inr ⟨time, Time.ofFemtos?_eq_some_iff.1 ht, rfl⟩
    case h_2 => exact .inl ⟨_, rfl⟩

theorem Aligned.keep (h : s.Aligned) (hs : s.Sound) {context : ContextId} {delay : Time} {action : Action α}
    {answer : Except SimError EventId} (hk : Call.keep s (s.scheduleIn context delay action) = (answer, s')) :
    s'.Aligned := by
  rcases s.scheduleIn_cases context delay action with ⟨e, he⟩ | ⟨time, ht, he⟩
  · rw [he] at hk
    cases hk
    exact h
  · rw [he] at hk
    cases hk
    exact h.insert hs (ht ▸ Int.dvd_add h.now (Resolution.dvd_quantize _ _)) context action

theorem Aligned.perform (h : s.Aligned) (hs : s.Sound) {c : Call α} {answer : c.Answer}
    (hc : c.perform s = .ok (answer, s')) : s'.Aligned := by
  cases c with
  | schedule | scheduleIn | stopAfter => exact h.keep hs (Except.ok.inj hc)
  | scheduleAt | stopAt =>
    obtain ⟨x, hx, hk⟩ := Outcome.map_eq_ok_iff.1 hc
    obtain ⟨delay, -, hx⟩ := Outcome.bind_eq_ok_iff.1 hx
    cases hx
    exact h.keep hs hk
  | scheduleNow a =>
    obtain rfl := congrArg Prod.snd (Except.ok.inj hc)
    exact h.insert hs h.now s.context (.perform a)
  | scheduleDestroy | stop | setRng => cases hc; exact h.of_fewer rfl h.now fun _ hr => hr
  | cancel id =>
    rcases cancel_eq_ok hc with ⟨-, rfl, -⟩ | ⟨e, -, -, -, -, rfl⟩ | ⟨r, slots, -, ht, -, rfl⟩
    · exact h
    · exact h.of_fewer rfl h.now fun _ hr => hr
    · exact h.of_fewer rfl h.now fun _ ⟨slot, hr⟩ => ⟨slot, (EventSlots.record?_of_take? hs.slots ht hr).2⟩

theorem Aligned.step (h : s.Aligned) (hs : s.Sound) (hstep : s.Step m) : m.state.Aligned := by
  have hconfig := (hs.step_owner hstep).2
  cases hstep with
  | called hc => exact h.perform hs hc
  | @began r _ _ hn ha =>
    obtain ⟨hnow, -, -, -, slot, hr, -⟩ := hs.step_began (.began hn ha)
    refine h.of_fewer hconfig ?_ fun _ ⟨slot', hr'⟩ => ⟨slot', hs.record?_of_began (.began hn ha) hr'⟩
    exact hnow ▸ h.due r ⟨slot, hr⟩
  | idled hn =>
    have he := hs.step_idled (.idled hn)
    exact h.of_fewer hconfig (he.now ▸ h.now) fun _ ⟨slot, hr⟩ => ⟨slot, he.slots ▸ hr⟩
  | tornDown | switched => exact h.of_fewer hconfig h.now fun _ hr => hr
  | cleared =>
    refine h.of_fewer hconfig h.now fun r ⟨slot, hr⟩ => ?_
    exact absurd (hr.symm.trans (EventSlots.record?_empty slot)) (Option.some_ne_none r)

/-- Along a path a simulator stays sound and aligned, and keeps its settings. -/
theorem Path.sound_aligned (hp : Path s ms t) (hs : s.Sound) (ha : s.Aligned) :
    (t.Sound ∧ t.Aligned ∧ t.config = s.config) ∧
      ∀ m ∈ ms, m.state.Sound ∧ m.state.Aligned ∧ m.state.config = s.config := by
  refine hp.invariant (I := fun u => u.Sound ∧ u.Aligned ∧ u.config = s.config) ?_ ⟨hs, ha, rfl⟩
  intro u m ⟨hu, ha, hc⟩ hstep
  exact ⟨Sound.step u m hu hstep, ha.step hu hstep, (hu.step_owner hstep).2.trans hc⟩

/-- At every moment a simulator is sound and aligned, and has its settings. -/
theorem Path.kept {owner : Nat} {config : Config} (hp : Path (ofConfig owner config) ms t) :
    (t.Sound ∧ t.Aligned ∧ t.config = config) ∧ ∀ m ∈ ms, m.state.Sound ∧ m.state.Aligned ∧ m.state.config = config :=
  hp.sound_aligned (sound_ofConfig owner config) (aligned_ofConfig owner config)

/-- What a driver leaves behind is sound and aligned, and has its settings. -/
theorem kept_of_exec {ω ρ : Type} {meaning : Meaning α ω} {fuel owner : Nat} {config : Config} {p : Program α ω ρ} {w : ω}
    {x : Outcome α ω ρ} (h : p.exec (handler meaning fuel) (ofConfig owner config) w = .ok x) :
    x.2.1.Sound ∧ x.2.1.Aligned ∧ x.2.1.config = config := by
  obtain ⟨t, hp, ht⟩ := path_history meaning fuel p (ofConfig owner config) w
  obtain rfl := ht x h
  exact hp.kept.1

end Simulator

end SimKernel
