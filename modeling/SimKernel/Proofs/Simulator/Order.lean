import SimKernel.Proofs.Simulator.Agenda

/-!
# The order of execution

The invariant `Ran done s` says that the events `done` were executed before `s` was reached: they come in the order of
their times and numbers, before all pending ones, and the clock stands where the last of them put it. Every step keeps
it, with the event that it begins added to the list (`Ran.step`). So over the whole life of a simulator events are executed
in strictly increasing order, each at most once (`executed_pairwise_before`).
-/

namespace SimKernel

/-- The time of the last of the events, and zero if there is none. -/
def lastTime {β : Type} (rs : List (EventRecord β)) : Time :=
  rs.getLast?.elim Time.zero EventRecord.time

/-- The first element's value, if it has one, comes first. -/
theorem filterMap_cons_eq_append {β γ : Type} (f : β → Option γ) (b : β) (l : List β) :
    (b :: l).filterMap f = (f b).toList ++ l.filterMap f := by
  rw [List.filterMap_cons]
  cases f b <;> rfl

theorem executed_cons {α : Type} (m : Moment α) (ms : List (Moment α)) :
    executed (m :: ms) = m.deed.began?.toList ++ executed ms :=
  filterMap_cons_eq_append _ m ms

theorem executed_append {α : Type} (ms ns : List (Moment α)) : executed (ms ++ ns) = executed ms ++ executed ns :=
  List.filterMap_append

namespace Simulator

variable {α ω ρ : Type} {s t : Simulator α}

/-- The events `done` were executed on the way to `s`. -/
structure Ran (done : List (EventRecord (Action α))) (s : Simulator α) : Prop where
  sound : s.Sound
  order : done.Pairwise EventRecord.before
  nodup : (done.map EventRecord.uid).Nodup
  clock : s.now = lastTime done
  past : ∀ r ∈ done, r.time.femtos ≤ s.now.femtos ∧ r.uid < s.nextUid
  first : ∀ r ∈ done, ∀ slot r', s.slots.record? slot = some r' → r.before r' ∧ r.uid ≠ r'.uid

theorem ran_ofConfig (owner : Nat) (config : Config) : Ran [] (ofConfig owner config : Simulator α) where
  sound := sound_ofConfig owner config
  order := .nil
  nodup := List.nodup_nil
  clock := rfl
  past _ hr := absurd hr List.not_mem_nil
  first _ hr := absurd hr List.not_mem_nil

variable {done : List (EventRecord (Action α))}

/-- Steps that neither move the clock nor add a pending event. -/
theorem Ran.of_fewer (h : Ran done s) {s' : Simulator α} (hs : s'.Sound) (hnow : s'.now = s.now)
    (huid : s.nextUid ≤ s'.nextUid) (hsub : ∀ slot r, s'.slots.record? slot = some r → s.slots.record? slot = some r) :
    Ran done s' where
  sound := hs
  order := h.order
  nodup := h.nodup
  clock := hnow.trans h.clock
  past r hr := ⟨hnow ▸ (h.past r hr).1, Nat.lt_of_lt_of_le (h.past r hr).2 huid⟩
  first r hr slot r' hr' := h.first r hr slot r' (hsub slot r' hr')

/-- A new event is not past and has the greatest number, so it comes after all that were executed. -/
theorem Ran.insert (h : Ran done s) {time : Time} (ht : s.now.femtos ≤ time.femtos) (context : ContextId)
    (action : Action α) : Ran done (s.insert time context action).2 where
  sound := h.sound.insert ht context action
  order := h.order
  nodup := h.nodup
  clock := h.clock
  past r hr := ⟨(h.past r hr).1, Nat.lt_succ_of_lt (h.past r hr).2⟩
  first r hr slot r' hr' := by
    obtain ⟨hpast, hlt⟩ := h.past r hr
    have hr' : (s.slots.insert ⟨s.nextUid, time, context, action⟩).2.record? slot = some r' := hr'
    rw [EventSlots.record?_insert h.sound.slots] at hr'
    split at hr'
    · cases hr'
      unfold EventRecord.before
      refine ⟨?_, Nat.ne_of_lt hlt⟩
      have : r.time.femtos ≤ time.femtos := Int.le_trans hpast ht
      change _ ∨ _ ∧ r.uid < s.nextUid
      change r.time.femtos < time.femtos ∨ r.time.femtos = time.femtos ∧ r.uid < s.nextUid
      omega
    · exact h.first r hr slot r' hr'

theorem Ran.effect (h : Ran done s) {s' : Simulator α} (he : s.Effect s') : Ran done s' := by
  cases he with
  | unchanged => exact h
  | inserted ht context action => exact h.insert ht context action
  | registered => exact h.of_fewer (h.sound.effect (.registered _)) rfl (Nat.le_succ _) fun _ _ hr => hr
  | cancelled ht =>
    refine h.of_fewer (h.sound.take ht) rfl (Nat.le_refl _) ?_
    intro slot r hr
    exact (EventSlots.record?_of_take? h.sound.slots ht hr).2
  | unregistered hd => exact h.of_fewer (h.sound.effect (.unregistered hd)) rfl (Nat.le_refl _) fun _ _ hr => hr
  | stopped => exact h.of_fewer (h.sound.effect .stopped) rfl (Nat.le_refl _) fun _ _ hr => hr
  | drawn g => exact h.of_fewer (h.sound.effect (.drawn g)) rfl (Nat.le_refl _) fun _ _ hr => hr

/-- The event that begins comes after all that were executed and before all that are still pending. -/
theorem Ran.begin (h : Ran done s) {r : EventRecord (Action α)} {s₁ s₂ : Simulator α}
    (hn : s.nextEvent = (some r, s₁)) (ha : s₁.advance r = .ok s₂) : Ran (done ++ [r]) s₂ := by
  have hs₂ := h.sound.begin hn ha
  obtain ⟨-, he, slot, hr, ht, hleast⟩ := h.sound.nextEvent_eq_some hn
  obtain ⟨hle, rfl⟩ := advance_eq_ok ha
  have huid : s₁.nextUid = s.nextUid := by rw [he]
  have hnow : s₁.now = s.now := by rw [he]
  refine ⟨hs₂, ?_, ?_, ?_, ?_, ?_⟩
  · refine List.pairwise_append.2 ⟨h.order, List.pairwise_singleton _ _, ?_⟩
    intro d hd r' hr'
    rw [List.mem_singleton.1 hr']
    exact (h.first d hd slot r hr).1
  · rw [List.map_append, List.nodup_append]
    refine ⟨h.nodup, List.nodup_singleton _, ?_⟩
    intro u hu v hv
    obtain ⟨d, hd, rfl⟩ := List.mem_map.1 hu
    rw [List.mem_singleton.1 hv]
    exact (h.first d hd slot r hr).2
  · simp [lastTime]
  · intro d hd
    change d.time.femtos ≤ r.time.femtos ∧ d.uid < s₁.nextUid
    rw [huid]
    rcases List.mem_append.1 hd with hd | hd
    · exact ⟨Int.le_trans (h.past d hd).1 (hnow ▸ hle), (h.past d hd).2⟩
    · rw [List.mem_singleton.1 hd]
      exact ⟨Int.le_refl _, h.sound.uid_lt hr⟩
  · intro d hd slot' r' hr'
    obtain ⟨hne, hr'⟩ := EventSlots.record?_of_take? h.sound.slots ht hr'
    rcases List.mem_append.1 hd with hd | hd
    · exact h.first d hd slot' r' hr'
    · rw [List.mem_singleton.1 hd]
      exact ⟨hleast slot' r' hr' hne, fun hu => hne (h.sound.slot_unique hr' hr hu.symm).1⟩

/-- Moments at which no event begins, the clock stands and no event becomes pending. -/
theorem Ran.stay (h : Ran done s) {m : Moment α} (hs : s.Step m) (hb : m.deed.began? = none)
    (hnow : m.state.now = s.now) (huid : s.nextUid ≤ m.state.nextUid)
    (hsub : ∀ slot r, m.state.slots.record? slot = some r → s.slots.record? slot = some r) :
    Ran (done ++ executed [m]) m.state := by
  rw [show executed [m] = [] by simp [executed, hb], List.append_nil]
  exact h.of_fewer (Sound.step s m h.sound hs) hnow huid hsub

theorem Ran.step {m : Moment α} (h : Ran done s) (hs : s.Step m) : Ran (done ++ executed [m]) m.state := by
  cases hs with
  | began hn ha => exact h.begin hn ha
  | called hc => simpa [executed, Deed.began?] using h.effect (effect_of_perform hc)
  | @idled s' hn =>
    obtain ⟨-, -, he, hsl⟩ := h.sound.nextEvent_eq_none hn
    have huid : s'.nextUid = s.nextUid := by rw [he]
    exact h.stay (.idled hn) rfl (by rw [he]) (Nat.le_of_eq huid.symm) fun slot r hr => by rw [← hsl]; exact hr
  | tornDown he => exact h.stay (.tornDown he) rfl rfl (Nat.le_refl _) fun _ _ hr => hr
  | cleared =>
    exact h.stay .cleared rfl rfl (Nat.le_refl _) fun slot r hr =>
      absurd (hr.symm.trans (EventSlots.record?_empty slot)) (Option.some_ne_none r)
  | switched => exact h.stay (.switched _ _ _ _) rfl rfl (Nat.le_refl _) fun _ _ hr => hr

/-- On every path the events that begin are added to those executed before. -/
theorem Path.ran {ms : List (Moment α)} (hp : Path s ms t) (h : Ran done s) : Ran (done ++ executed ms) t := by
  induction hp generalizing done with
  | nil s => simpa [executed] using h
  | @cons s t m ms hs _ ih =>
    have := ih (h.step hs)
    rwa [List.append_assoc, ← executed_append] at this

/-- A path up to one of its moments. -/
theorem Path.upTo {ms ns : List (Moment α)} {m : Moment α} (h : Path s (ms ++ m :: ns) t) :
    Path s (ms ++ [m]) m.state := by
  obtain ⟨u, hp, hs, -⟩ := h.split
  exact hp.append (.single hs)

theorem Sound.now_le_step {m : Moment α} (h : s.Sound) (hs : s.Step m) : s.now.femtos ≤ m.state.now.femtos := by
  cases hs with
  | called hc => cases effect_of_perform hc <;> exact Int.le_refl _
  | began hn ha =>
    obtain ⟨-, he, -⟩ := h.nextEvent_eq_some hn
    obtain ⟨hle, rfl⟩ := advance_eq_ok ha
    rwa [he] at hle
  | @idled s' hn =>
    obtain ⟨-, -, he, -⟩ := h.nextEvent_eq_none hn
    have hnow : s'.now = s.now := by rw [he]
    exact Int.le_of_eq (congrArg Time.femtos hnow.symm)
  | tornDown | cleared | switched => exact Int.le_refl _

theorem Path.now_le {ms : List (Moment α)} (hp : Path s ms t) (h : s.Sound) :
    s.now.femtos ≤ t.now.femtos ∧ ∀ m ∈ ms, s.now.femtos ≤ m.state.now.femtos := by
  obtain ⟨⟨-, ht⟩, hms⟩ := hp.invariant (I := fun u => u.Sound ∧ s.now.femtos ≤ u.now.femtos)
    (fun u v hu huv => ⟨Sound.step u v hu.1 huv, Int.le_trans hu.2 (hu.1.now_le_step huv)⟩) ⟨h, Int.le_refl _⟩
  exact ⟨ht, fun m hm => (hms m hm).2⟩

/-- The clock never moves back. -/
theorem Path.now_pairwise_le {ms : List (Moment α)} (hp : Path s ms t) (h : s.Sound) :
    (ms.map fun m => m.state.now.femtos).Pairwise (· ≤ ·) := by
  induction hp with
  | nil => exact .nil
  | @cons s t m ms hs hp ih =>
    have hm := Sound.step s m h hs
    refine List.pairwise_cons.2 ⟨?_, ih hm⟩
    intro n hn
    obtain ⟨m', hm', rfl⟩ := List.mem_map.1 hn
    exact (hp.now_le hm).2 m' hm'

/-- **The order of execution.** Over the whole life of a simulator, events are executed in strictly increasing order of
time and number, and each at most once. At every moment the clock stands at the time of the last event that was executed,
it was never set back, and the next event can be executed without setting it back. -/
theorem executed_pairwise_before (owner : Nat) (config : Config) (meaning : Meaning α ω) (fuel : Nat)
    (p : Program α ω ρ) (w : ω) :
    let h := history meaning fuel p (ofConfig owner config) w
    (executed h).Pairwise EventRecord.before ∧
    ((executed h).map EventRecord.uid).Nodup ∧
    (h.map fun m => m.state.now.femtos).Pairwise (· ≤ ·) ∧
    ∀ ms m ns, h = ms ++ m :: ns →
      m.state.now = lastTime (executed (ms ++ [m])) ∧
      ∀ r s₁, m.state.nextEvent = (some r, s₁) → ¬ r.time < s₁.now ∧ ∃ s₂, s₁.advance r = .ok s₂ := by
  intro h
  obtain ⟨t, hp, -⟩ := path_history meaning fuel p (ofConfig owner config) w
  have hr := hp.ran (ran_ofConfig owner config)
  refine ⟨hr.order, hr.nodup, hp.now_pairwise_le (sound_ofConfig owner config), ?_⟩
  intro ms m ns he
  have hm := (he ▸ hp : Path _ (ms ++ m :: ns) t).upTo.ran (ran_ofConfig owner config)
  refine ⟨hm.clock, ?_⟩
  intro r s₁ hn
  obtain ⟨s₂, ha⟩ := hm.sound.advance hn
  exact ⟨Int.not_lt.2 (advance_eq_ok ha).1, s₂, ha⟩

end Simulator

end SimKernel
