import Mathlib.Data.List.Perm.Subperm
import SimKernel.Proofs.Simulator.Order

/-!
# Accounting

Every event that was ever scheduled is in one place: it was executed or cancelled, it is pending or waits for the
teardown, or a teardown forgot it. The counters of the simulator say how many there are of each kind (`Books.balance`).
The keys in the queue are those of the pending events and those of cancelled ones that were not yet passed over
(`Keyed`); a teardown drops keys of both kinds, so afterwards there are only fewer of them (`Books.keys_le`).

Every step keeps the books (`Books.step`, `Path.keyed`), so they balance at every moment of a history
(`accounts_balance`).
-/

namespace SimKernel

variable {α : Type}

/-- The number of pending events that were cancelled; destroy events are not among them. -/
def Deed.withdrawn : Deed α → Nat
  | called (.cancel id) (some _) => if id.slot = Simulator.destroySlot then 0 else 1
  | _ => 0

/-- The number of events that a simulator forgets. -/
def Deed.discarded (d : Deed α) (s : Simulator α) : Nat :=
  match d with
  | cleared => s.pending + s.destroyEvents.length
  | _ => 0

/-- The number of pending events that were cancelled in the course of a history. -/
def withdrawn : List (Moment α) → Nat
  | [] => 0
  | m :: ms => m.deed.withdrawn + withdrawn ms

/-- The number of events that were forgotten in the course of a history that starts with a simulator. -/
def discarded : Simulator α → List (Moment α) → Nat
  | _, [] => 0
  | s, m :: ms => m.deed.discarded s + discarded m.state ms

namespace Simulator

variable {s s' t : Simulator α}

/-! ## Counting keys and slots -/

theorem size_insert (s : Simulator α) (time : Time) (context : ContextId) (action : Action α) :
    (s.insert time context action).2.queue.size = s.queue.size + 1 :=
  EventQueue.size_push _ _

theorem pending_insert (s : Simulator α) (time : Time) (context : ContextId) (action : Action α) :
    (s.insert time context action).2.pending = s.pending + 1 := by
  simp only [insert, pending, EventSlots.insert]
  cases s.slots.free <;> rfl

/-- Taking an event away leaves one less. -/
theorem Sound.live_of_take? (h : s.Sound) {slot uid : Nat} {r : EventRecord (Action α)} {slots : EventSlots (Action α)}
    (ht : s.slots.take? slot uid = some (r, slots)) : s.pending = slots.live + 1 := by
  obtain ⟨-, hv, -, hperm, -⟩ := EventSlots.take?_eq_some h.slots ht
  rw [pending, h.slots.live_eq, hperm.length_eq, List.length_cons, hv.live_eq]

/-- The numbers of the pending events, slot by slot, are all different. -/
theorem Sound.nodup_records (h : s.Sound) : (s.slots.records.map EventRecord.uid).Nodup := by
  rw [List.Nodup, List.pairwise_map, EventSlots.records, List.pairwise_filterMap, List.pairwise_iff_getElem]
  intro i j hi hj hij r hr r' hr' hu
  simp only [Array.length_toList] at hi hj
  have hi' : s.slots.record? i = some r := by simpa [EventSlots.record?, hi] using hr
  have hj' : s.slots.record? j = some r' := by simpa [EventSlots.record?, hj] using hr'
  exact absurd (h.slot_unique hi' hj' hu).1 (Nat.ne_of_lt hij)

/-- Each pending event has a key of its own. -/
theorem Sound.pending_le_size (h : s.Sound) : s.pending ≤ s.queue.size := by
  have hsub : s.slots.records.map EventRecord.uid ⊆ s.queue.toList.map EventKey.sequence := by
    intro u hu
    obtain ⟨r, hr, rfl⟩ := List.mem_map.1 hu
    obtain ⟨slot, hr⟩ := EventSlots.mem_records_iff.1 hr
    exact List.mem_map.2 ⟨_, h.keyed hr, rfl⟩
  have hle := (h.nodup_records.subperm hsub).length_le
  rwa [List.length_map, List.length_map, ← h.slots.live_eq, EventQueue.length_toList] at hle

/-- On the way to the next event each key that is passed over is counted, and the key of the event is not. -/
theorem nextEvent_size (s : Simulator α) :
    s.queue.size + s.metrics.stale =
      s.nextEvent.2.queue.size + s.nextEvent.2.metrics.stale + s.nextEvent.1.toList.length := by
  fun_induction nextEvent s with
  | case1 s hp => simp
  | case2 s key queue hp r slots ht =>
    have := EventQueue.size_pop? hp
    simp only [Option.toList_some, List.length_singleton]
    omega
  | case3 s key queue hp ht ih =>
    have := EventQueue.size_pop? hp
    change queue.size + (s.metrics.stale + 1) = _ at ih
    omega

/-! ## The books -/

/-- Destroy events are known by their numbers. -/
structure Registered (s : Simulator α) : Prop where
  nodup : (s.destroyEvents.map DestroyEvent.uid).Nodup
  lt_next : ∀ e ∈ s.destroyEvents, e.uid < s.nextUid

/-- How the counters of a simulator change when `taken` pending events are cancelled and none is forgotten. -/
structure Booked (s s' : Simulator α) (taken : Nat) : Prop where
  balance : s'.metrics.scheduled + (s.metrics.executed + s.metrics.cancelled + s.pending + s.destroyEvents.length) =
    s.metrics.scheduled + (s'.metrics.executed + s'.metrics.cancelled + s'.pending + s'.destroyEvents.length)
  keys : s'.queue.size + s'.metrics.stale + s.pending = s.queue.size + s.metrics.stale + s'.pending + taken
  peak : s.pending ≤ s.metrics.peak → s'.metrics.peak = max s.metrics.peak s'.pending
  registered : s.Registered → s'.Registered

theorem booked_self (s : Simulator α) : Booked s s 0 where
  balance := rfl
  keys := by omega
  peak := by omega
  registered h := h

theorem booked_insert (s : Simulator α) (time : Time) (context : ContextId) (action : Action α) :
    Booked s (s.insert time context action).2 0 where
  balance := by
    rw [pending_insert]
    change s.metrics.scheduled + 1 + _ = _ + (s.metrics.executed + s.metrics.cancelled + _ + s.destroyEvents.length)
    omega
  keys := by
    rw [pending_insert, size_insert]
    change _ + s.metrics.stale + _ = _
    omega
  peak _ := rfl
  registered h := ⟨h.nodup, fun e he => Nat.lt_succ_of_lt (h.lt_next e he)⟩

theorem booked_of_keep {context : ContextId} {delay : Time} {action : Action α} {answer : Except SimError EventId}
    (h : Call.keep s (s.scheduleIn context delay action) = (answer, s')) : Booked s s' 0 := by
  rcases keep_cases h with rfl | ⟨time, -, rfl⟩
  · exact booked_self s'
  · exact booked_insert s time context action

theorem booked_of_keep_scheduleAt {time : Time} {action : Action α} {answer : Except SimError EventId}
    (h : (s.scheduleAt time action).map (Call.keep s) = .ok (answer, s')) : Booked s s' 0 := by
  rcases keep_scheduleAt_cases h with rfl | ⟨time, -, rfl⟩
  · exact booked_self s'
  · exact booked_insert s time s.context action

theorem booked_scheduleDestroy (s : Simulator α) (a : α) : Booked s (s.scheduleDestroy a).2 0 where
  balance := by
    simp only [scheduleDestroy, List.length_append, List.length_singleton, pending]
    omega
  keys := by
    simp only [scheduleDestroy, pending]
    omega
  peak h := by
    simp only [scheduleDestroy, pending] at h ⊢
    omega
  registered h := by
    refine ⟨?_, ?_⟩
    · simp only [scheduleDestroy, List.map_append, List.map_cons, List.map_nil]
      refine List.nodup_append.2 ⟨h.nodup, List.nodup_singleton _, ?_⟩
      intro u hu v hv
      obtain ⟨e, he, rfl⟩ := List.mem_map.1 hu
      rw [List.mem_singleton.1 hv]
      exact Nat.ne_of_lt (h.lt_next e he)
    · intro e he
      change e.uid < s.nextUid + 1
      rcases List.mem_append.1 he with he | he
      · exact Nat.lt_succ_of_lt (h.lt_next e he)
      · rw [List.mem_singleton.1 he]
        exact Nat.lt_succ_self _

/-- A number belongs to one destroy event only, so cancelling it leaves one less. -/
theorem Registered.length_filter (h : s.Registered) {e : DestroyEvent α} (he : e ∈ s.destroyEvents) :
    (s.destroyEvents.filter fun d => d.uid != e.uid).length + 1 = s.destroyEvents.length := by
  have hnodup : (s.destroyEvents.map DestroyEvent.uid).Nodup := h.nodup
  generalize s.destroyEvents = es at he hnodup
  induction es with
  | nil => cases he
  | cons d es ih =>
    obtain ⟨hd, hes⟩ := List.nodup_cons.1 hnodup
    rcases List.mem_cons.1 he with rfl | he
    · have hrest : es.filter (fun d => d.uid != e.uid) = es := by
        refine List.filter_eq_self.2 ?_
        intro d hm
        have hne : d.uid ≠ e.uid := fun hu => hd (hu ▸ List.mem_map_of_mem hm)
        simpa using hne
      simp [hrest]
    · have hne : d.uid ≠ e.uid := fun hu => hd (hu ▸ List.mem_map_of_mem he)
      simp [hne, ih he hes]

theorem booked_of_cancel (h : s.Sound) (hr : s.Registered) {id : EventId} {answer : Option (Action α)}
    (hc : s.cancel id = .ok (answer, s')) : Booked s s' (Deed.called (.cancel id) answer).withdrawn := by
  rcases cancel_eq_ok hc with ⟨rfl, rfl, -⟩ | ⟨e, he, hslot, hu, rfl, rfl⟩ | ⟨r, slots, hslot, ht, rfl, rfl⟩
  · exact booked_self s'
  · have hlen := hr.length_filter he
    rw [hu] at hlen
    simp only [Deed.withdrawn, hslot, if_true]
    refine ⟨?_, ?_, ?_, ?_⟩
    · simp only [countCancelled, pending]
      omega
    · simp only [countCancelled, pending]
      omega
    · intro hp
      simp only [countCancelled, pending] at hp ⊢
      omega
    · intro hr
      exact ⟨hr.nodup.sublist (List.filter_sublist.map _), fun d hd => hr.lt_next d (List.mem_of_mem_filter hd)⟩
  · have hlive := h.live_of_take? ht
    simp only [Deed.withdrawn, hslot, if_false]
    refine ⟨?_, ?_, ?_, fun hr => ⟨hr.nodup, hr.lt_next⟩⟩
    · simp only [countCancelled, pending] at hlive ⊢
      omega
    · simp only [countCancelled, pending] at hlive ⊢
      omega
    · intro hp
      simp only [countCancelled, pending] at hlive hp ⊢
      omega

theorem booked_of_perform (h : s.Sound) (hr : s.Registered) {c : Call α} {answer : c.Answer}
    (hc : c.perform s = .ok (answer, s')) : Booked s s' (Deed.called c answer).withdrawn := by
  cases c with
  | schedule | scheduleIn | stopAfter => exact booked_of_keep (Except.ok.inj hc)
  | scheduleAt | stopAt => exact booked_of_keep_scheduleAt hc
  | scheduleNow a =>
    obtain rfl := congrArg Prod.snd (Except.ok.inj hc)
    exact booked_insert s s.now s.context (.perform a)
  | scheduleDestroy a =>
    obtain rfl := congrArg Prod.snd (Except.ok.inj hc)
    exact booked_scheduleDestroy s a
  | cancel id => exact booked_of_cancel h hr hc
  | stop => cases hc; exact { booked_self s with registered := fun h => { h with } }
  | setRng g => cases hc; exact { booked_self s with registered := fun h => { h with } }

/-- Looking for the next event changes no other counter. -/
theorem SameBesides.metrics_eq (h : SameBesides s s') :
    s'.metrics.scheduled = s.metrics.scheduled ∧ s'.metrics.executed = s.metrics.executed ∧
      s'.metrics.cancelled = s.metrics.cancelled ∧ s'.metrics.peak = s.metrics.peak := by
  rw [h]
  exact ⟨rfl, rfl, rfl, rfl⟩

/-- An event that begins is executed instead of pending, and its key is gone. -/
theorem booked_begin (h : s.Sound) {r : EventRecord (Action α)} {s₁ s₂ : Simulator α} (hn : s.nextEvent = (some r, s₁))
    (ha : s₁.advance r = .ok s₂) : Booked s s₂ 0 := by
  obtain ⟨-, he, slot, -, ht, -⟩ := h.nextEvent_eq_some hn
  obtain ⟨-, rfl⟩ := advance_eq_ok ha
  have hlive := h.live_of_take? ht
  have hsize := nextEvent_size s
  simp only [hn, Option.toList_some, List.length_singleton] at hsize
  obtain ⟨hscheduled, hexecuted, hcancelled, hpeak⟩ := he.metrics_eq
  have hd : s₁.destroyEvents = s.destroyEvents := by rw [he]
  have hu : s₁.nextUid = s.nextUid := by rw [he]
  refine ⟨?_, ?_, ?_, fun hr => ⟨hd ▸ hr.nodup, hd ▸ hu ▸ hr.lt_next⟩⟩
  · simp only [pending, hd, hscheduled, hexecuted, hcancelled] at hlive ⊢
    omega
  · simp only [pending] at hlive ⊢
    omega
  · intro hp
    simp only [pending, hpeak] at hlive hp ⊢
    omega

/-- When there is no event to execute, all keys left were those of cancelled events. -/
theorem booked_idle (h : s.Sound) (hn : s.nextEvent = (none, s')) : Booked s s' 0 := by
  obtain ⟨-, -, he, hslots⟩ := h.nextEvent_eq_none hn
  have hsize := nextEvent_size s
  simp only [hn, Option.toList_none, List.length_nil] at hsize
  obtain ⟨hscheduled, hexecuted, hcancelled, hpeak⟩ := he.metrics_eq
  have hd : s'.destroyEvents = s.destroyEvents := by rw [he]
  have hu : s'.nextUid = s.nextUid := by rw [he]
  refine ⟨?_, ?_, ?_, fun hr => ⟨hd ▸ hr.nodup, hd ▸ hu ▸ hr.lt_next⟩⟩
  · simp only [pending, hd, hslots, hscheduled, hexecuted, hcancelled]
  · simp only [pending, hslots]
    omega
  · intro hp
    simp only [pending, hslots, hpeak] at hp ⊢
    omega

theorem booked_beginDestroy {e : DestroyEvent α} {rest : List (DestroyEvent α)} (h : s.destroyEvents = e :: rest) :
    Booked s (s.beginDestroy rest) 0 := by
  refine ⟨?_, rfl, fun hp => (Nat.max_eq_left hp).symm, fun hr => ⟨?_, ?_⟩⟩
  · simp only [beginDestroy, pending, h, List.length_cons]
    omega
  · exact (List.nodup_cons.1 (h ▸ hr.nodup : ((e :: rest).map DestroyEvent.uid).Nodup)).2
  · intro d hd
    exact hr.lt_next d (h ▸ List.mem_cons_of_mem _ hd)

/-- Every step but the end of a teardown changes the counters as booked. -/
theorem booked_step (h : s.Sound) (hr : s.Registered) {m : Moment α} (hs : s.Step m) (hm : m.deed ≠ .cleared) :
    Booked s m.state m.deed.withdrawn := by
  cases hs with
  | called hc => exact booked_of_perform h hr hc
  | began hn ha => exact booked_begin h hn ha
  | idled hn => exact booked_idle h hn
  | tornDown he => exact booked_beginDestroy he
  | cleared => exact absurd rfl hm
  | switched => exact { booked_self s with registered := fun h => { h with } }

/-- The books of a simulator that forgot `gone` events so far, and of which `taken` pending ones were cancelled. -/
structure Books (gone taken : Nat) (s : Simulator α) : Prop where
  sound : s.Sound
  registered : s.Registered
  balance : s.metrics.scheduled =
    s.metrics.executed + s.metrics.cancelled + s.pending + s.destroyEvents.length + gone
  keys_le : s.queue.size + s.metrics.stale ≤ s.pending + taken
  peak_le : s.pending ≤ s.metrics.peak

/-- The keys in the queue belong to pending events, and to cancelled ones that were not passed over yet. -/
def Keyed (taken : Nat) (s : Simulator α) : Prop :=
  s.queue.size + s.metrics.stale = s.pending + taken

theorem books_ofConfig (owner : Nat) (config : Config) : Books 0 0 (ofConfig owner config : Simulator α) where
  sound := sound_ofConfig owner config
  registered := ⟨List.nodup_nil, fun _ he => absurd he List.not_mem_nil⟩
  balance := rfl
  keys_le := Nat.le_refl 0
  peak_le := Nat.le_refl 0

variable {gone taken : Nat}

theorem Books.booked (h : Books gone taken s) {n : Nat} (hb : Booked s s' n) (hs : s'.Sound) :
    Books gone (taken + n) s' where
  sound := hs
  registered := hb.registered h.registered
  balance := by
    have := h.balance
    have := hb.balance
    omega
  keys_le := by
    have := h.keys_le
    have := hb.keys
    omega
  peak_le := by
    have := hb.peak h.peak_le
    omega

/-- A teardown forgets the events that are left, and drops the keys of cancelled ones without counting them. -/
theorem Books.clear (h : Books gone taken s) :
    Books (gone + (s.pending + s.destroyEvents.length)) taken { s with running := false }.clear.2 where
  sound := Sound.clear { h.sound with }
  registered := ⟨List.nodup_nil, fun _ he => absurd he List.not_mem_nil⟩
  balance := by
    have := h.balance
    change s.metrics.scheduled = s.metrics.executed + s.metrics.cancelled + 0 + 0 + _
    omega
  keys_le := by
    have := h.keys_le
    have := h.sound.pending_le_size
    change 0 + s.metrics.stale ≤ 0 + taken
    omega
  peak_le := Nat.zero_le _

theorem Books.step (h : Books gone taken s) {m : Moment α} (hs : s.Step m) :
    Books (gone + m.deed.discarded s) (taken + m.deed.withdrawn) m.state := by
  by_cases hm : m.deed = .cleared
  · cases hs with
    | cleared => exact h.clear
    | called | began | idled | tornDown | switched => cases hm
  · have hd : m.deed.discarded s = 0 := by
      cases hdeed : m.deed with
      | cleared => exact absurd hdeed hm
      | called | began | idled | tornDown | switched => rfl
    rw [hd]
    exact h.booked (booked_step h.sound h.registered hs hm) (Sound.step s m h.sound hs)

theorem Books.peak_step (h : Books gone taken s) {m : Moment α} (hs : s.Step m) :
    m.state.metrics.peak = max s.metrics.peak m.state.pending := by
  by_cases hm : m.deed = .cleared
  · cases hs with
    | cleared => exact (Nat.max_zero _).symm
    | called | began | idled | tornDown | switched => cases hm
  · exact (booked_step h.sound h.registered hs hm).peak h.peak_le

/-! ## Histories -/

/-- The books at the end of a path, with the counts of what happened on it. -/
theorem Path.books {ms : List (Moment α)} (hp : Path s ms t) (h : Books gone taken s) :
    Books (gone + discarded s ms) (taken + withdrawn ms) t := by
  induction hp generalizing gone taken with
  | nil => exact h
  | cons hs _ ih =>
    have := ih (h.step hs)
    rwa [Nat.add_assoc, Nat.add_assoc] at this

/-- As long as nothing was torn down, the keys are accounted for one by one. -/
theorem Path.keyed {ms : List (Moment α)} (hp : Path s ms t) (h : Books gone taken s) (hk : Keyed taken s)
    (hms : ∀ m ∈ ms, m.deed ≠ .cleared) : Keyed (taken + withdrawn ms) t := by
  induction hp generalizing gone taken with
  | nil => exact hk
  | @cons s t m ms hs _ ih =>
    have hb := booked_step h.sound h.registered hs (hms m List.mem_cons_self)
    have hk' : Keyed (taken + m.deed.withdrawn) m.state := by
      have := hb.keys
      unfold Keyed at hk ⊢
      omega
    have := ih (h.step hs) hk' fun n hn => hms n (List.mem_cons_of_mem _ hn)
    rwa [Nat.add_assoc] at this

/-- The greatest number of pending events is the one at some moment, and that of no moment is greater. -/
theorem Path.peak {ms : List (Moment α)} (hp : Path s ms t) (h : Books gone taken s) :
    t.metrics.peak = (ms.map fun m => m.state.pending).foldl max s.metrics.peak := by
  induction hp generalizing gone taken with
  | nil => rfl
  | cons hs _ ih =>
    rw [ih (h.step hs), h.peak_step hs]
    rfl

/-- **Accounting.** At every moment of a history, also inside actions: the events scheduled so far are those executed,
those cancelled, those pending, those that wait for the teardown and those that teardowns forgot; the peak is the greatest
number of events that were pending at a moment; no more keys were passed over than pending events were cancelled; and until
the first teardown ends there is a key for each pending event and for each cancelled one not passed over. -/
theorem accounts_balance {ω ρ : Type} (owner : Nat) (config : Config) (meaning : Meaning α ω) (fuel : Nat)
    (p : Program α ω ρ) (w : ω) (ms : List (Moment α)) (m : Moment α) (ns : List (Moment α))
    (he : history meaning fuel p (ofConfig owner config) w = ms ++ m :: ns) :
    let past := ms ++ [m]
    let s := m.state
    s.metrics.scheduled = s.metrics.executed + s.metrics.cancelled + s.pending + s.destroyEvents.length +
      discarded (ofConfig owner config) past ∧
    (past.map fun n => n.state.pending).max? = some s.metrics.peak ∧
    s.metrics.stale ≤ withdrawn past ∧
    ((∀ n ∈ past, n.deed ≠ .cleared) → s.queue.size = s.pending + withdrawn past - s.metrics.stale) := by
  intro past s
  obtain ⟨t, hp, -⟩ := path_history meaning fuel p (ofConfig owner config) w
  have hpast : Path (ofConfig owner config) past s := (he ▸ hp : Path _ (ms ++ m :: ns) t).upTo
  have h₀ : Books 0 0 (ofConfig owner config : Simulator α) := books_ofConfig owner config
  have hb := hpast.books h₀
  rw [Nat.zero_add, Nat.zero_add] at hb
  have hle := hb.keys_le
  have hsize := hb.sound.pending_le_size
  refine ⟨hb.balance, ?_, by omega, ?_⟩
  · have hpeak := hpast.peak h₀
    cases hl : past.map fun n => n.state.pending with
    | nil => simp [past] at hl
    | cons n l =>
      rw [hl] at hpeak
      rw [List.max?_cons', hpeak, List.foldl_cons]
      exact congrArg (fun k => some (l.foldl max k)) (Nat.zero_max n).symm
  · intro hms
    have hk := hpast.keyed h₀ rfl hms
    rw [Nat.zero_add] at hk
    exact Nat.eq_sub_of_add_eq hk

/-- Of four events the first is cancelled, the second is executed, the third is forgotten, and the fourth belongs to the
teardown. -/
def fourFates : Program Unit Unit Unit := do
  let id ← Program.request (.scheduleNow ())
  let _ ← Program.request (.scheduleNow ())
  let _ ← Program.request (.scheduleNow ())
  let _ ← Program.request (.scheduleDestroy ())
  let _ ← Program.request (.cancel id)
  let _ ← Program.requestDrive .step
  let _ ← Program.requestDrive .destroy

theorem accounts_balance_fourFates :
    let h := history (fun _ => Program.done ()) 2 fourFates (ofConfig 0 {}) ()
    ∃ m, h = h.dropLast ++ m :: [] ∧
      m.state.metrics = { scheduled := 4, executed := 2, cancelled := 1, stale := 1, peak := 3 } ∧
      4 = 2 + 1 + m.state.pending + m.state.destroyEvents.length + discarded (ofConfig 0 {}) (h.dropLast ++ [m]) := by
  intro h
  obtain ⟨m, hm⟩ : ∃ m, h.getLast? = some m := ⟨_, rfl⟩
  have he : h = h.dropLast ++ m :: [] := (List.dropLast_append_getLast? m hm).symm
  have hmetrics : (h.getLast?.map fun m => m.state.metrics) =
      some { scheduled := 4, executed := 2, cancelled := 1, stale := 1, peak := 3 } := by
    decide +kernel
  have hmetrics : m.state.metrics = _ := Option.some.inj (hm ▸ hmetrics)
  have hb := (accounts_balance 0 {} (fun _ => Program.done ()) 2 fourFates () h.dropLast m [] he).1
  rw [hmetrics] at hb
  exact ⟨m, he, hmetrics, hb⟩

end Simulator

end SimKernel
