import Mathlib.Data.List.DropRight
import SimKernel.Proofs.Simulator.Scheduling
import SimKernel.Proofs.Simulator.StopTime

/-!
# Teardowns

A teardown executes destroy events, whose actions may register others and cancel those that wait, until none is left or an
action fails (`TearsDown`). Whatever happens, the destroy events that began and those that wait make up, in the order of their
registration, the ones that were registered and not cancelled (`Path.ledger`), until a teardown forgets what is left.

After a teardown nothing waits, and the slots are given out from zero again. The names of old events stay names of no event,
since their numbers are never given out again (`Later`, `Later.gone_of_lt`). `torn_down_in_order` puts this together.
-/

namespace SimKernel

variable {α ω ρ : Type}

namespace Deed

/-- The destroy event that is registered. -/
def registered? : Deed α → Option (DestroyEvent α)
  | called (.scheduleDestroy a) id => some ⟨(id : EventId).uid, a⟩
  | _ => none

/-- The number of the destroy event that is cancelled. -/
def unregistered? : Deed α → Option Nat
  | called (.cancel id) (some _) => if id.slot = Simulator.destroySlot then some id.uid else none
  | _ => none

/-- The destroy event that begins. -/
def tornDown? : Deed α → Option (DestroyEvent α)
  | tornDown e => some e
  | _ => none

/-- All events are forgotten. -/
def clears : Deed α → Bool
  | cleared => true
  | _ => false

end Deed

/-- The destroy events that are registered in the course of a history. -/
def registered (ms : List (Moment α)) : List (DestroyEvent α) := ms.filterMap fun m => m.deed.registered?

/-- The numbers of the destroy events that are cancelled in the course of a history. -/
def unregistered (ms : List (Moment α)) : List Nat := ms.filterMap fun m => m.deed.unregistered?

/-- The destroy events that begin in the course of a history. -/
def tornDown (ms : List (Moment α)) : List (DestroyEvent α) := ms.filterMap fun m => m.deed.tornDown?

/-- What happened since events were forgotten the last time. -/
def sinceCleared (ms : List (Moment α)) : List (Moment α) := ms.rtakeWhile fun m => !m.deed.clears

theorem registered_cons (m : Moment α) (ms : List (Moment α)) :
    registered (m :: ms) = m.deed.registered?.toList ++ registered ms := filterMap_cons_eq_append _ m ms

theorem unregistered_cons (m : Moment α) (ms : List (Moment α)) :
    unregistered (m :: ms) = m.deed.unregistered?.toList ++ unregistered ms := filterMap_cons_eq_append _ m ms

theorem tornDown_cons (m : Moment α) (ms : List (Moment α)) :
    tornDown (m :: ms) = m.deed.tornDown?.toList ++ tornDown ms := filterMap_cons_eq_append _ m ms

theorem tornDown_append (ms ns : List (Moment α)) : tornDown (ms ++ ns) = tornDown ms ++ tornDown ns :=
  List.filterMap_append

namespace Simulator

variable {s s' t : Simulator α} {m : Moment α} {ms ns : List (Moment α)} {gone taken : Nat}

/-! ## The ledger of destroy events -/

/-- What a moment does to the destroy events: one is added at the end, one is taken from among them, or the first begins. -/
structure Entry (s : Simulator α) (m : Moment α) : Prop where
  balance : m.deed.tornDown?.toList ++ m.state.destroyEvents =
    (s.destroyEvents ++ m.deed.registered?.toList).filter fun e => e.uid ∉ m.deed.unregistered?.toList
  known : ∀ u ∈ m.deed.unregistered?.toList, u ∈ s.destroyEvents.map DestroyEvent.uid
  spent : ∀ e ∈ m.deed.tornDown?.toList, e.uid ∉ m.state.destroyEvents.map DestroyEvent.uid ∧ e.uid < m.state.nextUid

/-- A moment that has nothing to do with destroy events. -/
theorem entry_of_eq (he : m.state.destroyEvents = s.destroyEvents) (hr : m.deed.registered? = none)
    (hu : m.deed.unregistered? = none) (ht : m.deed.tornDown? = none) : Entry s m where
  balance := by simp [he, hr, hu, ht]
  known := by simp [hu]
  spent := by simp [ht]

/-- Cancelling takes a destroy event out if the name is that of one, and none if not. -/
theorem entry_of_cancel {id : EventId} {answer : Option (Action α)} (hc : s.cancel id = .ok (answer, s')) :
    Entry s ⟨.called (.cancel id) answer, s'⟩ := by
  rcases cancel_eq_ok hc with ⟨rfl, rfl, -⟩ | ⟨e, he, hslot, hu, rfl, rfl⟩ | ⟨r, slots, hslot, -, rfl, rfl⟩
  · exact entry_of_eq rfl rfl rfl rfl
  · have hd : (Deed.called (.cancel id) (some (.perform e.action)) : Deed α).unregistered? = some id.uid := if_pos hslot
    refine ⟨?_, ?_, by simp [Deed.tornDown?]⟩
    · simp only [hd, Option.toList_some, List.mem_singleton]
      change s.destroyEvents.filter _ = (s.destroyEvents ++ []).filter _
      rw [List.append_nil]
      exact List.filter_congr fun d _ => (decide_not).symm
    · simp only [hd, Option.toList_some, List.mem_singleton]
      rintro u rfl
      exact hu ▸ List.mem_map_of_mem he
  · exact entry_of_eq rfl rfl (if_neg hslot) rfl

/-- One case for each thing that can happen. A registered event comes last and the first one begins, so they begin in
the order in which they were registered. -/
theorem entry_of_step (hs : s.Sound) (hr : s.Registered) (h : s.Step m) (hm : m.deed.clears = false) : Entry s m := by
  cases h with
  | @called c answer s' hc =>
    cases c with
    | schedule | scheduleIn | stopAfter =>
      refine entry_of_eq ?_ rfl rfl rfl
      rcases keep_cases (Except.ok.inj hc) with rfl | ⟨time, -, rfl⟩ <;> rfl
    | scheduleAt | stopAt =>
      refine entry_of_eq ?_ rfl rfl rfl
      rcases keep_scheduleAt_cases hc with rfl | ⟨time, -, rfl⟩ <;> rfl
    | scheduleNow | stop | setRng => cases hc; exact entry_of_eq rfl rfl rfl rfl
    | cancel id => exact entry_of_cancel hc
    | scheduleDestroy a =>
      cases hc
      exact ⟨by simp [Deed.tornDown?, Deed.registered?, Deed.unregistered?],
        by simp [Deed.unregistered?], by simp [Deed.tornDown?]⟩
  | began hn ha =>
    obtain ⟨-, he, -⟩ := hs.nextEvent_eq_some hn
    obtain ⟨-, rfl⟩ := advance_eq_ok ha
    exact entry_of_eq (by rw [he]) rfl rfl rfl
  | idled hn =>
    obtain ⟨-, -, he, -⟩ := hs.nextEvent_eq_none hn
    exact entry_of_eq (by rw [he]) rfl rfl rfl
  | @tornDown e rest he =>
    have hnodup := hr.nodup
    rw [he, List.map_cons, List.nodup_cons] at hnodup
    refine ⟨by simp [Deed.tornDown?, Deed.registered?, Deed.unregistered?, he, beginDestroy],
      by simp [Deed.unregistered?], ?_⟩
    simp only [Deed.tornDown?, Option.toList_some, List.mem_singleton, forall_eq]
    exact ⟨hnodup.1, hr.lt_next e (by rw [he]; exact List.mem_cons_self)⟩
  | cleared => cases hm
  | switched => exact entry_of_eq rfl rfl rfl rfl

/-- To register a destroy event gives out its name. -/
theorem exists_named?_of_registered? {d : Deed α} {e : DestroyEvent α} (h : d.registered? = some e) :
    ∃ id, d.named? = some id ∧ id.uid = e.uid := by
  unfold Deed.registered? at h
  split at h
  · cases h
    exact ⟨_, rfl, rfl⟩
  · cases h

/-- Destroy events get new numbers too. -/
theorem Path.nextUid_le_of_registered (hp : Path s ms t) (hs : s.Sound) {e : DestroyEvent α} (he : e ∈ registered ms) :
    s.nextUid ≤ e.uid := by
  obtain ⟨m, hm, hd⟩ := List.mem_filterMap.1 he
  obtain ⟨id, hid, hu⟩ := exists_named?_of_registered? hd
  exact hu ▸ ((hp.named_lt hs).2 m hm id hid).1

/-- Destroy events are registered in the order of their numbers. -/
theorem Path.pairwise_registered (hp : Path s ms t) (hs : s.Sound) :
    ((registered ms).map DestroyEvent.uid).Pairwise (· < ·) := by
  induction hp with
  | nil => exact .nil
  | @cons s t m ms hm hp ih =>
    have hs' := Sound.step s m hs hm
    rw [registered_cons, List.map_append, List.pairwise_append]
    refine ⟨by cases m.deed.registered? <;> simp, ih hs', ?_⟩
    intro u hu v hv
    obtain ⟨e, he, rfl⟩ := List.mem_map.1 hu
    obtain ⟨e', he', rfl⟩ := List.mem_map.1 hv
    obtain ⟨id, hid, hu⟩ := exists_named?_of_registered? (Option.mem_toList.1 he)
    have hlt := ((Path.single hm).named_lt hs).2 m List.mem_cons_self id hid
    have hle := hp.nextUid_le_of_registered hs' he'
    omega

/-- What is cancelled on a path was waiting when it began, or was registered on it. -/
theorem Path.known_of_unregistered (hp : Path s ms t) (hb : Books gone taken s) (hms : ∀ m ∈ ms, m.deed.clears = false)
    {u : Nat} (hu : u ∈ unregistered ms) : u ∈ s.destroyEvents.map DestroyEvent.uid ∨ s.nextUid ≤ u := by
  induction hp generalizing gone taken with
  | nil => cases hu
  | @cons s t m ms hm hp ih =>
    have hentry := entry_of_step hb.sound hb.registered hm (hms m List.mem_cons_self)
    rw [unregistered_cons, List.mem_append] at hu
    rcases hu with hu | hu
    · exact .inl (hentry.known u hu)
    rcases ih (hb.step hm) (fun n hn => hms n (List.mem_cons_of_mem _ hn)) hu with hwaits | hle
    · obtain ⟨e, he, rfl⟩ := List.mem_map.1 hwaits
      have he : e ∈ m.deed.tornDown?.toList ++ m.state.destroyEvents := List.mem_append_right _ he
      rw [hentry.balance] at he
      rcases List.mem_append.1 (List.mem_of_mem_filter he) with he | he
      · exact .inl (List.mem_map_of_mem he)
      · refine .inr ((Path.single hm).nextUid_le_of_registered hb.sound ?_)
        rw [registered_cons]
        exact List.mem_append_left _ he
    · exact .inr (Nat.le_trans ((Path.single hm).named_lt hb.sound).1 hle)

/-- As long as nothing is forgotten, the destroy events that began and those that wait are, in order, the ones that waited
or were registered and that were not cancelled. By induction on the path: what is cancelled later neither began before nor is
registered after that. -/
theorem Path.ledger (hp : Path s ms t) (hb : Books gone taken s) (hms : ∀ m ∈ ms, m.deed.clears = false) :
    tornDown ms ++ t.destroyEvents =
      (s.destroyEvents ++ registered ms).filter fun e => e.uid ∉ unregistered ms := by
  induction hp generalizing gone taken with
  | nil s => simp [tornDown, registered, unregistered]
  | @cons s t m ms hm hp ih =>
    have hentry := entry_of_step hb.sound hb.registered hm (hms m List.mem_cons_self)
    have hms' : ∀ n ∈ ms, n.deed.clears = false := fun n hn => hms n (List.mem_cons_of_mem _ hn)
    have hnext := ((Path.single hm).named_lt hb.sound).1
    have hspent : (m.deed.tornDown?.toList.filter fun e => e.uid ∉ unregistered ms) = m.deed.tornDown?.toList := by
      refine List.filter_eq_self.2 fun e he => decide_eq_true fun hu => ?_
      obtain ⟨hgone, hlt⟩ := hentry.spent e he
      rcases hp.known_of_unregistered (hb.step hm) hms' hu with hwaits | hle
      · exact hgone hwaits
      · omega
    have hnew : ∀ e ∈ registered ms, e.uid ∉ m.deed.unregistered?.toList := by
      intro e he hu
      obtain ⟨e', he', hu'⟩ := List.mem_map.1 (hentry.known e.uid hu)
      have hle := hp.nextUid_le_of_registered (Sound.step s m hb.sound hm) he
      have hlt := hb.registered.lt_next e' he'
      omega
    calc tornDown (m :: ms) ++ t.destroyEvents
        = m.deed.tornDown?.toList ++ (tornDown ms ++ t.destroyEvents) := by rw [tornDown_cons, List.append_assoc]
      _ = m.deed.tornDown?.toList ++ (m.state.destroyEvents ++ registered ms).filter fun e => e.uid ∉ unregistered ms := by
          rw [ih (hb.step hm) hms']
      _ = (m.deed.tornDown?.toList ++ m.state.destroyEvents).filter (fun e => e.uid ∉ unregistered ms) ++
            (registered ms).filter fun e => e.uid ∉ unregistered ms := by
          rw [List.filter_append, ← List.append_assoc]
          conv_lhs => rw [← hspent]
          rw [← List.filter_append]
      _ = (s.destroyEvents ++ m.deed.registered?.toList).filter (fun e => e.uid ∉ unregistered (m :: ms)) ++
            (registered ms).filter fun e => e.uid ∉ unregistered (m :: ms) := by
          rw [hentry.balance, List.filter_filter]
          congr 1
          · refine List.filter_congr fun e _ => ?_
            simp [unregistered_cons, and_comm]
          · refine List.filter_congr fun e he => ?_
            simp [unregistered_cons, hnew e he]
      _ = (s.destroyEvents ++ registered (m :: ms)).filter fun e => e.uid ∉ unregistered (m :: ms) := by
          rw [← List.filter_append, registered_cons, List.append_assoc]

/-! ## One teardown -/

/-- Destroy events are executed one after the other, until none is left or the action of one fails, whose error is the
result. -/
inductive TearsDown (meaning : Meaning α ω) :
    Simulator α → ω → List (DestroyEvent α) → Except SimError Unit → Simulator α → ω → Prop
  | done {s : Simulator α} {w : ω} (h : s.destroyEvents = []) : TearsDown meaning s w [] (.ok ()) s w
  | failed {s s' : Simulator α} {w w' : ω} {e : DestroyEvent α} {rest : List (DestroyEvent α)} {error : SimError}
      (h : s.destroyEvents = e :: rest)
      (hx : Simulator.perform meaning (.perform e.action) (s.beginDestroy rest) w = .ok (.error error, s', w')) :
      TearsDown meaning s w [e] (.error error) s' w'
  | next {s s₁ s' : Simulator α} {w w₁ w' : ω} {e : DestroyEvent α} {rest es : List (DestroyEvent α)}
      {result : Except SimError Unit} (h : s.destroyEvents = e :: rest)
      (hx : Simulator.perform meaning (.perform e.action) (s.beginDestroy rest) w = .ok (.ok (), s₁, w₁))
      (hs : TearsDown meaning s₁ w₁ es result s' w') : TearsDown meaning s w (e :: es) result s' w'

section Teardown

variable {meaning : Meaning α ω} {fuel : Nat} {w w' : ω} {result : Except SimError Unit}

/-- Unless an action failed, no destroy event is left. -/
theorem TearsDown.destroyEvents_eq {es : List (DestroyEvent α)} (h : TearsDown meaning s w es result s' w')
    (hok : result = .ok ()) : s'.destroyEvents = [] := by
  induction h with
  | done h => exact h
  | failed => cases hok
  | next _ _ _ ih => exact ih hok

/-- Actions begin no destroy events: they cannot drive the simulator. -/
theorem tornDown?_of_actionMoments {action : Action α} (hm : m ∈ actionMoments meaning action s w) :
    m.deed.tornDown? = none ∧ m.deed.clears = false := by
  rcases deed_of_actionMoments hm with ⟨c, answer, hd⟩ | hd
  · rw [hd]
    exact ⟨rfl, rfl⟩
  · rw [hd]
    exact ⟨rfl, rfl⟩

theorem tornDown_actionMoments (action : Action α) : tornDown (actionMoments meaning action s w) = [] :=
  List.filterMap_eq_nil_iff.2 fun _ hm => (tornDown?_of_actionMoments hm).1

/-- By induction on the fuel, one destroy event at a time, up to the first whose action fails. -/
theorem tearsDown_of_destroyLoop (h : destroyLoop meaning fuel s w = .ok (result, s', w')) :
    TearsDown meaning s w (tornDown (destroyLoopMoments meaning fuel s w)) result s' w' := by
  induction fuel generalizing s w with
  | zero => cases h
  | succ fuel ih =>
    rw [destroyLoop] at h
    rw [destroyLoopMoments]
    cases he : s.destroyEvents with
    | nil =>
      rw [he] at h
      cases h
      exact .done he
    | cons e rest =>
      simp only [he] at h
      rw [show ({ s with
          destroyEvents := rest
          metrics := { s.metrics with executed := s.metrics.executed + 1 } } : Simulator α) = s.beginDestroy rest from rfl] at h
      simp only [List.cons_append, tornDown_cons, tornDown_append, tornDown_actionMoments, Deed.tornDown?,
        Option.toList_some, List.nil_append]
      cases hx : Simulator.perform meaning (.perform e.action) (s.beginDestroy rest) w with
      | error f => rw [hx] at h; cases h
      | ok x =>
        obtain ⟨error | ⟨⟩, s₁, w₁⟩ := x
        · rw [hx] at h
          cases h
          exact .failed he hx
        · rw [hx] at h
          exact .next he hx (ih h)

theorem clears_of_destroyLoopMoments (hm : m ∈ destroyLoopMoments meaning fuel s w) : m.deed.clears = false := by
  induction fuel generalizing s w with
  | zero => cases hm
  | succ fuel ih =>
    rw [destroyLoopMoments] at hm
    split at hm
    case h_1 => cases hm
    case h_2 =>
      rcases List.mem_append.1 hm with hm | hm
      · rcases List.mem_cons.1 hm with rfl | hm
        · rfl
        · exact (tornDown?_of_actionMoments hm).2
      · split at hm
        case h_1 => exact ih hm
        case h_2 => cases hm

/-- A teardown that returned has executed destroy events and then forgotten everything. -/
theorem destroy_eq_ok (hrunning : s.running = false) {rest : List α}
    (hx : s.destroy meaning fuel w = .ok ((result, rest), s', w')) :
    ∃ s₁, destroyLoop meaning fuel { s with running := true } w = .ok (result, s₁, w') ∧
      s' = { s₁ with running := false }.clear.2 ∧
      destroyMoments meaning fuel s w = (⟨.switched, { s with running := true }⟩ ::
        destroyLoopMoments meaning fuel { s with running := true } w) ++ [⟨.cleared, s'⟩] := by
  simp only [destroy, hrunning, Bool.false_eq_true, if_false] at hx
  obtain ⟨⟨result', s₁, w₁⟩, hloop, hx⟩ := Outcome.bind_eq_ok_iff.1 hx
  cases hx
  refine ⟨s₁, hloop, rfl, ?_⟩
  simp only [destroyMoments, hrunning, Bool.false_eq_true, if_false, hloop]

end Teardown

/-! ## Since the last teardown -/

/-- Whenever a destroy event begins, everything is forgotten afterwards. -/
def Settled : List (Moment α) → Prop
  | [] => True
  | m :: ms => (m.deed.tornDown? ≠ none → ∃ n ∈ ms, n.deed.clears = true) ∧ Settled ms

/-- One settled history after another is settled. -/
theorem settled_append (hms : Settled ms) (hns : Settled ns) : Settled (ms ++ ns) := by
  induction ms with
  | nil => exact hns
  | cons m ms ih =>
    refine ⟨fun hm => ?_, ih hms.2⟩
    obtain ⟨n, hn, hd⟩ := hms.1 hm
    exact ⟨n, List.mem_append_left _ hn, hd⟩

theorem Settled.right (h : Settled (ms ++ ns)) : Settled ns := by
  induction ms with
  | nil => exact h
  | cons m ms ih => exact ih h.2

theorem settled_of_none (h : ∀ m ∈ ms, m.deed.tornDown? = none) : Settled ms := by
  induction ms with
  | nil => trivial
  | cons m ms ih =>
    exact ⟨fun hm => absurd (h m List.mem_cons_self) hm, ih fun n hn => h n (List.mem_cons_of_mem _ hn)⟩

/-- A history that ends with everything forgotten is settled. -/
theorem settled_concat (hm : m.deed.clears = true) : Settled (ms ++ [m]) := by
  induction ms with
  | nil =>
    refine ⟨fun h => ?_, trivial⟩
    cases hd : m.deed with
    | tornDown e => rw [hd] at hm; cases hm
    | called | began | idled | cleared | switched => rw [hd] at h; exact absurd rfl h
  | cons n ms ih => exact ⟨fun _ => ⟨m, List.mem_append_right _ List.mem_cons_self, hm⟩, ih⟩

theorem clears_of_mem_sinceCleared (hm : m ∈ sinceCleared ms) : m.deed.clears = false := by
  simpa using List.mem_rtakeWhile_imp hm

/-- No destroy event began since the last teardown. -/
theorem Settled.tornDown_sinceCleared (h : Settled ms) : tornDown (sinceCleared ms) = [] := by
  obtain ⟨pre, hpre⟩ : sinceCleared ms <:+ ms := List.rtakeWhile_suffix _ _
  have hsince : Settled (sinceCleared ms) := (hpre.symm ▸ h : Settled (pre ++ sinceCleared ms)).right
  refine List.filterMap_eq_nil_iff.2 fun m hm => ?_
  obtain ⟨before, after, he⟩ := List.append_of_mem hm
  have hrest : Settled (m :: after) := (he ▸ hsince : Settled (before ++ m :: after)).right
  by_contra hd
  obtain ⟨n, hn, hclears⟩ := hrest.1 hd
  have hmem : n ∈ sinceCleared ms := he ▸ List.mem_append_right _ (List.mem_cons_of_mem _ hn)
  cases hclears.symm.trans (clears_of_mem_sinceCleared hmem)

/-- Since the last teardown, or the beginning, the history starts without destroy events. -/
theorem Path.sinceCleared (hp : Path s ms t) (hb : Books gone taken s) (he : s.destroyEvents = []) :
    ∃ u gone taken, Path u (SimKernel.sinceCleared ms) t ∧ Books gone taken u ∧ u.destroyEvents = [] := by
  induction ms using List.reverseRecOn generalizing t with
  | nil => exact ⟨s, gone, taken, by cases hp; exact .nil _, hb, he⟩
  | append_singleton ms m ih =>
    obtain ⟨u, hu, hm, hlast⟩ := hp.split
    cases hlast
    cases hd : m.deed.clears with
    | true =>
      rw [SimKernel.sinceCleared, List.rtakeWhile_concat_neg _ _ _ (by simp [hd])]
      refine ⟨m.state, _, _, .nil _, hp.books hb, ?_⟩
      cases hm with
      | cleared => rfl
      | called | began | idled | tornDown | switched => cases hd
    | false =>
      obtain ⟨v, gone', taken', hv, hbooks, hnone⟩ := ih hu
      rw [SimKernel.sinceCleared, List.rtakeWhile_concat_pos _ _ _ (by simp [hd])]
      exact ⟨v, gone', taken', hv.append (.single hm), hbooks, hnone⟩

section Histories

variable {meaning : Meaning α ω} {fuel : Nat} {w : ω}

theorem tornDown?_of_nextMoments (hm : m ∈ nextMoments meaning s w) : m.deed.tornDown? = none := by
  unfold nextMoments at hm
  split at hm
  · cases List.mem_singleton.1 hm
    rfl
  · split at hm
    · rcases List.mem_cons.1 hm with rfl | hm
      · rfl
      · exact (tornDown?_of_actionMoments hm).1
    · cases hm

theorem tornDown?_of_loopMoments (hm : m ∈ loopMoments meaning fuel s w) : m.deed.tornDown? = none :=
  forall_loopMoments (I := fun _ => True) (fun _ _ _ _ => tornDown?_of_nextMoments) (fun _ _ _ _ _ => trivial) trivial m hm

theorem tornDown?_of_armMoments (hm : m ∈ armMoments s) : m.deed.tornDown? = none := by
  rcases deed_of_armMoments hm with ⟨time, answer, hd⟩ | hd
  · rw [hd]
    rfl
  · rw [hd]
    rfl

theorem tornDown?_of_runMoments (hm : m ∈ runMoments meaning fuel s w) : m.deed.tornDown? = none := by
  unfold runMoments at hm
  split at hm
  · cases hm
  · rcases List.mem_append.1 hm with hm | hm
    · exact tornDown?_of_armMoments hm
    · split at hm
      · rcases List.mem_cons.1 hm with rfl | hm
        · rfl
        · exact tornDown?_of_loopMoments hm
      · cases hm

theorem tornDown?_of_stepMoments (hm : m ∈ stepMoments meaning s w) : m.deed.tornDown? = none := by
  unfold stepMoments at hm
  split at hm
  · cases hm
  · rcases List.mem_cons.1 hm with rfl | hm
    · rfl
    · exact tornDown?_of_nextMoments hm

/-- Only a teardown begins destroy events, and one that returns forgets everything at its end. -/
theorem settled_within (d : Drive) {x : d.Answer α × Simulator α × ω} (h : handler meaning fuel d s w = .ok x) :
    Settled (within meaning fuel d s w) := by
  cases d with
  | run => exact settled_of_none fun m => tornDown?_of_runMoments
  | step => exact settled_of_none fun m => tornDown?_of_stepMoments
  | destroy =>
    cases hrunning : s.running with
    | true => simp only [within, destroyMoments, hrunning, if_true, Settled]
    | false =>
      obtain ⟨⟨result, rest⟩, s', w'⟩ := x
      obtain ⟨s₁, -, -, hms⟩ := destroy_eq_ok hrunning h
      simp only [within, hms]
      exact settled_concat rfl

/-- By induction on the program, for the moments of each of its requests. -/
theorem settled_moments {p : Program α ω ρ} {x : Outcome α ω ρ} (h : p.exec (handler meaning fuel) s w = .ok x) :
    Settled (p.moments (handler meaning fuel) (within meaning fuel) s w) := by
  induction p generalizing s w with
  | done | fail => trivial
  | fault => cases h
  | ask q next ih =>
    obtain ⟨a, ha, hrest⟩ := Program.exec_ask_eq_ok h
    simp only [Program.moments, ha]
    exact ih a hrest
  | call c next ih =>
    obtain ⟨a, s₁, hc, hrest⟩ := Program.exec_call_eq_ok h
    simp only [Program.moments, hc]
    refine ⟨fun hd => absurd ?_ hd, ih a hrest⟩
    cases c <;> rfl
  | drive d next ih =>
    obtain ⟨a, s₁, w₁, hd, hrest⟩ := Program.exec_drive_eq_ok h
    simp only [Program.moments, hd]
    exact settled_append (settled_within d hd) ⟨fun hd => absurd rfl hd, ih a hrest⟩
  | look next ih => exact ih w h
  | change g next ih => exact ih h

end Histories

/-! ## Old names -/

/-- The event with the name does not wait, and whatever is asked of it, the answer says so. -/
structure Gone (s : Simulator α) (id : EventId) : Prop where
  isPending : s.isPending id = .ok false
  cancel : s.cancel id = .ok (none, s)
  delayLeft : s.delayLeft id = .ok Time.zero

/-- All events that wait have numbers from `n` on. -/
structure Later (n : Nat) (s : Simulator α) : Prop where
  pending : ∀ slot r, s.slots.record? slot = some r → n ≤ r.uid
  registered : ∀ e ∈ s.destroyEvents, n ≤ e.uid
  next : n ≤ s.nextUid

variable {n : Nat} {id : EventId}

/-- A number that is less than those of all events that wait is the number of none of them. -/
theorem Later.gone_of_lt (h : Later n s) (hid : s.Issued id) (hn : id.uid < n) : s.Gone id := by
  have hpending : s.isPending id = .ok false := by
    rw [isPending_eq_false_iff hid]
    split
    · intro e he hu
      have := h.registered e he
      omega
    · rw [Option.eq_none_iff_forall_ne_some]
      intro r hr
      obtain ⟨hr, hu⟩ := EventSlots.get?_eq_some_iff.1 hr
      have := h.pending _ r hr
      omega
  exact ⟨hpending, cancel_of_isPending hpending, delayLeft_of_isPending hpending⟩

/-- New events get new numbers. -/
theorem Later.step (h : Later n s) (hb : Books gone taken s) (hs : s.Step m) : Later n m.state where
  pending slot r hr := by
    rcases hb.sound.record?_of_step hs hr with hr | ⟨-, hu⟩
    · exact h.pending slot r hr
    · exact hu ▸ h.next
  registered e he := by
    cases hd : m.deed.clears with
    | true =>
      cases hs with
      | cleared => cases he
      | called | began | idled | tornDown | switched => cases hd
    | false =>
      have he : e ∈ m.deed.tornDown?.toList ++ m.state.destroyEvents := List.mem_append_right _ he
      rw [(entry_of_step hb.sound hb.registered hs hd).balance] at he
      rcases List.mem_append.1 (List.mem_of_mem_filter he) with he | he
      · exact h.registered e he
      · have hle := (Path.single hs).nextUid_le_of_registered hb.sound (e := e)
          (by rw [registered_cons]; exact List.mem_append_left _ he)
        exact Nat.le_trans h.next hle
  next := Nat.le_trans h.next ((Path.single hs).named_lt hb.sound).1

/-- Numbers only grow, so an old one never comes back. -/
theorem Path.later (hp : Path s ms t) (hb : Books gone taken s) (h : Later n s) : Later n t := by
  induction hp generalizing gone taken with
  | nil => exact h
  | cons hs _ ih => exact ih (hb.step hs) (h.step hb hs)

theorem Decision.owner_eq {span : Int} {context : ContextId} {action : Action α}
    {x : Except Fault (Except SimError EventId × Simulator α)} (h : Decision s span context action x)
    (hx : x = .ok (.ok id, s')) : id.owner = s.owner := by
  cases h with
  | added _ _ ha => cases hx; exact ha.owner
  | faulted | past | late => cases hx

/-- A name says whose it is: the simulator that gave it out. -/
theorem owner_of_perform (hs : s.Sound) {c : Call α} {answer : c.Answer} (hc : c.perform s = .ok (answer, s'))
    (hid : (Deed.called c answer).named? = some id) : id.owner = s.owner := by
  have ofOk {answer : Except SimError EventId} : answer.toOption = some id → answer = .ok id :=
    Outcome.toOption_eq_some_iff.1
  cases c with
  | schedule | scheduleIn | stopAfter => exact (decision_scheduleIn hs _ _ _).owner_eq (ofOk hid ▸ hc)
  | scheduleAt | stopAt => exact (decision_scheduleAt hs _ _).owner_eq (ofOk hid ▸ hc)
  | scheduleNow a =>
    cases hc
    cases hid
    exact (hs.adds_insert s.now s.context (.perform a)).owner
  | scheduleDestroy a => cases hc; cases hid; rfl
  | cancel | stop | setRng => cases hid

/-- Names that are given out on a path are known at its end. -/
theorem Path.issued (hp : Path s ms t) (hs : s.Sound) (hm : m ∈ ms) (hid : m.deed.named? = some id) : t.Issued id := by
  refine ⟨?_, ((hp.named_lt hs).2 m hm id hid).2⟩
  induction hp with
  | nil => cases hm
  | @cons s t m' ms hstep hp ih =>
    have hs' := Sound.step s m' hs hstep
    have howner : t.owner = m'.state.owner := (hp.sound_settings hs').2.1
    rcases List.mem_cons.1 hm with rfl | hm
    · cases hstep with
      | called hc => exact ((owner_of_perform hs hc hid).trans (hs.step_owner (.called hc)).1.symm).trans howner.symm
      | began | idled | tornDown | cleared | switched => cases hid
    · exact ih hs' hm

/-! ## The clock -/

/-- Only an event that begins moves the clock. -/
theorem Sound.clock_of_step (hs : s.Sound) (h : s.Step m) (hb : m.deed.began? = none) :
    m.state.now = s.now ∧ m.state.context = s.context := by
  cases h with
  | called hc => cases effect_of_perform hc <;> exact ⟨rfl, rfl⟩
  | began => cases hb
  | idled hn =>
    obtain ⟨-, -, he, -⟩ := hs.nextEvent_eq_none hn
    exact ⟨by rw [he], by rw [he]⟩
  | tornDown | cleared | switched => exact ⟨rfl, rfl⟩

/-- Without an event that begins the clock stands still. -/
theorem Path.clock_eq (hp : Path s ms t) (hs : s.Sound) (h : executed ms = []) :
    t.now = s.now ∧ t.context = s.context := by
  induction hp with
  | nil => exact ⟨rfl, rfl⟩
  | @cons s t m ms hm _ ih =>
    rw [executed_cons, List.append_eq_nil_iff] at h
    obtain ⟨hnow, hcontext⟩ := hs.clock_of_step hm (by simpa using h.1)
    obtain ⟨hnow', hcontext'⟩ := ih (Sound.step s m hs hm) h.2
    exact ⟨hnow'.trans hnow, hcontext'.trans hcontext⟩

/-! ## Every teardown -/

/-- The simulator after a teardown. -/
theorem later_of_clear (s : Simulator α) : Later s.nextUid s.clear.2 where
  pending slot r hr := absurd (hr.symm.trans (EventSlots.record?_empty slot)) (Option.some_ne_none r)
  registered _ he := absurd he List.not_mem_nil
  next := Nat.le_refl _

/-- What is issued stays issued. -/
theorem Path.issued_of_issued (hp : Path s ms t) (hs : s.Sound) (hid : s.Issued id) : t.Issued id :=
  ⟨hid.owner.trans (hp.sound_settings hs).2.1.symm, Nat.lt_of_lt_of_le hid.uid_lt (hp.named_lt hs).1⟩

/-- **Teardowns.** Let a driver reach the simulator `s`, and let a teardown of it return. It has executed destroy events one
after the other, until none was left or an action failed, with whose error it returned. They are, each once and in the order
in which they were registered, the first of those that were registered since the last teardown or in the course of this one
and not cancelled, and unless an action failed they are all of those. Afterwards nothing is pending or waits for a teardown,
the slots are given out from zero again, and clock and context are what they were. All events that were ever named before the
end of the teardown are gone then, and they stay so whatever happens next: they are not pending, cancelling them does nothing,
and no time is left for them. -/
theorem torn_down_in_order {meaning : Meaning α ω} {fuel owner : Nat} {config : Config} {p : Program α ω ρ} {w₀ w w' : ω}
    {res : Except SimError ρ} (hp : p.exec (handler meaning fuel) (ofConfig owner config) w₀ = .ok (res, s, w))
    {result : Except SimError Unit} {rest : List α} (hx : s.destroy meaning n w = .ok ((result, rest), s', w')) :
    let past := history meaning fuel p (ofConfig owner config) w₀
    let ms := within meaning n .destroy s w
    let recent := sinceCleared past ++ ms
    (∃ s₁, TearsDown meaning { s with running := true } w (tornDown ms) result s₁ w') ∧
    ((tornDown ms).map DestroyEvent.uid).Nodup ∧
    (∃ left, tornDown ms ++ left = ((registered recent).filter fun e => e.uid ∉ unregistered recent) ∧
      (result = .ok () → left = [])) ∧
    s'.pending = 0 ∧ s'.destroyEvents = [] ∧ s'.slots = EventSlots.empty ∧ s'.now = s.now ∧ s'.context = s.context ∧
    (∀ m ∈ past ++ ms, ∀ id, m.deed.named? = some id → s'.Issued id) ∧
    ∀ ns t, Path s' ns t → ∀ id, s'.Issued id → t.Gone id := by
  intro past ms recent
  have hnew : Books 0 0 (ofConfig owner config : Simulator α) := books_ofConfig owner config
  obtain ⟨t, hpast, ht⟩ := path_history meaning fuel p (ofConfig owner config) w₀
  obtain rfl : s = t := ht _ hp
  have hs : s.Sound := (hpast.books hnew).sound
  have hsettled : Settled past := ⟨fun h => absurd rfl h, settled_moments hp⟩
  obtain ⟨s₁, hloop, hs', hms⟩ := destroy_eq_ok (running_of_exec hp rfl) hx
  let started : Simulator α := { s with running := true }
  let body : List (Moment α) := ⟨.switched, started⟩ :: destroyLoopMoments meaning n started w
  have hms : ms = body ++ [⟨.cleared, s'⟩] := hms
  have hbody : Path s body s₁ :=
    .cons (.switched true s.stopRequested s.stopTimeArmed s.stopReason) ((leads_destroyLoop meaning n started w).path hloop)
  have hpath : Path s ms s' := by
    rw [hms, hs']
    exact hbody.append (.single .cleared)
  have hbooks := (hpast.append hpath).books hnew
  -- The end of the teardown enters nothing.
  have htorn : tornDown ms = tornDown body := by simp [hms, tornDown, Deed.tornDown?]
  have hregistered : registered recent = registered (sinceCleared past ++ body) := by
    simp [recent, hms, registered, Deed.registered?]
  have hunregistered : unregistered recent = unregistered (sinceCleared past ++ body) := by
    simp [recent, hms, unregistered, Deed.unregistered?]
  have hturns : TearsDown meaning started w (tornDown ms) result s₁ w' := htorn ▸ tearsDown_of_destroyLoop hloop
  have hledger : tornDown ms ++ s₁.destroyEvents =
      (registered recent).filter fun e => e.uid ∉ unregistered recent := by
    obtain ⟨u, gone, taken, hu, hbu, hnone⟩ := hpast.sinceCleared hnew rfl
    have hledger := (hu.append hbody).ledger hbu ?_
    · rwa [tornDown_append, hsettled.tornDown_sinceCleared, hnone, List.nil_append, List.nil_append, ← htorn,
        ← hregistered, ← hunregistered] at hledger
    · intro m hm
      rcases List.mem_append.1 hm with hm | hm
      · exact clears_of_mem_sinceCleared hm
      · rcases List.mem_cons.1 hm with rfl | hm
        · rfl
        · exact clears_of_destroyLoopMoments hm
  have hnodup : ((registered recent).map DestroyEvent.uid).Nodup := by
    obtain ⟨u, gone, taken, hu, hbu, -⟩ := hpast.sinceCleared hnew rfl
    exact ((hu.append hpath).pairwise_registered hbu.sound).imp Nat.ne_of_lt
  have hclock := hpath.clock_eq hs ?_
  · refine ⟨⟨s₁, hturns⟩, ?_, ⟨s₁.destroyEvents, hledger, hturns.destroyEvents_eq⟩, ?_, ?_, ?_, hclock.1, hclock.2, ?_, ?_⟩
    · have hsub : (tornDown ms).Sublist (registered recent) :=
        (List.sublist_append_left _ s₁.destroyEvents).trans (hledger ▸ List.filter_sublist)
      exact hnodup.sublist (hsub.map _)
    · rw [hs']; rfl
    · rw [hs']; rfl
    · rw [hs']; rfl
    · exact fun m hm id hid => (hpast.append hpath).issued hnew.sound hm hid
    · intro ns t hns id hid
      have hlater : Later s'.nextUid s' := hs' ▸ later_of_clear _
      exact (hns.later hbooks hlater).gone_of_lt (hns.issued_of_issued hbooks.sound hid) hid.uid_lt
  · rw [hms, executed_append, executed_cons, executed_destroyLoop]
    rfl

/-- The first action registers another destroy event and cancels the one with the number one; the third fails. -/
def registersAndFails : Meaning Nat Unit
  | 0 => do
    let _ ← Program.request (.scheduleDestroy 3)
    let _ ← Program.request (.cancel ⟨1, 0, destroySlot⟩)
  | 2 => .fail (.model "failed")
  | _ => .done ()

/-- Three destroy events, and one that is pending. -/
def threeRegistered : Program Nat Unit Unit := do
  let _ ← Program.request (.scheduleDestroy 0)
  let _ ← Program.request (.scheduleDestroy 1)
  let _ ← Program.request (.scheduleDestroy 2)
  let _ ← Program.request (.scheduleNow 4)

/-- The simulator that is about to be torn down. -/
def registeredThree : Simulator Nat :=
  match threeRegistered.exec (handler registersAndFails 3) (ofConfig 0 {}) () with
  | .ok (_, s, _) => s
  | .error _ => default

theorem torn_down_in_order_registeredThree :
    ∃ (s' : Simulator Nat) (error : SimError) (rest : List Nat),
      registeredThree.destroy registersAndFails 3 () = .ok ((.error error, rest), s', ()) ∧
      tornDown (within registersAndFails 3 .destroy registeredThree ()) = [⟨0, 0⟩, ⟨2, 2⟩] ∧ s'.pending = 0 ∧
      ∀ ns t, Path s' ns t → t.Gone ⟨1, 0, destroySlot⟩ ∧ t.Gone ⟨3, 0, 0⟩ ∧ t.Gone ⟨4, 0, destroySlot⟩ := by
  have hp : threeRegistered.exec (handler registersAndFails 3) (ofConfig 0 {}) () = .ok (.ok (), registeredThree, ()) := rfl
  have htorn : tornDown (within registersAndFails 3 .destroy registeredThree ()) = [⟨0, 0⟩, ⟨2, 2⟩] := by decide +kernel
  have hrun : (registeredThree.destroy registersAndFails 3 ()).toOption.map
      (fun x => (decide (x.1.1.toOption = none), x.2.1.owner, x.2.1.nextUid)) = some (true, 0, 5) := by
    decide +kernel
  cases hx : registeredThree.destroy registersAndFails 3 () with
  | error f =>
    rw [hx] at hrun
    cases hrun
  | ok x =>
    rw [hx] at hrun
    obtain ⟨⟨error | ⟨⟩, rest⟩, s', ⟨⟩⟩ := x
    · obtain ⟨-, hids⟩ := Prod.mk.inj (Option.some.inj hrun)
      obtain ⟨howner, hnext⟩ : s'.owner = 0 ∧ s'.nextUid = 5 := Prod.mk.inj hids
      obtain ⟨-, -, -, hpending, -, -, -, -, -, hgone⟩ := torn_down_in_order hp hx
      refine ⟨s', error, rest, rfl, htorn, hpending, fun ns t ht => ⟨?_, ?_, ?_⟩⟩
      · exact hgone ns t ht _ ⟨howner.symm, by rw [hnext]; decide⟩
      · exact hgone ns t ht _ ⟨howner.symm, by rw [hnext]; decide⟩
      · exact hgone ns t ht _ ⟨howner.symm, by rw [hnext]; decide⟩
    · cases hrun

end Simulator

end SimKernel
