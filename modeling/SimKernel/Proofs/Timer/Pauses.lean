import SimKernel.Proofs.Simulator.Finished
import SimKernel.Proofs.Simulator.Order
import SimKernel.Proofs.Timer.Refusals

/-!
# Suspended timers lose no time

A timer that is armed, and then suspended and resumed however often, runs for the whole ticks of its delay in total. When it
runs is told by the requests alone: from when it is armed until a suspension is granted, and from then on only after a
resumption is granted (`runsAfter`). The state that it shows follows them, and as long as it has not fired, the time that is
left is what it has not run yet, be it running or suspended (`Counting`). A step takes off what the clock moved while the timer
was running, or the timer fires, when nothing was left (`Counting.step`), and afterwards it does so no more (`Spent.step`).
Every event is due at a whole tick, so what is left when the timer is suspended is a whole number of ticks, and resuming it
with that delay takes nothing away (`Resolution.quantize_eq_self`).

By induction on the history follows what a whole run comes to (`Counting.path`), and `fires_after_running` says so of every
timer that is armed.
-/

namespace SimKernel

/-- Whole ticks are not shortened. -/
theorem Resolution.quantize_eq_self {resolution : Resolution} {t : Time}
    (h : (resolution.unit.femtos : Int) ∣ t.femtos) : resolution.quantize t = t :=
  Time.ext (Int.tdiv_mul_cancel h)

namespace Timer

variable {α : Type}

/-- The timer is suspended or resumed, or something happens that neither forgets all events nor cancels one of the timer. -/
def Deed.Pauses (uids : List Nat) : Deed α → Prop
  | requested .suspend _ | requested .resume _ => True
  | requested _ _ => False
  | other d => d ≠ .cleared ∧ ∀ uid ∈ uids, ¬ d.Cancels uid

/-- Whether the timer is to run after what happened: not once a suspension was granted, and again once a resumption was. -/
def Deed.runs (running : Bool) : Deed α → Bool
  | requested .suspend (.ok ()) => false
  | requested .resume (.ok ()) => true
  | _ => running

/-- Whether the timer is to run at the end of a history. -/
def runsAfter (running : Bool) (ns : List (Moment α)) : Bool := ns.foldl (fun running n => n.deed.runs running) running

/-- How far the clock moves from one system to the next, if the timer is to run meanwhile. -/
def System.ran (running : Bool) (x y : System α) : Int := if running then y.sim.now.femtos - x.sim.now.femtos else 0

/-- How far the clock moves in the course of a history while the timer is to run. Nothing is read off the timer here: it counts
from the suspensions that were granted and the resumptions that were granted. -/
def runningTime : Bool → System α → List (Moment α) → Int
  | _, _, [] => 0
  | running, x, m :: ms => x.ran running m.state + runningTime (m.deed.runs running) m.state ms

/-- The timer has not fired, and it is left to run for so many femtoseconds: its event lies as far ahead while it runs, and it
remembers the delay while it does not. -/
structure Counting (config : Config) (uids : List Nat) (a : α) (left : Int) (running : Bool) (x : System α) : Prop where
  kept : Kept uids x
  aligned : x.sim.Aligned
  config_eq : x.sim.config = config
  callback : x.timer.callback = some a
  nonneg : 0 ≤ left
  dvd : (config.resolution.unit.femtos : Int) ∣ left
  event : running = true → ∃ id r, x.timer.event = some id ∧ x.timer.remaining = none ∧
    x.sim.slots.get? id.slot id.uid = some r ∧ r.action = .perform a ∧ r.time.femtos = x.sim.now.femtos + left
  remaining : running = false → ∃ d, x.timer.remaining = some d ∧ d.femtos = left

/-- The timer is not suspended, and none of its events is pending. -/
structure Spent (uids : List Nat) (x : System α) : Prop where
  kept : Kept uids x
  remaining : x.timer.remaining = none
  none_pending : ∀ slot r, x.sim.slots.record? slot = some r → r.uid ∉ uids

section Pauses

variable {config : Config} {uids : List Nat} {a : α} {left : Int} {running : Bool} {x y z : System α} {m : Moment α}
  {ns : List (Moment α)}

/-! ## What a timer shows -/

/-- The state that is shown follows the requests. -/
theorem Counting.state_eq (h : Counting config uids a left running x) :
    x.state = if running then .running else .suspended := by
  unfold System.state
  cases running with
  | true =>
    obtain ⟨id, r, he, hr, hg, -⟩ := h.event rfl
    simp [he, hr, hg]
  | false =>
    obtain ⟨d, hr, -⟩ := h.remaining rfl
    simp [hr]

theorem Spent.state_eq (h : Spent uids x) : x.state = .expired := by
  unfold System.state
  rw [h.remaining]
  cases he : x.timer.event with
  | none => rfl
  | some id =>
    have hnone : x.sim.slots.get? id.slot id.uid = none := by
      rw [Option.eq_none_iff_forall_ne_some]
      intro r hg
      obtain ⟨hr, hu⟩ := EventSlots.get?_eq_some_iff.1 hg
      exact h.none_pending _ r hr (hu ▸ h.kept.mem id he)
    simp [hnone]

/-- The time that is shown is what is left. -/
theorem Counting.exists_showsLeft (h : Counting config uids a left running x) : ∃ d, x.ShowsLeft d ∧ d.femtos = left := by
  unfold System.ShowsLeft Timer.delayLeft
  cases running with
  | true =>
    obtain ⟨id, r, he, hr, hg, -, ht⟩ := h.event rfl
    obtain ⟨hid, hslot⟩ := h.kept.named id he
    obtain ⟨d, hleft, hd⟩ := hid.delayLeft_of_get? h.kept.sound hslot hg
    refine ⟨d, fun handle w => ?_, by omega⟩
    simp only [hr, he, Program.query, Program.exec, Query.answer, hleft]
  | false =>
    obtain ⟨d, hr, hd⟩ := h.remaining rfl
    refine ⟨d, fun handle w => ?_, hd⟩
    rw [hr]
    rfl

theorem Spent.shows (h : Spent uids x) : x.Shows .expired := h.state_eq ▸ h.kept.named.shows

/-! ## Requests -/

/-- Requests take no time. -/
theorem ran_eq_zero (h : y.sim.now = x.sim.now) : x.ran running y = 0 := by
  cases running with
  | true => exact Int.sub_eq_zero.2 (congrArg Time.femtos h)
  | false => rfl

/-- The one way in which a request is answered is the way in which it was answered. -/
theorem Step.eq_of_answers {q : Request α} {result result' : Except SimError Unit} (hm : Step x m)
    (hd : m.deed = .requested q result) (h : x.Answers q result' y) : result = result' ∧ m.state = y := by
  cases hm with
  | requested he =>
    cases hd
    cases he.symm.trans (h _ _)
    exact ⟨rfl, rfl⟩
  | other => cases hd

/-- To the simulator a step is a path. -/
theorem Kept.exists_path (h : Kept uids x) (hm : Step x m) : ∃ ns, Simulator.Path x.sim ns m.state.sim := by
  cases hm with
  | requested he =>
    obtain ⟨ns, hns, -⟩ := h.path_of_effect (h.effect_of_exec he)
    exact ⟨ns, hns⟩
  | other hs => exact ⟨_, .single hs⟩

/-- Whole ticks stay whole ticks, and settings stay what they are. -/
theorem Kept.aligned_step (h : Kept uids x) (ha : x.sim.Aligned) (hm : Step x m) :
    m.state.sim.Aligned ∧ m.state.sim.config = x.sim.config := by
  obtain ⟨ns, hns⟩ := h.exists_path hm
  exact (hns.sound_aligned h.sound ha).1.2

/-- Numbers are not given out again, and the clock is not set back. -/
theorem Kept.mono_step (h : Kept uids x) (hm : Step x m) :
    x.sim.nextUid ≤ m.state.sim.nextUid ∧ x.sim.now.femtos ≤ m.state.sim.now.femtos := by
  obtain ⟨ns, hns⟩ := h.exists_path hm
  exact ⟨(hns.named_lt h.sound).1, (hns.now_le h.sound).1⟩

theorem Request.program_eq_armAfter {ω : Type} {q : Request α} {t : Timer α} {d : Time} (h : q.delay? t = some d) :
    (q.program t : Program α ω _) = t.armAfter d := by
  cases q with
  | arm => cases h; rfl
  | armAfter => cases h; rfl
  | resume =>
    have h : t.remaining = some d := h
    simp only [program, Timer.resume, h]
  | setFunction | setDelay | cancel | suspend => cases h

/-- A timer with a callback is armed unless no instant lies as far ahead as the whole ticks of the delay. -/
theorem Kept.answers_arm (h : Kept uids x) (ha : x.timer.callback = some a) {q : Request α} {d : Time}
    (hq : q.delay? x.timer = some d) (hd : 0 ≤ d.femtos)
    (hfits : x.sim.now.femtos + (x.sim.config.resolution.quantize d).femtos ≤ Time.greatest) :
    ∃ time : Time, time.femtos = x.sim.now.femtos + (x.sim.config.resolution.quantize d).femtos ∧
      x.Answers q (.ok ()) (x.armed a time) := by
  have hfewer := h.named.fewer h.sound
  have hdeclines : ¬ x.disarmed.Declines d := by
    rw [declines_disarmed]
    rintro (hneg | hlate)
    · omega
    · exact absurd hfits (Int.not_le.2 hlate)
  rcases x.disarmed.scheduleIn_cases x.disarmed.context d (.perform a) with he | ⟨time, ht, he⟩
  · exact absurd (Simulator.exists_error_iff.1 he) hdeclines
  have hc : (Call.schedule d a).perform x.disarmed =
      .ok (.ok (x.disarmed.insert time x.disarmed.context (.perform a)).1, (x.armed a time).sim) := by
    simp only [Call.perform, he]
    rfl
  exact ⟨time, by rw [ht, hfewer.now, hfewer.config],
    h.named.answers_armed ha (fun _ => Request.program_eq_armAfter hq) hc⟩

/-- A timer that is armed is left to run for the whole ticks of the delay. -/
theorem counting_of_arms (h : Kept uids x) (haligned : x.sim.Aligned) (hconfig : x.sim.config = config)
    (ha : x.timer.callback = some a) (hm : Step x m) {q : Request α} {result : Except SimError Unit}
    (hdeed : m.deed = .requested q result) {d : Time} (hq : q.delay? x.timer = some d) (hd : 0 ≤ d.femtos)
    (hfits : x.sim.now.femtos + (config.resolution.quantize d).femtos ≤ Time.greatest)
    (room : m.state.sim.pending ≤ Simulator.destroySlot) :
    result = .ok () ∧ m.state.sim.now = x.sim.now ∧
      Counting config (uids ++ m.number?.toList) a (config.resolution.quantize d).femtos true m.state := by
  subst hconfig
  obtain ⟨time, ht, hanswers⟩ := h.answers_arm ha hq hd hfits
  obtain ⟨rfl, hstate⟩ := hm.eq_of_answers hdeed hanswers
  have hnow : (x.armed a time).sim.now = x.sim.now := (h.named.fewer h.sound).now
  obtain ⟨haligned', hconfig'⟩ := h.aligned_step haligned hm
  have hkept := h.step hm room
  rw [hstate] at haligned' hconfig' hkept ⊢
  refine ⟨rfl, hnow, hkept, haligned', hconfig', ha, x.sim.config.resolution.quantize_nonneg hd,
    Resolution.dvd_quantize _ _, fun _ => ⟨_, ⟨x.disarmed.nextUid, time, x.disarmed.context, .perform a⟩,
      event_armed x a time, rfl, ?_, rfl, ?_⟩, nofun⟩
  · exact EventSlots.get?_eq_some_iff.2 ⟨h.named.record?_armed h.sound a time, rfl⟩
  · rw [hnow, ht]

/-- A running timer is suspended with what is left. One that is suspended already refuses. -/
theorem Counting.suspend (h : Counting config uids a left running x) (hm : Step x m) {result : Except SimError Unit}
    (hd : m.deed = .requested .suspend result) (room : m.state.sim.pending ≤ Simulator.destroySlot) :
    m.state.sim.now = x.sim.now ∧ Counting config (uids ++ m.number?.toList) a left (m.deed.runs running) m.state := by
  have hnumber : m.number? = none := by
    obtain ⟨deed, state⟩ := m
    cases hd
    exact number?_eq_none nofun
  cases running with
  | true =>
    have hkept := h.kept.step hm room
    obtain ⟨haligned, hconfig⟩ := h.kept.aligned_step h.aligned hm
    obtain ⟨d, hleft, hd'⟩ := h.exists_showsLeft
    obtain ⟨rfl, hstate⟩ := hm.eq_of_answers hd (h.kept.named.answers_suspend h.state_eq hleft)
    rw [hd]
    rw [hstate] at hkept haligned hconfig ⊢
    exact ⟨(h.kept.named.fewer h.kept.sound).now, hkept, haligned, hconfig.trans h.config_eq, h.callback, h.nonneg, h.dvd,
      nofun, fun _ => ⟨d, rfl, hd'⟩⟩
  | false =>
    obtain ⟨rfl, hstate⟩ := hm.eq_of_answers hd (h.kept.named.refuses_suspend (by rw [h.state_eq]; nofun))
    rw [hnumber, hd, hstate, Option.toList_none, List.append_nil]
    exact ⟨rfl, h⟩

/-- A suspended timer is resumed with what was left. One that is running refuses. -/
theorem Counting.resume (h : Counting config uids a left running x) (hm : Step x m) {result : Except SimError Unit}
    (hd : m.deed = .requested .resume result) (hfits : x.sim.now.femtos + left ≤ Time.greatest)
    (room : m.state.sim.pending ≤ Simulator.destroySlot) :
    m.state.sim.now = x.sim.now ∧ Counting config (uids ++ m.number?.toList) a left (m.deed.runs running) m.state := by
  cases running with
  | true =>
    obtain ⟨id, r, -, hr, -⟩ := h.event rfl
    obtain ⟨rfl, hstate⟩ := hm.eq_of_answers hd (refuses_resume hr)
    have hnumber : m.number? = none := by
      obtain ⟨deed, state⟩ := m
      cases hd
      exact number?_eq_none fun _ => nofun
    rw [hnumber, hd, hstate, Option.toList_none, List.append_nil]
    exact ⟨rfl, h⟩
  | false =>
    obtain ⟨d, hr, rfl⟩ := h.remaining rfl
    have hticks : config.resolution.quantize d = d := Resolution.quantize_eq_self h.dvd
    obtain ⟨rfl, hnow, hcounting⟩ := counting_of_arms h.kept h.aligned h.config_eq h.callback hm hd (q := .resume) hr h.nonneg
      (by rwa [hticks]) room
    rw [hd]
    exact ⟨hnow, hticks ▸ hcounting⟩

/-! ## Steps -/

/-- An event of the timer that begins is the one that it waits for. -/
theorem Kept.slot_of_began (h : Kept uids x) {r : EventRecord (Action α)} {s : Simulator α}
    (hs : x.sim.Step ⟨.began r, s⟩) (hu : r.uid ∈ uids) :
    ∃ id, x.timer.event = some id ∧ s.slots.record? id.slot = none := by
  obtain ⟨-, -, -, -, slot, hr, hrec, -⟩ := h.sound.step_began hs
  exact ⟨_, h.tracks slot r hr hu, by rw [hrec, if_pos rfl]⟩

/-- While the timer is running the clock moves on, and takes off what is left, until its event begins. -/
theorem Counting.other_running (h : Counting config uids a left true x) {d : SimKernel.Deed α} {s : Simulator α}
    (hs : x.sim.Step ⟨d, s⟩) (hcleared : d ≠ .cleared) (hcancels : ∀ uid ∈ uids, ¬ d.Cancels uid)
    (room : s.pending ≤ Simulator.destroySlot) :
    (Counting config uids a (left - (s.now.femtos - x.sim.now.femtos)) true ⟨s, x.timer⟩ ∧
      ∀ r, d.began? = some r → r.uid ∉ uids) ∨
    Spent uids ⟨s, x.timer⟩ ∧ s.now.femtos - x.sim.now.femtos = left ∧
      ∃ r, d = .began r ∧ r.uid ∈ uids ∧ r.action = .perform a := by
  have hkept := h.kept.other hs room
  have haligned : s.Aligned := h.aligned.step h.kept.sound hs
  have hconfig : s.config = config := (h.kept.sound.step_owner hs).2.trans h.config_eq
  obtain ⟨id, r, he, hremaining, hg, ha, ht⟩ := h.event rfl
  obtain ⟨hr, hru⟩ := EventSlots.get?_eq_some_iff.1 hg
  have hu : r.uid ∈ uids := hru ▸ h.kept.mem id he
  rcases h.kept.sound.record?_after hs hr with hr' | rfl | hcancel | hclear
  · -- the event still waits, so the clock has not passed it
    have hdue : s.now.femtos ≤ r.time.femtos := hkept.sound.due hr'
    have htime : (config.resolution.unit.femtos : Int) ∣ r.time.femtos := hconfig ▸ haligned.due r ⟨_, hr'⟩
    have hnow : (config.resolution.unit.femtos : Int) ∣ s.now.femtos := hconfig ▸ haligned.now
    have hleft : left - (s.now.femtos - x.sim.now.femtos) = r.time.femtos - s.now.femtos := by omega
    refine .inl ⟨⟨hkept, haligned, hconfig, h.callback, by omega, hleft ▸ Int.dvd_sub htime hnow, fun _ => ?_, nofun⟩, ?_⟩
    · exact ⟨id, r, he, hremaining, EventSlots.get?_eq_some_iff.2 ⟨hr', hru⟩, ha, by
        change r.time.femtos = s.now.femtos + _
        omega⟩
    · intro r' hd hu'
      cases SimKernel.Deed.began?_eq_some_iff.1 hd
      obtain ⟨id', he', hnone⟩ := h.kept.slot_of_began hs hu'
      cases he.symm.trans he'
      cases hnone.symm.trans hr'
  · -- the event began, and the clock went just as far as was left
    have hnow : s.now = r.time := (h.kept.sound.step_began hs).1
    refine .inr ⟨⟨hkept, hremaining, fun slot r' hr' hu' => ?_⟩, by rw [hnow]; omega, r, rfl, hu, ha⟩
    obtain ⟨id', he', hnone⟩ := h.kept.slot_of_began hs hu
    have he'' : x.timer.event = _ := hkept.tracks slot r' hr' hu'
    cases he'.symm.trans he''
    cases hnone.symm.trans hr'
  · exact absurd hcancel (hcancels r.uid hu)
  · exact absurd hclear hcleared

/-- While the timer is suspended none of its events begins, and the clock takes nothing off. -/
theorem Counting.other_suspended (h : Counting config uids a left false x) {d : SimKernel.Deed α} {s : Simulator α}
    (hs : x.sim.Step ⟨d, s⟩) (room : s.pending ≤ Simulator.destroySlot) :
    Counting config uids a left false ⟨s, x.timer⟩ ∧ ∀ r, d.began? = some r → r.uid ∉ uids := by
  have hconfig : s.config = config := (h.kept.sound.step_owner hs).2.trans h.config_eq
  obtain ⟨d', hremaining, hd'⟩ := h.remaining rfl
  refine ⟨⟨h.kept.other hs room, h.aligned.step h.kept.sound hs, hconfig, h.callback, h.nonneg, h.dvd, nofun,
    fun _ => ⟨d', hremaining, hd'⟩⟩, ?_⟩
  intro r hd hu
  cases SimKernel.Deed.began?_eq_some_iff.1 hd
  obtain ⟨id, he, -⟩ := h.kept.slot_of_began hs hu
  cases (h.kept.suspended (by rw [hremaining]; rfl)).symm.trans he

/-- What happens to the simulator, whether the timer is running or suspended. -/
theorem Counting.other (h : Counting config uids a left running x) {d : SimKernel.Deed α} {s : Simulator α}
    (hs : x.sim.Step ⟨d, s⟩) (hcleared : d ≠ .cleared) (hcancels : ∀ uid ∈ uids, ¬ d.Cancels uid)
    (room : s.pending ≤ Simulator.destroySlot) :
    (Counting config uids a (left - x.ran running ⟨s, x.timer⟩) running ⟨s, x.timer⟩ ∧
      ∀ r, d.began? = some r → r.uid ∉ uids) ∨
    Spent uids ⟨s, x.timer⟩ ∧ x.ran running ⟨s, x.timer⟩ = left ∧
      ∃ r, d = .began r ∧ r.uid ∈ uids ∧ r.action = .perform a := by
  cases running with
  | true => exact h.other_running hs hcleared hcancels room
  | false =>
    have hran : x.ran false ⟨s, x.timer⟩ = 0 := rfl
    rw [hran, Int.sub_zero]
    exact .inl (h.other_suspended hs room)

/-- A step takes off what the clock moved while the timer was running, or the timer fires and nothing was left. -/
theorem Counting.step (h : Counting config uids a left running x) (hm : Step x m) (hd : m.deed.Pauses uids)
    (hfits : (∃ result, m.deed = .requested .resume result) → x.sim.now.femtos + left ≤ Time.greatest)
    (room : m.state.sim.pending ≤ Simulator.destroySlot) :
    (Counting config (uids ++ m.number?.toList) a (left - x.ran running m.state) (m.deed.runs running) m.state ∧
      ∀ r, m.deed.began? = some r → r.uid ∉ uids) ∨
    Spent (uids ++ m.number?.toList) m.state ∧ x.ran running m.state = left ∧
      ∃ r, m.deed = .other (.began r) ∧ r.uid ∈ uids ∧ r.action = .perform a := by
  cases hm with
  | @requested q ω handle w w' result t s he =>
    cases q with
    | suspend =>
      obtain ⟨hnow, hcounting⟩ := h.suspend (.requested he) rfl room
      rw [ran_eq_zero hnow, Int.sub_zero]
      exact .inl ⟨hcounting, fun r hr => nomatch hr⟩
    | resume =>
      obtain ⟨hnow, hcounting⟩ := h.resume (.requested he) rfl (hfits ⟨result, rfl⟩) room
      rw [ran_eq_zero hnow, Int.sub_zero]
      exact .inl ⟨hcounting, fun r hr => nomatch hr⟩
    | setFunction | setDelay | arm | armAfter | cancel => exact hd.elim
  | @other d s hs =>
    have hnumber : (Moment.number? ⟨.other d, s, x.timer⟩).toList = [] := rfl
    rw [hnumber, List.append_nil]
    rcases h.other hs hd.1 hd.2 room with hcounting | ⟨hspent, hran, r, rfl, hu, ha⟩
    · exact .inl hcounting
    · exact .inr ⟨hspent, hran, r, rfl, hu, ha⟩

/-- A timer that has fired is neither suspended nor resumed, and stays expired. -/
theorem Spent.step (h : Spent uids x) (hm : Step x m) (hd : m.deed.Pauses uids)
    (room : m.state.sim.pending ≤ Simulator.destroySlot) :
    Spent uids m.state ∧ m.number? = none ∧ ∀ r, m.deed.began? = some r → r.uid ∉ uids := by
  cases hm with
  | @requested q ω handle w w' result t s he =>
    have hrefused {e : SimError} (hanswers : x.Answers q (.error e) x) :
        Spent uids ⟨s, t⟩ ∧ Moment.number? ⟨.requested q result, s, t⟩ = none := by
      obtain ⟨rfl, hstate⟩ : result = .error e ∧ (⟨s, t⟩ : System α) = x := (Step.requested he).eq_of_answers rfl hanswers
      exact ⟨hstate ▸ h, number?_eq_none fun _ => nofun⟩
    cases q with
    | suspend =>
      obtain ⟨hspent, hnumber⟩ := hrefused (h.kept.named.refuses_suspend (by rw [h.state_eq]; nofun))
      exact ⟨hspent, hnumber, fun r hr => nomatch hr⟩
    | resume =>
      obtain ⟨hspent, hnumber⟩ := hrefused (refuses_resume h.remaining)
      exact ⟨hspent, hnumber, fun r hr => nomatch hr⟩
    | setFunction | setDelay | arm | armAfter | cancel => exact hd.elim
  | @other d s hs =>
    refine ⟨⟨h.kept.other hs room, h.remaining, fun slot r hr hu => ?_⟩, rfl, fun r hr hu => ?_⟩
    · rcases h.kept.sound.record?_of_step hs hr with hr | ⟨-, hnew⟩
      · exact h.none_pending slot r hr hu
      · have := h.kept.lt_next r.uid hu
        omega
    · cases d with
      | began r' =>
        cases hr
        obtain ⟨-, -, -, -, slot, hr, -⟩ := h.kept.sound.step_began hs
        exact h.none_pending slot r hr hu
      | called | idled | tornDown | cleared | switched => cases hr

/-! ## Runs -/

theorem Deed.Pauses.of_append {uids' : List Nat} {d : Deed α} (h : d.Pauses (uids ++ uids')) : d.Pauses uids := by
  cases d with
  | requested q => cases q <;> exact h
  | other => exact ⟨h.1, fun uid hu => h.2 uid (List.mem_append_left _ hu)⟩

/-- The events with which a timer is armed get numbers that were not given out before. -/
theorem Path.le_numbers (hp : Path x ns z) (h : Kept uids x)
    (room : ∀ n ∈ ns, n.state.sim.pending ≤ Simulator.destroySlot) {u : Nat} (hu : u ∈ numbers ns) :
    x.sim.nextUid ≤ u := by
  induction hp generalizing uids with
  | nil => cases hu
  | @cons x z m ns hm _ ih =>
    rw [numbers_cons] at hu
    rcases List.mem_append.1 hu with hu | hu
    · have hnumber := Option.mem_toList.1 hu
      cases hm with
      | other => cases hnumber
      | requested he =>
        cases h.effect_of_exec he with
        | untouched hq => cases (number?_eq_none fun ha => hq (Request.disarms_of_arms ha)).symm.trans hnumber
        | disarmed hq => cases (number?_eq_none hq).symm.trans hnumber
        | armed hq =>
          cases (number?_armed hq).symm.trans hnumber
          exact Nat.le_of_eq (h.named.fewer h.sound).nextUid.symm
    · exact Nat.le_trans (h.mono_step hm).1
        (ih (h.step hm (room m List.mem_cons_self)) (fun n hn => room n (List.mem_cons_of_mem _ hn)) hu)

/-- The events with the numbers that begin in the course of a history. -/
def expirations (uids : List Nat) (ns : List (Moment α)) : List (EventRecord (Action α)) :=
  (began ns).filter fun r => r.uid ∈ uids

theorem expirations_cons (uids : List Nat) (m : Moment α) (ns : List (Moment α)) :
    expirations uids (m :: ns) = (m.deed.began?.toList.filter fun r => r.uid ∈ uids) ++ expirations uids ns := by
  rw [expirations, began_cons, List.filter_append]
  rfl

theorem expirations_cons_of_not_mem (h : ∀ r, m.deed.began? = some r → r.uid ∉ uids) :
    expirations uids (m :: ns) = expirations uids ns := by
  rw [expirations_cons, List.filter_eq_nil_iff.2 fun r hr => by simpa using h r (Option.mem_toList.1 hr), List.nil_append]

theorem Spent.path (h : Spent uids x) (hp : Path x ns z) (hd : ∀ n ∈ ns, n.deed.Pauses uids)
    (room : ∀ n ∈ ns, n.state.sim.pending ≤ Simulator.destroySlot) :
    Spent uids z ∧ numbers ns = [] ∧ expirations uids ns = [] := by
  induction hp with
  | nil => exact ⟨h, rfl, rfl⟩
  | @cons x z m ns hm _ ih =>
    obtain ⟨hspent, hnumber, hbegan⟩ := h.step hm (hd m List.mem_cons_self) (room m List.mem_cons_self)
    obtain ⟨hz, hnumbers, hnone⟩ := ih hspent (fun n hn => hd n (List.mem_cons_of_mem _ hn))
      fun n hn => room n (List.mem_cons_of_mem _ hn)
    refine ⟨hz, ?_, (expirations_cons_of_not_mem hbegan).trans hnone⟩
    rw [numbers_cons, hnumber, hnumbers]
    rfl

/-- The clock is not set back while the timer runs. -/
theorem Kept.ran_nonneg (h : Kept uids x) (hm : Step x m) : 0 ≤ x.ran running m.state := by
  have hnow := (h.mono_step hm).2
  unfold System.ran
  split <;> omega

theorem Path.runningTime_nonneg (hp : Path x ns z) (h : Kept uids x)
    (room : ∀ n ∈ ns, n.state.sim.pending ≤ Simulator.destroySlot) : 0 ≤ runningTime running x ns := by
  induction hp generalizing uids running with
  | nil => exact Int.le_refl _
  | @cons x z m ns hm _ ih =>
    exact Int.add_nonneg (h.ran_nonneg hm)
      (ih (h.step hm (room m List.mem_cons_self)) fun n hn => room n (List.mem_cons_of_mem _ hn))

/-- The timer fires once in the course of a history, when it has run for so many femtoseconds in total. -/
def FiresAfter (uids : List Nat) (a : α) (total : Int) (running : Bool) (x : System α) (ns : List (Moment α)) : Prop :=
  ∃ pre n post r, ns = pre ++ n :: post ∧ n.deed = .other (.began r) ∧ r.action = .perform a ∧
    runningTime running x (pre ++ [n]) = total ∧ expirations uids ns = [r]

/-- By induction on the history, with what is left as the invariant until the timer fires. -/
theorem Counting.path (h : Counting config uids a left running x) (hp : Path x ns z)
    (hd : ∀ n ∈ ns, n.deed.Pauses (uids ++ numbers ns))
    (hfits : ∀ pre n post result, ns = pre ++ n :: post → n.deed = .requested .resume result →
      n.state.sim.now.femtos + (left - runningTime running x pre) ≤ Time.greatest)
    (room : ∀ n ∈ ns, n.state.sim.pending ≤ Simulator.destroySlot) :
    Counting config (uids ++ numbers ns) a (left - runningTime running x ns) (runsAfter running ns) z ∧
      expirations (uids ++ numbers ns) ns = [] ∨
    Spent (uids ++ numbers ns) z ∧ left ≤ runningTime running x ns ∧
      FiresAfter (uids ++ numbers ns) a left running x ns := by
  induction hp generalizing uids left running with
  | nil => exact .inl ⟨by simpa [numbers, runningTime, runsAfter] using h, rfl⟩
  | @cons x z m ns hm hp ih =>
    have hpauses : m.deed.Pauses uids := (hd m List.mem_cons_self).of_append
    have hfits₀ : (∃ result, m.deed = .requested .resume result) → x.sim.now.femtos + left ≤ Time.greatest := by
      rintro ⟨result, hresume⟩
      have hlater := hfits [] m ns result rfl hresume
      have hnow := (h.kept.mono_step hm).2
      rw [runningTime] at hlater
      omega
    have hnumbers : uids ++ numbers (m :: ns) = uids ++ m.number?.toList ++ numbers ns := by
      rw [numbers_cons, List.append_assoc]
    have hd' : ∀ n ∈ ns, n.deed.Pauses (uids ++ m.number?.toList ++ numbers ns) :=
      fun n hn => hnumbers ▸ hd n (List.mem_cons_of_mem _ hn)
    have room' : ∀ n ∈ ns, n.state.sim.pending ≤ Simulator.destroySlot := fun n hn => room n (List.mem_cons_of_mem _ hn)
    rcases h.step hm hpauses hfits₀ (room m List.mem_cons_self) with ⟨hcounting, hbegan⟩ | ⟨hspent, hran, r, hdeed, hu, ha⟩
    · -- An event that begins here is older than all with which the timer is armed later.
      have hother : expirations (uids ++ numbers (m :: ns)) (m :: ns) = expirations (uids ++ numbers (m :: ns)) ns := by
        refine expirations_cons_of_not_mem fun r hr hu => ?_
        rcases List.mem_append.1 hu with hu | hu
        · exact hbegan r hr hu
        · have hle := (Path.cons hm hp).le_numbers h.kept room hu
          cases hm with
          | requested => cases hr
          | @other d s hs =>
            cases d with
            | began r' =>
              cases hr
              obtain ⟨-, -, -, -, slot, hr, -⟩ := h.kept.sound.step_began hs
              have := h.kept.sound.uid_lt hr
              omega
            | called | idled | tornDown | cleared | switched => cases hr
      have hfits' : ∀ pre n post result, ns = pre ++ n :: post → n.deed = .requested .resume result →
          n.state.sim.now.femtos + (left - x.ran running m.state - runningTime (m.deed.runs running) m.state pre) ≤
            Time.greatest := by
        intro pre n post result he hresume
        have hlater := hfits (m :: pre) n post result (by rw [he]; rfl) hresume
        rwa [runningTime, ← Int.sub_sub] at hlater
      rw [hnumbers] at hother ⊢
      rcases ih hcounting hd' hfits' room' with ⟨hz, hnone⟩ | ⟨hz, hle, pre, n, post, r, he, hdeed, ha, hran, hone⟩
      · refine .inl ⟨?_, hother.trans hnone⟩
        rwa [runningTime, ← Int.sub_sub]
      · refine .inr ⟨hz, ?_, m :: pre, n, post, r, by rw [he]; rfl, hdeed, ha, ?_, hother.trans hone⟩
        · rw [runningTime]
          omega
        · rw [List.cons_append, runningTime, hran]
          omega
    · have hkept : Kept (uids ++ m.number?.toList) m.state := hspent.kept
      obtain ⟨deed, state⟩ := m
      cases hdeed
      have hnone : (Moment.number? ⟨.other (.began r), state⟩).toList = [] := rfl
      rw [hnone, List.append_nil] at hspent
      have hpauses' : ∀ n ∈ ns, n.deed.Pauses uids := fun n hn => (hd n (List.mem_cons_of_mem _ hn)).of_append
      obtain ⟨hz, hnumbers', hno⟩ := hspent.path hp hpauses' room'
      rw [hnumbers, hnone, hnumbers', List.append_nil, List.append_nil]
      refine .inr ⟨hz, ?_, [], _, ns, r, rfl, rfl, ha, ?_, ?_⟩
      · have hlater : 0 ≤ runningTime running state ns := hp.runningTime_nonneg hkept room'
        change left ≤ x.ran running state + runningTime running state ns
        rw [hran]
        omega
      · rw [List.nil_append, runningTime, hran]
        exact Int.add_zero _
      · rw [expirations_cons, hno]
        simp [Deed.began?, SimKernel.Deed.began?, hu]

/-! ## Every timer that is armed -/

/-- A timer that is to run shows so, its event lies as far ahead as what is left, and it can be suspended. One that is not to
run shows that it is suspended, and it can be resumed unless no instant lies so far ahead. -/
inductive Waits (uids : List Nat) (a : α) (left : Int) (x : System α) : Bool → Prop
  | running {r : EventRecord (Action α)} (hs : x.Shows .running) (hr : x.sim.Pends r) (hu : r.uid ∈ uids)
      (ha : r.action = .perform a) (ht : r.time.femtos = x.sim.now.femtos + left)
      (hsuspend : ∃ y, x.Answers .suspend (.ok ()) y) : Waits uids a left x true
  | suspended (hs : x.Shows .suspended)
      (hresume : x.sim.now.femtos + left ≤ Time.greatest → ∃ y, x.Answers .resume (.ok ()) y) : Waits uids a left x false

theorem Counting.waits (h : Counting config uids a left running x) : Waits uids a left x running := by
  have hshows : x.Shows x.state := h.kept.named.shows
  rw [h.state_eq] at hshows
  cases running with
  | true =>
    obtain ⟨id, r, he, -, hg, ha, ht⟩ := h.event rfl
    obtain ⟨hr, hu⟩ := EventSlots.get?_eq_some_iff.1 hg
    obtain ⟨d, hd, -⟩ := h.exists_showsLeft
    exact .running hshows ⟨_, hr⟩ (hu ▸ h.kept.mem id he) ha ht ⟨_, h.kept.named.answers_suspend h.state_eq hd⟩
  | false =>
    obtain ⟨d, hremaining, rfl⟩ := h.remaining rfl
    have hticks : x.sim.config.resolution.quantize d = d := Resolution.quantize_eq_self (h.config_eq.symm ▸ h.dvd)
    refine .suspended hshows fun hfits => ?_
    obtain ⟨time, -, hanswers⟩ := h.kept.answers_arm h.callback (q := .resume) hremaining h.nonneg (by rwa [hticks])
    exact ⟨_, hanswers⟩

/-- **Suspended timers lose no time.** Let a timer with a callback be armed with a delay that is not negative, and let nothing
happen to it from then on but that it is suspended and resumed, however often and whenever, while other events move the clock
and nobody cancels its event; no instant on the way is past the last one. Then it is armed, and at every moment the time that is
left is that of the whole ticks of the delay for which it has not been running yet, where it runs until a suspension is granted
and again after a resumption is granted. Until it has fired it shows that it is running in the former case, with its event as
far ahead as what is left, and that it is suspended in the latter. It fires once, to perform its callback, at the moment at
which it had been running for that long in total. Unless it is suspended, it has fired when no event is pending any more. -/
theorem fires_after_running {owner : Nat} {delay d : Time} {ms : List (Moment α)} {q : Request α}
    {result : Except SimError Unit} (hp : Path ⟨Simulator.ofConfig owner config, { delay }⟩ ms y) (hm : Step y m)
    (hdeed : m.deed = .requested q result) (hq : q.delay? y.timer = some d) (ha : y.timer.callback = some a)
    (hd : 0 ≤ d.femtos) (hns : Path m.state ns z) (hpauses : ∀ n ∈ ns, n.deed.Pauses (numbers (ms ++ m :: ns)))
    (hfits : y.sim.now.femtos + (config.resolution.quantize d).femtos ≤ Time.greatest)
    (hresumes : ∀ pre n post result, ns = pre ++ n :: post → n.deed = .requested .resume result →
      n.state.sim.now.femtos + ((config.resolution.quantize d).femtos - runningTime true m.state pre) ≤ Time.greatest)
    (room : ∀ n ∈ ms ++ m :: ns, n.state.sim.pending ≤ Simulator.destroySlot) :
    let total := (config.resolution.quantize d).femtos
    let uids := numbers (ms ++ m :: ns)
    let left := total - runningTime true m.state ns
    result = .ok () ∧ (∃ t, z.ShowsLeft t ∧ t.femtos = max left 0) ∧
    (expirations uids ns = [] ∧ 0 ≤ left ∧ Waits uids a left z (runsAfter true ns) ∨
      z.Shows .expired ∧ FiresAfter uids a total true m.state ns) ∧
    (z.sim.pending = 0 → runsAfter true ns = true → FiresAfter uids a total true m.state ns) := by
  intro total uids left
  have hkept : Kept (numbers ms) y :=
    (kept_ofConfig owner config delay).path hp fun n hn => room n (List.mem_append_left _ hn)
  obtain ⟨haligned, hconfig⟩ : y.sim.Aligned ∧ y.sim.config = config := by
    obtain ⟨ks, hks, -⟩ := hp.sim (kept_ofConfig owner config delay) fun n hn => room n (List.mem_append_left _ hn)
    exact hks.kept.1.2
  have hroom : ∀ n ∈ m :: ns, n.state.sim.pending ≤ Simulator.destroySlot :=
    fun n hn => room n (List.mem_append_right _ hn)
  obtain ⟨hresult, -, hcounting⟩ :=
    counting_of_arms hkept haligned hconfig ha hm hdeed hq hd hfits (hroom m List.mem_cons_self)
  have huids : uids = numbers ms ++ m.number?.toList ++ numbers ns := by
    rw [List.append_assoc, ← numbers_cons]
    exact List.filterMap_append
  have hrun := hcounting.path hns (fun n hn => huids ▸ hpauses n hn) hresumes
    fun n hn => hroom n (List.mem_cons_of_mem _ hn)
  rw [← huids] at hrun
  rcases hrun with ⟨hz, hnone⟩ | ⟨hz, hle, hfires⟩
  · have hwaits : Waits uids a left z (runsAfter true ns) := hz.waits
    obtain ⟨t, hshows, ht⟩ := hz.exists_showsLeft
    have hleft : 0 ≤ left := hz.nonneg
    refine ⟨hresult, ⟨t, hshows, ht.trans (Int.max_eq_left hleft).symm⟩, .inl ⟨hnone, hleft, hwaits⟩, fun hpending hruns => ?_⟩
    rw [hruns] at hwaits
    cases hwaits with
    | running _ hr =>
      obtain ⟨slot, hr⟩ := hr
      cases (hz.kept.sound.pending_eq_zero_iff.1 hpending slot).symm.trans hr
  · have hleft : left ≤ 0 := Int.sub_nonpos_of_le hle
    exact ⟨hresult, ⟨Time.zero, System.showsLeft_of_expired hz.shows, (Int.max_eq_right hleft).symm⟩,
      .inr ⟨hz.shows, hfires⟩, fun _ _ => hfires⟩

end Pauses

/-! ## A timer that is suspended once -/

/-- The system in which an event after the delay is scheduled in addition. -/
def plan? (delay : Time) (x : System Nat) : Option (System Nat) :=
  match (Call.schedule delay 0).perform x.sim with
  | .ok (_, s) => some ⟨s, x.timer⟩
  | .error _ => none

theorem step_of_plan? {delay : Time} {x y : System Nat} (h : plan? delay x = some y) :
    ∃ answer, Step x ⟨.other (.called (.schedule delay 0) answer), y⟩ := by
  unfold plan? at h
  split at h
  case h_1 answer s hc => cases h; exact ⟨answer, .other (.called hc)⟩
  case h_2 => cases h

/-- The event that begins next, and the system then. -/
def begin? (x : System Nat) : Option (EventRecord (Action Nat) × System Nat) :=
  match x.sim.nextEvent with
  | (some r, s) => (s.advance r).toOption.map fun s => (r, ⟨s, x.timer⟩)
  | (none, _) => none

theorem step_of_begin? {x y : System Nat} {r : EventRecord (Action Nat)} (h : begin? x = some (r, y)) :
    Step x ⟨.other (.began r), y⟩ := by
  unfold begin? at h
  split at h
  case h_1 r' s hn =>
    cases ha : s.advance r' with
    | error f => rw [ha] at h; cases h
    | ok s' =>
      rw [ha] at h
      cases h
      exact .other (.began hn ha)
  case h_2 => cases h

/-- A timer that is armed for ten nanoseconds and suspended from the fourth to the ninth fires at the fifteenth. -/
theorem fires_after_running_suspendedOnce : ∃ (ms : List (Moment Nat)) (y c d e f g z : System Nat)
    (r r' r'' : EventRecord (Action Nat)),
    let m : Moment Nat := ⟨.requested (.armAfter ⟨10_000_000, by decide, by decide⟩) (.ok ()), c⟩
    let ns : List (Moment Nat) := [⟨.other (.began r), d⟩, ⟨.requested .suspend (.ok ()), e⟩, ⟨.other (.began r'), f⟩,
      ⟨.requested .resume (.ok ()), g⟩, ⟨.other (.began r''), z⟩]
    let uids := numbers (ms ++ m :: ns)
    Path ⟨Simulator.ofConfig 0 {}, {}⟩ ms y ∧ Step y m ∧ Path c ns z ∧
      [c, d, e, f, g, z].map (fun x => x.sim.now.femtos) = [0, 4_000_000, 4_000_000, 9_000_000, 9_000_000, 15_000_000] ∧
      c.Shows .running ∧ d.Shows .running ∧ e.Shows .suspended ∧ f.Shows .suspended ∧ g.Shows .running ∧
      z.Shows .expired ∧ expirations uids ns = [r''] ∧ r''.action = .perform 7 ∧
      FiresAfter uids 7 10_000_000 true c ns := by
  have hrun : ((ask? (.setFunction 7) ⟨Simulator.ofConfig 0 {}, {}⟩).bind fun a =>
      (plan? ⟨4_000_000, by decide, by decide⟩ a).bind fun b => (plan? ⟨9_000_000, by decide, by decide⟩ b).bind fun y =>
      (ask? (.armAfter ⟨10_000_000, by decide, by decide⟩) y).bind fun c => (begin? c).bind fun d =>
      (ask? .suspend d.2).bind fun e => (begin? e).bind fun f => (ask? .resume f.2).bind fun g =>
      (begin? g).map fun (z : EventRecord (Action Nat) × System Nat) =>
        (decide ((∀ s ∈ [a.sim, b.sim, y.sim, c.sim, d.2.sim, e.sim, f.2.sim, g.sim, z.2.sim],
            s.pending ≤ Simulator.destroySlot) ∧ g.timer.event.map EventId.uid = some z.1.uid),
          ([y, c, d.2, e, f.2, g, z.2].map fun x => x.sim.now.femtos, y.timer.callback, z.2.sim.pending),
          [c, d.2, e, f.2, g, z.2].map System.state)) =
      some (true, ([0, 0, 4_000_000, 4_000_000, 9_000_000, 9_000_000, 15_000_000], some 7, 0),
        [.running, .running, .suspended, .suspended, .running, .expired]) := by
    decide +kernel
  obtain ⟨a, ha, hrun⟩ := Option.bind_eq_some_iff.1 hrun
  obtain ⟨b, hb, hrun⟩ := Option.bind_eq_some_iff.1 hrun
  obtain ⟨y, hy, hrun⟩ := Option.bind_eq_some_iff.1 hrun
  obtain ⟨c, hc, hrun⟩ := Option.bind_eq_some_iff.1 hrun
  obtain ⟨⟨r, d⟩, hd, hrun⟩ := Option.bind_eq_some_iff.1 hrun
  obtain ⟨e, he, hrun⟩ := Option.bind_eq_some_iff.1 hrun
  obtain ⟨⟨r', f⟩, hf, hrun⟩ := Option.bind_eq_some_iff.1 hrun
  obtain ⟨g, hg, hrun⟩ := Option.bind_eq_some_iff.1 hrun
  obtain ⟨⟨r'', z⟩, hz, hrun⟩ := Option.map_eq_some_iff.1 hrun
  simp only [Prod.mk.injEq, decide_eq_true_eq, List.forall_mem_cons, List.map_cons, List.map_nil, List.cons.injEq,
    and_true] at hrun
  obtain ⟨⟨⟨hrooma, hroomb, hroomy, hroomc, hroomd, hroome, hroomf, hroomg, hroomz, -⟩, huid⟩,
    ⟨⟨hnowy, hnowc, hnowd, hnowe, hnowf, hnowg, hnowz⟩, hcallback, hpending⟩,
    ⟨hstatec, hstated, hstatee, hstatef, hstateg, hstatez⟩⟩ := hrun
  obtain ⟨answer, hb⟩ := step_of_plan? hb
  obtain ⟨answer', hy⟩ := step_of_plan? hy
  have hp : Path ⟨Simulator.ofConfig 0 {}, {}⟩ [⟨.requested (.setFunction 7) (.ok ()), a⟩, ⟨_, b⟩, ⟨_, y⟩] y :=
    .cons (step_of_ask? ha) (.cons hb (.cons hy (.nil y)))
  have hm := step_of_ask? hc
  have hd := step_of_begin? hd
  have he := step_of_ask? he
  have hf := step_of_begin? hf
  have hg := step_of_ask? hg
  have hz := step_of_begin? hz
  have hns := Path.cons hd (.cons he (.cons hf (.cons hg (.cons hz (.nil z)))))
  have hkeptc := ((kept_ofConfig 0 {} Time.zero).path hp (by simp [*])).step hm hroomc
  have hkeptd := hkeptc.step hd hroomd
  have hkepte := hkeptd.step he hroome
  have hkeptf := hkepte.step hf hroomf
  have hkeptg := hkeptf.step hg hroomg
  have hkeptz := hkeptg.step hz hroomz
  have hticks : ({} : Config).resolution.quantize ⟨10_000_000, by decide, by decide⟩ =
      ⟨10_000_000, by decide, by decide⟩ := by
    decide
  obtain ⟨-, -, -, hfires⟩ := fires_after_running hp hm rfl rfl hcallback (by decide) hns
    (by simp [Deed.Pauses, SimKernel.Deed.Cancels, SimKernel.Deed.cancelled?])
    (by rw [hticks, hnowy]; decide)
    (by
      intro pre n post result hsplit hdeed
      rcases pre with _ | ⟨_, _ | ⟨_, _ | ⟨_, _ | ⟨_, _ | ⟨_, pre⟩⟩⟩⟩⟩
      case cons.cons.cons.nil =>
        cases hsplit
        simp only [hticks, runningTime, System.ran, Deed.runs, hnowc, hnowd, hnowe, hnowf, hnowg]
        decide
      case cons.cons.cons.cons.cons => simp at hsplit
      all_goals
        cases hsplit
        cases hdeed)
    (by simp [*])
  have hfires := hfires hpending rfl
  have hfires' := hfires
  obtain ⟨-, -, -, r₀, -, -, haction, -, hone⟩ := hfires'
  have hr : r'' = r₀ := by
    rw [← List.mem_singleton, ← hone]
    exact List.mem_filter.2 ⟨List.mem_filterMap.2 ⟨⟨.other (.began r''), z⟩, by simp, rfl⟩,
      decide_eq_true (List.mem_filterMap.2 ⟨⟨.requested .resume (.ok ()), g⟩, by simp, huid⟩)⟩
  subst hr
  exact ⟨_, y, c, d, e, f, g, z, r, r', r'', hp, hm, hns, by simp [*], hstatec ▸ hkeptc.named.shows,
    hstated ▸ hkeptd.named.shows, hstatee ▸ hkepte.named.shows, hstatef ▸ hkeptf.named.shows,
    hstateg ▸ hkeptg.named.shows, hstatez ▸ hkeptz.named.shows, hone, haction, hfires⟩

end Timer

end SimKernel
