import SimKernel.Proofs.Simulator.Accounting
import SimKernel.Proofs.Simulator.Beside
import SimKernel.Proofs.Simulator.Fate
import SimKernel.Proofs.Simulator.Table

/-!
# Simulators in accord

Two simulators are in accord (`Accord`) if they stand for plans of which the second one has the events of the first one and
extra ones (`Plan.Beside`), if whatever a veiled program holds names the same event in both, and if there is no other
difference (`Like`). They stay in accord when the same request is made to both, when an extra event is scheduled or cancelled
in the second one, and when an event begins in the second one that is no extra one: it begins in the first one, too.
-/

namespace SimKernel

variable {α ω : Type}

/-- Cancelling gives out no names. -/
theorem Plan.cancel_names (a : Plan α) (uid : Nat) :
    (a.cancel uid).2.names = a.names ∧ (a.cancel uid).2.nextUid = a.nextUid := by
  unfold cancel
  split
  · exact ⟨rfl, rfl⟩
  · split <;> exact ⟨rfl, rfl⟩

/-- Cancelling by a name that was given out never fails, and no more events are pending than before. -/
theorem Simulator.Refines.cancel_eq_ok {s : Simulator α} {a : Plan α} (h : s.Refines a) {id : EventId} (hid : id ∈ a.names)
    (room : s.pending < destroySlot) :
    ∃ s₁, s.cancel id = .ok ((a.cancel id.uid).1, s₁) ∧ s₁.Refines (a.cancel id.uid).2 ∧ s₁.pending ≤ s.pending ∧
      s₁ = { s with
        slots := s₁.slots
        destroyEvents := s₁.destroyEvents
        metrics := { s.metrics with cancelled := s₁.metrics.cancelled } } := by
  have hm := h.cancel_of_mem hid
  rcases hb : a.cancel id.uid with ⟨answer, b⟩
  rw [hb] at hm
  generalize hc : s.cancel id = y at hm
  cases hm with
  | ok _ hrefines =>
    rename_i s₁
    have hkept : s₁.pending ≤ s.pending ∧ s₁ = { s with
        slots := s₁.slots
        destroyEvents := s₁.destroyEvents
        metrics := { s.metrics with cancelled := s₁.metrics.cancelled } } := by
      rcases Simulator.cancel_eq_ok hc with ⟨-, rfl, -⟩ | ⟨e, -, -, -, -, rfl⟩ | ⟨r, slots, -, ht, -, rfl⟩
      · exact ⟨Nat.le_refl _, rfl⟩
      · exact ⟨Nat.le_refl _, rfl⟩
      · exact ⟨h.sound.live_of_take? ht ▸ Nat.le_succ _, rfl⟩
    exact ⟨s₁, rfl, hrefines (Nat.lt_of_le_of_lt hkept.1 room), hkept⟩

/-! ## What is the same -/

/-- The event without its number. -/
def EventRecord.nameless {β : Type} (r : EventRecord β) : EventRecord β := r.renumber fun _ => 0

namespace Simulator

/-- All of the simulator but its events, their numbers, and the counters of events that were not executed. -/
def shell (s : Simulator α) : Simulator α :=
  { s with
    queue := EventQueue.empty
    slots := EventSlots.empty
    nextUid := 0
    destroyEvents := []
    metrics := { executed := s.metrics.executed } }

/-- What the shell tells is the same where the shell is. -/
theorem eq_of_shell {β : Type} (g : Simulator α → β) (hg : ∀ t, g t.shell = g t) {s s' : Simulator α}
    (h : s'.shell = s.shell) : g s' = g s := by
  rw [← hg s', h, hg s]

/-- The second simulator differs in names, in counters of events that were not executed, and in extra events. -/
structure Like (s s' : Simulator (Option α)) : Prop where
  shell : s'.shell = s.shell
  destroyEvents : s'.destroyEvents.map DestroyEvent.action = s.destroyEvents.map DestroyEvent.action
  records : ((s'.slots.records.filter fun r => !r.action.isExtra).map EventRecord.nameless).Perm
    (s.slots.records.map EventRecord.nameless)
  /-- As many more events are pending as extra ones are. -/
  pending : s'.pending = s.pending + (s'.slots.records.filter fun r => r.action.isExtra).length

end Simulator

/-! ## Accord -/

/-- The two names are those of one event. -/
def Plan.Twins (f : Nat → Nat) (a a' : Plan (Option α)) (id id' : EventId) : Prop :=
  id ∈ a.names ∧ id' ∈ a'.names ∧ id'.uid = f id.uid

namespace Simulator

/-- The simulators stand for plans of which the second one has the events of the first one, whose numbers `f` maps to theirs,
and the extra events that are on its desk; otherwise there is no difference but in names. -/
structure Paired (f : Nat → Nat) (a a' : Plan (Option α)) (s : Simulator (Option α)) (d : Desk ω) (s' : Simulator (Option α))
    (d' : Desk ω) : Prop where
  left : s.Refines a
  right : s'.Refines a'
  plans : a.Beside f d'.extras a'
  shell : s'.shell = s.shell
  room : s'.pending < destroySlot
  model : d'.model = d.model
  plain : d.extras = []
  extras : ∀ id ∈ d'.extras, id ∈ a'.names
  names : List.Forall₂ (Plan.Twins f a a') d.names d'.names

/-- Some plans and numbers show that nothing but extra events and names make a difference. -/
def Accord (s : Simulator (Option α)) (d : Desk ω) (s' : Simulator (Option α)) (d' : Desk ω) : Prop :=
  ∃ f a a', Paired f a a' s d s' d'

variable {f : Nat → Nat} {a a' : Plan (Option α)} {s s' : Simulator (Option α)} {d d' : Desk ω}

theorem accord_ofConfig (owner : Nat) (config : Config) (w : ω) :
    Accord (ofConfig owner config : Simulator (Option α)) { model := w } (ofConfig owner config) { model := w } :=
  ⟨id, .ofConfig owner config, .ofConfig owner config, {
    left := refines_ofConfig owner config
    right := refines_ofConfig owner config
    plans := Plan.beside_ofConfig owner config
    shell := rfl
    room := Nat.zero_lt_succ _
    model := rfl
    plain := rfl
    extras := fun _ h => absurd h List.not_mem_nil
    names := .nil }⟩

namespace Paired

theorem now_eq (h : Paired f a a' s d s' d') : s'.now = s.now :=
  eq_of_shell Simulator.now (fun _ => rfl) h.shell

theorem config_eq (h : Paired f a a' s d s' d') : s'.config = s.config :=
  eq_of_shell Simulator.config (fun _ => rfl) h.shell

theorem context_eq (h : Paired f a a' s d s' d') : s'.context = s.context :=
  eq_of_shell Simulator.context (fun _ => rfl) h.shell

theorem uid_lt (h : Paired f a a' s d s' d') {id id' : EventId} (hid : Plan.Twins f a a' id id') : id.uid < a.nextUid :=
  h.left.nextUid ▸ (h.left.issued id hid.1).2

theorem pending_le (h : Paired f a a' s d s' d') : s.pending ≤ s'.pending := by
  rw [h.left.pending_eq, h.right.pending_eq, h.plans.count_eq]
  exact Nat.le_add_left _ _

theorem like (h : Paired f a a' s d s' d') : s.Like s' where
  shell := h.shell
  destroyEvents := by
    rw [← h.right.destroyEvents, h.plans.destroyEvents, h.left.destroyEvents, List.map_map]
    rfl
  records := by
    have hright : a'.own.Perm (s'.slots.records.filter fun r => !r.action.isExtra) := h.right.records.filter _
    have hnameless := (hright.symm.trans h.plans.pending).map EventRecord.nameless
    rw [List.map_map] at hnameless
    exact hnameless.trans (h.left.records.map EventRecord.nameless)
  pending := by
    have hown : a'.own.length = a.count := h.plans.pending.length_eq.trans (List.length_map _)
    have hlength := List.length_eq_length_filter_add (l := a'.pending) fun r => r.action.isExtra
    have hextra : (a'.pending.filter fun r => r.action.isExtra).length =
        (s'.slots.records.filter fun r => r.action.isExtra).length := (h.right.records.filter _).length_eq
    rw [h.left.pending_eq, h.right.pending_eq, ← hown, ← hextra, Nat.add_comm]
    exact hlength

/-- Flags and generator are set in both. -/
theorem switch (h : Paired f a a' s d s' d') (g : Simulator (Option α) → Simulator (Option α))
    (hg : ∀ t, g t = { t with
      running := (g t).running
      stopRequested := (g t).stopRequested
      stopTimeArmed := (g t).stopTimeArmed
      stopReason := (g t).stopReason
      rng := (g t).rng })
    (hshell : ∀ t, (g t).shell = g t.shell) : Paired f a a' (g s) d (g s') d' := by
  have hrefines : ∀ t b, t.Refines b → (g t).Refines b := by
    intro t b ht
    rw [hg]
    exact { ht with sound := { ht.sound with } }
  refine { h with left := hrefines s a h.left, right := hrefines s' a' h.right, shell := ?_, room := ?_ }
  · rw [hshell, hshell, h.shell]
  · rw [hg]
    exact h.room

/-! ## Names -/

theorem twins_mono (h : Paired f a a' s d s' d') {id id' : EventId} (hid : Plan.Twins f a a' id id')
    {b b' : Plan (Option α)} (hnames : ∀ id ∈ a.names, id ∈ b.names) (hnames' : ∀ id ∈ a'.names, id ∈ b'.names) (n : Nat) :
    Plan.Twins (Function.update f a.nextUid n) b b' id id' := by
  refine ⟨hnames id hid.1, hnames' id' hid.2.1, ?_⟩
  rw [Function.update_of_ne (Nat.ne_of_lt (h.uid_lt hid))]
  exact hid.2.2

/-- A common event that is new is taken down. -/
theorem noted (h : Paired f a a' s d s' d') {id id' : EventId} (hid : Plan.Twins f a a' id id') :
    Paired f a a' s (d.noted id) s' (d'.noted id') :=
  { h with names := List.rel_append h.names (.cons hid .nil) }

/-- Names with the same number are those of one event, or there is none. -/
theorem getElem?_names (h : Paired f a a' s d s' d') (n : Nat) :
    (d.names[n]? = none ∧ d'.names[n]? = none) ∨
      ∃ id id', d.names[n]? = some id ∧ d'.names[n]? = some id' ∧ Plan.Twins f a a' id id' := by
  have hnames := h.names
  generalize d.names = ids, d'.names = ids' at hnames
  induction hnames generalizing n with
  | nil => exact .inl ⟨rfl, rfl⟩
  | cons hid _ ih =>
    cases n with
    | zero => exact .inr ⟨_, _, rfl, rfl, hid⟩
    | succ n => exact ih n

/-! ## Requests -/

/-- The same event is scheduled in both. -/
theorem insert (h : Paired f a a' s d s' d') {time : Time} (ht : s.now.femtos ≤ time.femtos) (context : ContextId)
    {action : Action (Option α)} (hown : action.isExtra = false)
    (room : (s'.insert time context action).2.pending < destroySlot) :
    ∃ f b b', Paired f b b' (s.insert time context action).2 d (s'.insert time context action).2 d' ∧
      Plan.Twins f b b' (s.insert time context action).1 (s'.insert time context action).1 := by
  have hle : (s.insert time context action).2.pending < destroySlot := by
    rw [pending_insert] at room ⊢
    exact Nat.lt_of_le_of_lt (Nat.succ_le_succ h.pending_le) room
  refine ⟨_, _, _, {
    left := h.left.insert ht context action hle
    right := h.right.insert (h.now_eq ▸ ht) context action room
    plans := h.plans.insert s.slots.nextSlot s'.slots.nextSlot time context hown
    shell := h.shell
    room := room
    model := h.model
    plain := h.plain
    extras := fun id hid => List.mem_cons_of_mem _ (h.extras id hid)
    names := h.names.imp fun id id' hid => h.twins_mono hid (fun _ => List.mem_cons_of_mem _)
      (fun _ => List.mem_cons_of_mem _) _ }, ?_⟩
  rw [insert_fst, insert_fst, ← h.left.nextUid, ← h.left.owner, ← h.right.nextUid, ← h.right.owner]
  exact ⟨List.mem_cons_self, List.mem_cons_self, (Function.update_self a.nextUid a'.nextUid f).symm⟩

/-- A delay is refused in both, or it comes to the same time. -/
theorem scheduleIn_cases (h : Paired f a a' s d s' d') (context : ContextId) (delay : Time) (action : Action (Option α)) :
    (∃ e, s.scheduleIn context delay action = .error e ∧ s'.scheduleIn context delay action = .error e) ∨
      ∃ time : Time, s.now.femtos ≤ time.femtos ∧ s.scheduleIn context delay action = .ok (s.insert time context action) ∧
        s'.scheduleIn context delay action = .ok (s'.insert time context action) := by
  unfold Simulator.scheduleIn
  rw [h.now_eq, h.config_eq]
  by_cases hneg : delay.isNegative
  · simp only [hneg, if_true]
    exact .inl ⟨_, rfl, rfl⟩
  simp only [hneg]
  cases hadd : s.now.checkedAdd (s.config.resolution.quantize delay) with
  | none => exact .inl ⟨_, rfl, rfl⟩
  | some time =>
    have hq := s.config.resolution.quantize_nonneg (Time.isNegative_eq_false_iff.1 (by simpa using hneg))
    have := Time.ofFemtos?_eq_some_iff.1 hadd
    exact .inr ⟨time, by omega, rfl, rfl⟩

/-- What comes of scheduling one event in both: it is a fault, or it is refused, or the events get the names of one. -/
inductive Scheduled (d d' : Desk ω) : Except Fault (Except SimError (EventId × Simulator (Option α))) →
    Except Fault (Except SimError (EventId × Simulator (Option α))) → Prop
  | fault (f : Fault) : Scheduled d d' (.error f) (.error f)
  | refused (e : SimError) : Scheduled d d' (.ok (.error e)) (.ok (.error e))
  | added {id id' : EventId} {s s' : Simulator (Option α)}
      (h : s'.pending < destroySlot → ∃ f a a', Paired f a a' s d s' d' ∧ Plan.Twins f a a' id id') :
      Scheduled d d' (.ok (.ok (id, s))) (.ok (.ok (id', s')))

theorem scheduled_in (h : Paired f a a' s d s' d') (context : ContextId) (delay : Time) (action : Action (Option α))
    (hown : action.isExtra = false) :
    Scheduled d d' (.ok (s.scheduleIn context delay action)) (.ok (s'.scheduleIn context delay action)) := by
  rcases h.scheduleIn_cases context delay action with ⟨e, he, he'⟩ | ⟨time, hle, he, he'⟩
  · rw [he, he']
    exact .refused e
  · rw [he, he']
    exact .added fun room => h.insert hle context hown room

theorem scheduled_at (h : Paired f a a' s d s' d') (time : Time) (action : Action (Option α))
    (hown : action.isExtra = false) : Scheduled d d' (s.scheduleAt time action) (s'.scheduleAt time action) := by
  unfold scheduleAt
  rw [h.now_eq, h.context_eq]
  cases time.sub s.now with
  | error f => exact .fault f
  | ok delay => exact h.scheduled_in s.context delay action hown

/-- The same destroy event is registered in both. -/
theorem scheduleDestroy (h : Paired f a a' s d s' d') (b : α) :
    ∃ f c c', Paired f c c' (s.scheduleDestroy (some b)).2 d (s'.scheduleDestroy (some b)).2 d' ∧
      Plan.Twins f c c' (s.scheduleDestroy (some b)).1 (s'.scheduleDestroy (some b)).1 := by
  refine ⟨_, _, _, {
    left := h.left.scheduleDestroy (some b)
    right := h.right.scheduleDestroy (some b)
    plans := h.plans.scheduleDestroy destroySlot destroySlot b
    shell := h.shell
    room := h.room
    model := h.model
    plain := h.plain
    extras := fun id hid => List.mem_cons_of_mem _ (h.extras id hid)
    names := h.names.imp fun id id' hid => h.twins_mono hid (fun _ => List.mem_cons_of_mem _)
      (fun _ => List.mem_cons_of_mem _) _ }, ?_⟩
  simp only [Simulator.scheduleDestroy]
  rw [← h.left.nextUid, ← h.left.owner, ← h.right.nextUid, ← h.right.owner]
  exact ⟨List.mem_cons_self, List.mem_cons_self, (Function.update_self a.nextUid a'.nextUid f).symm⟩

/-- An extra event is scheduled in the second simulator. -/
theorem insertExtra (h : Paired f a a' s d s' d') {time : Time} (ht : s'.now.femtos ≤ time.femtos) (context : ContextId)
    (room : (s'.insert time context (.perform none)).2.pending < destroySlot) :
    Accord s d (s'.insert time context (.perform none)).2 (d'.planted (s'.insert time context (.perform none)).1) := by
  refine ⟨f, a, _, {
    left := h.left
    right := h.right.insert ht context _ room
    plans := ?_
    shell := h.shell
    room := room
    model := h.model
    plain := h.plain
    extras := ?_
    names := h.names.imp fun id id' hid => ⟨hid.1, List.mem_cons_of_mem _ hid.2.1, hid.2.2⟩ }⟩
  · have hplans := h.plans.insertExtra s'.slots.nextSlot time context
    rwa [h.right.nextUid, h.right.owner, ← insert_fst s' time context (.perform none)] at hplans
  · intro id hid
    change id ∈ (⟨a'.nextUid, a'.owner, s'.slots.nextSlot⟩ :: a'.names : List EventId)
    rw [h.right.nextUid, h.right.owner, ← insert_fst s' time context (.perform none)]
    rcases List.mem_append.1 hid with hid | hid
    · exact List.mem_cons_of_mem _ (h.extras id hid)
    · rw [List.mem_singleton.1 hid]
      exact List.mem_cons_self

/-- A common event is cancelled in both. -/
theorem cancel (h : Paired f a a' s d s' d') {id id' : EventId} (hid : Plan.Twins f a a' id id') :
    ∃ answer s₁ s₁', s.cancel id = .ok (answer, s₁) ∧ s'.cancel id' = .ok (answer, s₁') ∧ Accord s₁ d s₁' d' := by
  obtain ⟨s₁, hc, hleft, -, hs₁⟩ := h.left.cancel_eq_ok hid.1 (Nat.lt_of_le_of_lt h.pending_le h.room)
  obtain ⟨s₁', hc', hright, hle, hs₁'⟩ := h.right.cancel_eq_ok hid.2.1 h.room
  rw [hid.2.2] at hc' hright
  obtain ⟨hanswer, hplans⟩ := h.plans.cancel (h.uid_lt hid)
  refine ⟨(a.cancel id.uid).1, s₁, s₁', hc, hanswer ▸ hc', f, _, _, {
    left := hleft
    right := hright
    plans := hplans
    shell := ?_
    room := Nat.lt_of_le_of_lt hle h.room
    model := h.model
    plain := h.plain
    extras := fun id hid => (a'.cancel_names _).1 ▸ h.extras id hid
    names := h.names.imp fun id id' hid => ?_ }⟩
  · rw [hs₁, hs₁']
    exact h.shell
  · unfold Plan.Twins
    rw [(a.cancel_names _).1, (a'.cancel_names _).1]
    exact hid

/-- An extra event is cancelled in the second simulator. -/
theorem cancelExtra (h : Paired f a a' s d s' d') {id : EventId} (hid : id ∈ d'.extras) :
    ∃ answer s₁', s'.cancel id = .ok (answer, s₁') ∧ (answer = none ∨ answer = some (.perform none)) ∧
      Accord s d s₁' d' ∧ s₁'.pending ≤ s'.pending := by
  obtain ⟨s₁', hc', hright, hle, hs₁'⟩ := h.right.cancel_eq_ok (h.extras id hid) h.room
  obtain ⟨hanswer, hplans⟩ := h.plans.cancelExtra hid
  refine ⟨_, s₁', hc', hanswer, ⟨f, a, _, {
    left := h.left
    right := hright
    plans := hplans
    shell := ?_
    room := Nat.lt_of_le_of_lt hle h.room
    model := h.model
    plain := h.plain
    extras := fun id hid => (a'.cancel_names _).1 ▸ h.extras id hid
    names := h.names.imp fun id id' hid => ?_ }⟩, hle⟩
  · rw [hs₁']
    exact h.shell
  · unfold Plan.Twins
    rw [(a'.cancel_names _).1]
    exact hid

/-! ## Questions -/

theorem isPending_eq (h : Paired f a a' s d s' d') {id id' : EventId} (hid : Plan.Twins f a a' id id') :
    ∃ b, s.isPending id = .ok b ∧ s'.isPending id' = .ok b := by
  refine ⟨_, h.left.isPending_eq hid.1, ?_⟩
  rw [h.right.isPending_eq hid.2.1, h.plans.isPending_eq (h.uid_lt hid) hid.2.2]

theorem delayLeft_eq (h : Paired f a a' s d s' d') {id id' : EventId} (hid : Plan.Twins f a a' id id') :
    ∃ t, s.delayLeft id = .ok t ∧ s'.delayLeft id' = .ok t := by
  obtain ⟨t, ht, he⟩ := h.left.delayLeft_eq hid.1
  obtain ⟨t', ht', he'⟩ := h.right.delayLeft_eq hid.2.1
  obtain rfl : t' = t := Time.ext (by rw [he, he', h.plans.delayLeft_eq (h.uid_lt hid) hid.2.2])
  exact ⟨_, ht, ht'⟩

/-! ## Events -/

theorem shell_of_sameBesides {s s₁ : Simulator (Option α)} (h : SameBesides s s₁) : s₁.shell = s.shell := by
  rw [SameBesides] at h
  rw [h]
  rfl

/-- Nothing is left to be executed in the second simulator, and so in the first one. -/
theorem idle (h : Paired f a a' s d s' d') {s₁' : Simulator (Option α)} (hn' : s'.nextEvent = (none, s₁')) :
    ∃ s₁, s.nextEvent = (none, s₁) ∧ Accord s₁ d s₁' d' := by
  obtain ⟨-, -, hbesides', hslots'⟩ := h.right.sound.nextEvent_eq_none hn'
  have hroom' : s₁'.pending < destroySlot := by
    rw [Simulator.pending, hslots']
    exact h.room
  obtain ⟨b', hb', hright⟩ := h.right.step (.idled hn') hroom'
  obtain ⟨hempty', rfl⟩ : a'.pending = [] ∧ b' = a' := by
    cases hb' with
    | idled hempty' => exact ⟨hempty', rfl⟩
  have hempty : a.pending = [] := by
    refine List.eq_nil_iff_forall_not_mem.2 fun r hr => ?_
    exact absurd (hempty' ▸ h.plans.mem_right hr) List.not_mem_nil
  obtain ⟨⟨_ | r, s₁⟩, hn⟩ : ∃ x, s.nextEvent = x := ⟨_, rfl⟩
  · obtain ⟨-, -, hbesides, hslots⟩ := h.left.sound.nextEvent_eq_none hn
    have hroom : s₁.pending < destroySlot := by
      rw [Simulator.pending, hslots]
      exact Nat.lt_of_le_of_lt h.pending_le h.room
    obtain ⟨b, hb, hleft⟩ := h.left.step (.idled hn) hroom
    obtain rfl : b = a := by
      cases hb
      rfl
    refine ⟨s₁, hn, f, b, b', { h with left := hleft, right := hright, shell := ?_, room := hroom' }⟩
    rw [shell_of_sameBesides hbesides, shell_of_sameBesides hbesides', h.shell]
  · obtain ⟨s₂, ha⟩ := h.left.sound.advance hn
    cases (h.left.begin hn ha).1 with
    | began hr _ => exact absurd (hempty ▸ hr) List.not_mem_nil

/-- If an event begins in the second simulator that is no extra one, it begins in the first one. -/
theorem begin (h : Paired f a a' s d s' d') {r' : EventRecord (Action (Option α))} {s₁' s₂' : Simulator (Option α)}
    (hn' : s'.nextEvent = (some r', s₁')) (ha' : s₁'.advance r' = .ok s₂') (hown : r'.action.isExtra = false)
    (room : s₂'.pending < destroySlot) :
    ∃ r s₁ s₂, s.nextEvent = (some r, s₁) ∧ s₁.advance r = .ok s₂ ∧ r' = r.renumber f ∧ Accord s₂ d s₂' d' := by
  obtain ⟨hstep', hright⟩ := h.right.begin hn' ha'
  obtain ⟨r, hr, rfl, hleast⟩ : ∃ r ∈ a.pending, r' = r.renumber f ∧ ∀ r₀ ∈ a.pending, r₀ ≠ r → r.before r₀ := by
    cases hstep' with
    | began hr' hleast' => exact h.plans.least hr' hown hleast'
  obtain ⟨r₀, s₁, s₂, hn, ha⟩ := h.left.progress (List.ne_nil_of_mem hr)
  obtain ⟨hstep, hleft⟩ := h.left.begin hn ha
  -- The least event is unique.
  obtain rfl : r₀ = r := by
    cases hstep with
    | began hr₀ hleast₀ =>
      by_contra hne
      exact EventRecord.before_asymm (hleast r₀ hr₀ hne) (hleast₀ r hr (Ne.symm hne))
  refine ⟨r₀, s₁, s₂, hn, ha, rfl, f, a.begin r₀, a'.begin (r₀.renumber f), {
    left := hleft
    right := hright
    plans := h.plans.begin hr
    shell := ?_
    room := room
    model := h.model
    plain := h.plain
    extras := h.extras
    names := h.names }⟩
  obtain ⟨-, hbesides, -⟩ := h.left.sound.nextEvent_eq_some hn
  obtain ⟨-, hbesides', -⟩ := h.right.sound.nextEvent_eq_some hn'
  have hshell : s₁'.shell = s₁.shell := by
    rw [shell_of_sameBesides hbesides, shell_of_sameBesides hbesides', h.shell]
  obtain ⟨-, rfl⟩ := advance_eq_ok ha
  obtain ⟨-, rfl⟩ := advance_eq_ok ha'
  exact congrArg (fun t : Simulator (Option α) => { t with
    now := r₀.time
    context := r₀.context
    metrics := { t.metrics with executed := t.metrics.executed + 1 } }) hshell

/-- The first destroy event of both begins, and it is no extra one. -/
theorem tearDown (h : Paired f a a' s d s' d') {e : DestroyEvent (Option α)} {rest : List (DestroyEvent (Option α))}
    (he : s.destroyEvents = e :: rest) :
    ∃ e' rest', s'.destroyEvents = e' :: rest' ∧ e'.action = e.action ∧ e.action.isSome ∧
      (e'.renumber fun _ => 0) = (e.renumber fun _ => 0) ∧ Accord (s.beginDestroy rest) d (s'.beginDestroy rest') d' := by
  have he₀ : a.destroyEvents = e :: rest := h.left.destroyEvents.trans he
  have he' : s'.destroyEvents = e.renumber f :: rest.map (DestroyEvent.renumber f) := by
    rw [← h.right.destroyEvents, h.plans.destroyEvents, he₀, List.map_cons]
  refine ⟨_, _, he', rfl, (h.plans.torn e (he₀ ▸ List.mem_cons_self)).2, rfl, f, _, _, {
    left := ?_
    right := ?_
    plans := h.plans.tearDown he₀
    shell := ?_
    room := h.room
    model := h.model
    plain := h.plain
    extras := h.extras
    names := h.names }⟩
  · exact { h.left with
      sound := { h.left.sound with }
      destroyEvents := rfl
      torn := fun d hd => h.left.torn d (he ▸ List.mem_cons_of_mem _ hd) }
  · exact { h.right with
      sound := { h.right.sound with }
      destroyEvents := rfl
      torn := fun d hd => h.right.torn d (he' ▸ List.mem_cons_of_mem _ hd) }
  · exact congrArg (fun t : Simulator (Option α) =>
      { t with metrics := { t.metrics with executed := t.metrics.executed + 1 } }) h.shell

/-- All events of both are forgotten. -/
theorem clear (h : Paired f a a' s d s' d') : Accord s.clear.2 d s'.clear.2 d' := by
  have hrefines {t : Simulator (Option α)} {b : Plan (Option α)} (ht : t.Refines b) : t.clear.2.Refines b.clear := {
    ht with
    sound := ht.sound.clear
    destroyEvents := rfl
    records := .refl _
    size_le := Nat.zero_le _
    named := fun hr => absurd (hr.symm.trans (EventSlots.record?_empty _)) (Option.some_ne_none _)
    torn := fun _ hm => absurd hm List.not_mem_nil }
  exact ⟨f, a.clear, a'.clear, { h with
    left := hrefines h.left
    right := hrefines h.right
    plans := h.plans.clear
    room := Nat.zero_lt_succ _ }⟩

end Paired

namespace Accord

theorem shell_eq : Accord s d s' d' → s'.shell = s.shell
  | ⟨_, _, _, h⟩ => h.shell

/-- Flags and generator are set in both. -/
theorem switch (h : Accord s d s' d') (g : Simulator (Option α) → Simulator (Option α))
    (hg : ∀ t, g t = { t with
      running := (g t).running
      stopRequested := (g t).stopRequested
      stopTimeArmed := (g t).stopTimeArmed
      stopReason := (g t).stopReason
      rng := (g t).rng })
    (hshell : ∀ t, (g t).shell = g t.shell) : Accord (g s) d (g s') d' := by
  obtain ⟨f, a, a', h⟩ := h
  exact ⟨f, a, a', h.switch g hg hshell⟩

end Accord

end Simulator

end SimKernel
