import SimKernel.Proofs.Simulator.Accord

/-!
# Programs in tandem

A veiled program is executed on two simulators in accord, and behind its back requests are inserted in the second one
(`Program.Parallel`). It gets the same answers in both, the same happens up to the names of events, and only the extra requests
happen in the second simulator alone (`Alongside`); afterwards the simulators are in accord (`Agree`). This is shown for the
single steps that veiled programs consist of, and then for programs by induction (`parallel_veil`), whatever executes events
for them, provided that this does so in tandem, too (`Host.Parallel`).
-/

namespace SimKernel

variable {α ω ρ σ τ : Type}

/-! ## Histories side by side -/

/-- A name that stands for any. -/
def EventId.blank : EventId := ⟨0, 0, 0⟩

namespace Deed

/-- What happened, without the names of events. -/
def nameless : Deed α → Deed α
  | called (.schedule delay a) answer => called (.schedule delay a) (Except.map (fun _ => .blank) answer)
  | called (.scheduleIn context delay a) answer =>
    called (.scheduleIn context delay a) (Except.map (fun _ => .blank) answer)
  | called (.scheduleAt time a) answer => called (.scheduleAt time a) (Except.map (fun _ => .blank) answer)
  | called (.scheduleNow a) _ => called (.scheduleNow a) .blank
  | called (.scheduleDestroy a) _ => called (.scheduleDestroy a) .blank
  | called (.cancel _) answer => called (.cancel .blank) answer
  | called (.stopAt time) answer => called (.stopAt time) (Except.map (fun _ => .blank) answer)
  | called (.stopAfter delay) answer => called (.stopAfter delay) (Except.map (fun _ => .blank) answer)
  | began r => began r.nameless
  | tornDown e => tornDown (e.renumber fun _ => 0)
  | d => d

/-- An extra event is scheduled or cancelled, or it is too late to cancel it. -/
def Extra : Deed (Option α) → Prop
  | called (.scheduleIn _ _ none) _ => True
  | called (.cancel _) answer => answer = none ∨ answer = some (.perform none)
  | _ => False

end Deed

/-- The same happens in both histories, and extra requests in the second one. -/
inductive Alongside : List (Moment (Option α)) → List (Moment (Option α)) → Prop
  | nil : Alongside [] []
  | both {m m' : Moment (Option α)} {ms ms' : List (Moment (Option α))} (hd : m'.deed.nameless = m.deed.nameless)
      (hs : m.state.Like m'.state) (h : Alongside ms ms') : Alongside (m :: ms) (m' :: ms')
  | extra {m' : Moment (Option α)} {ms ms' : List (Moment (Option α))} (hd : m'.deed.Extra) (h : Alongside ms ms') :
      Alongside ms (m' :: ms')

theorem Alongside.append {ms ms' ns ns' : List (Moment (Option α))} (h : Alongside ms ms') (h' : Alongside ns ns') :
    Alongside (ms ++ ns) (ms' ++ ns') := by
  induction h with
  | nil => exact h'
  | both hd hs _ ih => exact .both hd hs ih
  | extra hd _ ih => exact .extra hd ih

/-- Whatever can be told of what happens without names, and of extra requests not at all, is the same. -/
theorem Alongside.filterMap_eq {β : Type} {ms ms' : List (Moment (Option α))} (h : Alongside ms ms')
    (g : Deed (Option α) → Option β) (hg : ∀ d, g d.nameless = g d) (hx : ∀ d : Deed (Option α), d.Extra → g d = none) :
    (ms'.filterMap fun m => g m.deed) = ms.filterMap fun m => g m.deed := by
  induction h with
  | nil => rfl
  | @both m m' _ _ hd _ _ ih =>
    have he : g m'.deed = g m.deed := by rw [← hg m'.deed, hd, hg]
    rw [List.filterMap_cons, List.filterMap_cons, he, ih]
  | @extra m' _ _ hd _ ih => rw [List.filterMap_cons, hx m'.deed hd, ih]

/-- There are enough slots, and no extra event begins. -/
def Moment.Fair (m : Moment (Option α)) : Prop :=
  m.state.pending < Simulator.destroySlot ∧ ∀ r ∈ m.deed.began?, r.action.isExtra = false

instance (m : Moment (Option α)) : Decidable m.Fair := inferInstanceAs (Decidable (_ ∧ _))

open Simulator

/-- Executions ended with related answers and with simulators in accord, or in the same fault. -/
inductive Agree (R : σ → σ → Prop) :
    Except Fault (σ × Simulator (Option α) × Desk ω) → Except Fault (σ × Simulator (Option α) × Desk ω) → Prop
  | ok {x x' : σ} {s s' : Simulator (Option α)} {d d' : Desk ω} (hx : R x x') (h : Accord s d s' d') :
      Agree R (.ok (x, s, d)) (.ok (x', s', d'))
  | error (f : Fault) : Agree R (.error f) (.error f)

/-- As long as the second history is fair, the same happens in both, and the executions end in the same way. -/
def Tandem (R : σ → σ → Prop) (ms ms' : List (Moment (Option α)))
    (o o' : Except Fault (σ × Simulator (Option α) × Desk ω)) : Prop :=
  (∀ m ∈ ms', m.Fair) → Alongside ms ms' ∧ Agree R o o'

namespace Tandem

variable {R : σ → σ → Prop} {S : τ → τ → Prop} {m m' : Moment (Option α)} {ms ms' ns ns' : List (Moment (Option α))}
  {s s' : Simulator (Option α)} {d d' : Desk ω} {o o' : Except Fault (σ × Simulator (Option α) × Desk ω)}
  {p p' : Except Fault (τ × Simulator (Option α) × Desk ω)}

theorem ok {x x' : σ} (hx : R x x') (h : Accord s d s' d') : Tandem R [] [] (.ok (x, s, d)) (.ok (x', s', d')) :=
  fun _ => ⟨.nil, .ok hx h⟩

theorem error (f : Fault) : Tandem R [] [] (.error f : Except Fault (σ × Simulator (Option α) × Desk ω)) (.error f) :=
  fun _ => ⟨.nil, .error f⟩

theorem append (h : Tandem R ms ms' o o') (hk : Agree R o o' → Tandem S ns ns' p p') :
    Tandem S (ms ++ ns) (ms' ++ ns') p p' := by
  intro hfair
  obtain ⟨hms, ho⟩ := h fun m hm => hfair m (List.mem_append_left _ hm)
  obtain ⟨hns, hp⟩ := hk ho fun m hm => hfair m (List.mem_append_right _ hm)
  exact ⟨hms.append hns, hp⟩

theorem imp (h : Tandem R ms ms' o o') (hk : Agree R o o' → Agree S p p') : Tandem S ms ms' p p' := by
  intro hfair
  obtain ⟨hms, ho⟩ := h hfair
  exact ⟨hms, hk ho⟩

theorem map (h : Tandem R ms ms' o o') (g : σ → τ) (hg : ∀ x x', R x x' → S (g x) (g x')) :
    Tandem S ms ms' (o.map fun y => (g y.1, y.2)) (o'.map fun y => (g y.1, y.2)) := by
  refine h.imp fun hagree => ?_
  cases hagree with
  | ok hx ha => exact .ok (hg _ _ hx) ha
  | error f => exact .error f

/-- It may be used that the next moment is a fair one. -/
theorem of_fair (h : m'.Fair → Tandem S ms (m' :: ms') p p') : Tandem S ms (m' :: ms') p p' :=
  fun hfair => h (hfair m' List.mem_cons_self) hfair

/-- The same happens to both. -/
theorem both (hd : m'.deed.nameless = m.deed.nameless) (ha : Accord m.state d m'.state d') (hk : Tandem S ns ns' p p') :
    Tandem S (m :: ns) (m' :: ns') p p' := by
  intro hfair
  obtain ⟨f, a, a', hp⟩ := ha
  obtain ⟨hns, hp'⟩ := hk fun m hm => hfair m (List.mem_cons_of_mem _ hm)
  exact ⟨.both hd hp.like hns, hp'⟩

/-- An extra request is made to the second simulator. -/
theorem extra (hd : m'.deed.Extra) (hk : Tandem S ms ns' p p') : Tandem S ms (m' :: ns') p p' := by
  intro hfair
  obtain ⟨hns, hp⟩ := hk fun m hm => hfair m (List.mem_cons_of_mem _ hm)
  exact ⟨.extra hd hns, hp⟩

end Tandem

/-! ## Programs -/

/-- What executes events for a program, and the moments of that. -/
structure Host (α ω : Type) where
  handle : Handler (Option α) (Desk ω)
  within : Within (Option α) (Desk ω)

/-- Nothing is executed for actions. -/
def Host.action : Host α ω := ⟨Handler.refuse, fun _ _ _ => []⟩

/-- What the program that drives a simulator has executed. -/
def Host.driver (meaning : Meaning (Option α) (Desk ω)) (fuel : Nat) : Host α ω :=
  ⟨handler meaning fuel, Simulator.within meaning fuel⟩

/-- Executed on simulators in accord, the programs run in tandem and give the same answer. -/
def Program.Parallel (H H' : Host α ω) (p p' : Program (Option α) (Desk ω) ρ) : Prop :=
  ∀ s d s' d', Accord s d s' d' → Tandem Eq (p.moments H.handle H.within s d) (p'.moments H'.handle H'.within s' d')
    (p.exec H.handle s d) (p'.exec H'.handle s' d')

namespace Program

variable {H H' : Host α ω} {s s' : Simulator (Option α)} {d d' : Desk ω}

theorem Parallel.done (r : ρ) : Parallel H H' (.done r : Program (Option α) (Desk ω) ρ) (.done r) :=
  fun _ _ _ _ h => .ok rfl h

/-- The one part in tandem, and then the other. -/
theorem tandem_bind {p p' : Program (Option α) (Desk ω) ρ} {k k' : ρ → Program (Option α) (Desk ω) σ}
    (hp : Tandem Eq (p.moments H.handle H.within s d) (p'.moments H'.handle H'.within s' d') (p.exec H.handle s d)
      (p'.exec H'.handle s' d'))
    (hk : ∀ r, Parallel H H' (k r) (k' r)) :
    Tandem Eq ((p.bind k).moments H.handle H.within s d) ((p'.bind k').moments H'.handle H'.within s' d')
      ((p.bind k).exec H.handle s d) ((p'.bind k').exec H'.handle s' d') := by
  have hexec := exec_bind H.handle p k s d
  have hexec' := exec_bind H'.handle p' k' s' d'
  change (p.bind k).exec H.handle s d = _ at hexec
  change (p'.bind k').exec H'.handle s' d' = _ at hexec'
  rw [moments_bind, moments_bind, hexec, hexec']
  refine hp.append fun hagree => ?_
  generalize p.exec H.handle s d = o, p'.exec H'.handle s' d' = o' at hagree
  cases hagree with
  | error f => exact .error f
  | @ok x x' s₁ s₁' d₁ d₁' hx h₁ =>
    subst hx
    cases x with
    | error e => exact .ok rfl h₁
    | ok r => exact hk r s₁ d₁ s₁' d₁' h₁

theorem Parallel.bind {p p' : Program (Option α) (Desk ω) ρ} {k k' : ρ → Program (Option α) (Desk ω) σ}
    (hp : Parallel H H' p p') (hk : ∀ r, Parallel H H' (k r) (k' r)) : Parallel H H' (p.bind k) (p'.bind k') :=
  fun s d s' d' h => tandem_bind (hp s d s' d' h) hk

/-! ## Questions -/

/-- The program does nothing but answer. -/
def Says (H : Host α ω) (p : Program (Option α) (Desk ω) ρ) (s : Simulator (Option α)) (d : Desk ω) (r : ρ) : Prop :=
  p.exec H.handle s d = .ok (.ok r, s, d) ∧ p.moments H.handle H.within s d = []

theorem Says.bind {p : Program (Option α) (Desk ω) ρ} {k : ρ → Program (Option α) (Desk ω) σ} {r : ρ} {x : σ}
    (hp : p.Says H s d r) (hk : (k r).Says H s d x) : (p.bind k).Says H s d x := by
  constructor
  · refine (exec_bind H.handle p k s d).trans ?_
    rw [hp.1]
    exact hk.1
  · rw [moments_bind, hp.2, hp.1]
    exact hk.2

theorem says_done (r : ρ) : (done r : Program (Option α) (Desk ω) ρ).Says H s d r := ⟨rfl, rfl⟩

theorem Says.ask {q : Query} {next : q.Answer → Program (Option α) (Desk ω) ρ} {a : q.Answer} {r : ρ}
    (hq : q.answer s = .ok a) (hn : (next a).Says H s d r) : (Program.ask q next).Says H s d r := by
  unfold Says
  simp only [exec, moments, hq]
  exact hn

/-- Programs that give the same answer in both simulators, and do nothing else. -/
theorem Says.tandem {p p' : Program (Option α) (Desk ω) ρ} {r : ρ} (hp : p.Says H s d r) (hp' : p'.Says H' s' d' r)
    (h : Accord s d s' d') : Tandem Eq (p.moments H.handle H.within s d) (p'.moments H'.handle H'.within s' d')
      (p.exec H.handle s d) (p'.exec H'.handle s' d') := by
  rw [hp.1, hp.2, hp'.1, hp'.2]
  exact .ok rfl h

theorem says_countPending {ids : List EventId} {pending : EventId → Bool}
    (h : ∀ id ∈ ids, s.isPending id = .ok (pending id)) :
    (countPending ids : Program (Option α) (Desk ω) Nat).Says H s d (ids.filter pending).length := by
  induction ids with
  | nil => exact says_done 0
  | cons id ids ih =>
    refine .ask (h id List.mem_cons_self) ((ih fun id hid => h id (List.mem_cons_of_mem _ hid)).bind ?_)
    cases hp : pending id with
    | true =>
      rw [List.filter_cons_of_pos hp]
      exact says_done _
    | false =>
      rw [List.filter_cons_of_neg (Bool.not_eq_true _ ▸ hp)]
      exact says_done _

/-- The first simulator has no extra events, and the second one as many as it has more pending ones. -/
theorem says_ownPending (H H' : Host α ω) {f : Nat → Nat} {a a' : Plan (Option α)} (h : Paired f a a' s d s' d') :
    ownPending.Says H s d a.count ∧ ownPending.Says H' s' d' a.count := by
  constructor
  · refine .ask (congrArg Except.ok h.left.pending_eq) ?_
    change ((countPending d.extras).bind fun k => done (a.count - k)).Says H s d a.count
    rw [h.plain]
    exact says_done _
  · refine .ask (congrArg Except.ok h.right.pending_eq) ?_
    have hcount : (countPending d'.extras).Says H' s' d' _ :=
      says_countPending fun id hid => h.right.isPending_eq (h.extras id hid)
    refine hcount.bind ?_
    rw [h.plans.count_eq, Nat.add_sub_cancel_left]
    exact says_done _

/-- A number is looked up on both desks, and if there are real names, they are those of one event. -/
theorem tandem_lookUp {f : Nat → Nat} {a a' : Plan (Option α)} (h : Paired f a a' s d s' d') (id : EventId)
    {k k' : EventId → Program (Option α) (Desk ω) ρ}
    (hk : ∀ r r', Plan.Twins f a a' r r' → Tandem Eq ((k r).moments H.handle H.within s d)
      ((k' r').moments H'.handle H'.within s' d') ((k r).exec H.handle s d) ((k' r').exec H'.handle s' d')) :
    Tandem Eq (((lookUp id).bind k).moments H.handle H.within s d) (((lookUp id).bind k').moments H'.handle H'.within s' d')
      (((lookUp id).bind k).exec H.handle s d) (((lookUp id).bind k').exec H'.handle s' d') := by
  simp only [lookUp, Program.bind, moments, exec]
  rcases h.getElem?_names id.uid with ⟨hn, hn'⟩ | ⟨r, r', hn, hn', htwins⟩
  · rw [hn, hn']
    exact .error _
  · rw [hn, hn']
    exact hk r r' htwins

/-- What can be told of the simulator besides its events is the same. -/
theorem parallel_query {q : Query} (hq : ∀ t : Simulator (Option α), q.answer t.shell = q.answer t) :
    Parallel H H' (query q : Program (Option α) (Desk ω) q.Answer) (query q) := by
  rintro s d s' d' ⟨f, a, a', h⟩
  have he : q.answer s' = q.answer s := eq_of_shell (fun t => q.answer t) hq h.shell
  simp only [query, moments, exec, he]
  cases q.answer s with
  | error f => exact .error f
  | ok a => exact .ok rfl ⟨_, _, _, h⟩

theorem parallel_ask (q : Query) : Parallel H H' (q.veil : Program (Option α) (Desk ω) q.Answer) q.veil := by
  rintro s d s' d' ⟨f, a, a', h⟩
  have hsame : Accord s d s' d' := ⟨f, a, a', h⟩
  obtain ⟨hown, hown'⟩ := says_ownPending H H' h
  cases q with
  | now | context | config | rng | executed => exact parallel_query (fun _ => rfl) s d s' d' hsame
  | pending => exact hown.tandem hown' hsame
  | isPending id =>
    refine tandem_lookUp h id fun r r' htwins => ?_
    obtain ⟨b, hb, hb'⟩ := h.isPending_eq htwins
    exact (Says.ask (q := .isPending r) hb (says_done b)).tandem (Says.ask (q := .isPending r') hb' (says_done b)) hsame
  | delayLeft id =>
    refine tandem_lookUp h id fun r r' htwins => ?_
    obtain ⟨b, hb, hb'⟩ := h.delayLeft_eq htwins
    exact (Says.ask (q := .delayLeft r) hb (says_done b)).tandem (Says.ask (q := .delayLeft r') hb' (says_done b)) hsame
  | isFinished =>
    have hfinished : (s'.isFinished || a.count == 0) = (s.isFinished || a.count == 0) := by
      have hle := h.pending_le
      rw [h.left.pending_eq] at hle
      rw [isFinished, isFinished, h.left.pending_eq, eq_of_shell stopRequested (fun _ => rfl) h.shell]
      rcases Nat.eq_zero_or_pos a.count with hzero | hpos
      · rw [hzero]
        exact (Bool.or_true _).trans (Bool.or_true _).symm
      · rw [beq_false_of_ne (Nat.ne_of_gt hpos), beq_false_of_ne (Nat.ne_of_gt (Nat.lt_of_lt_of_le hpos hle))]
    have hsays : Says H (Query.veil .isFinished) s d _ := .ask rfl (hown.bind (says_done _))
    have hsays' : Says H' (Query.veil .isFinished) s' d' _ := .ask rfl (hown'.bind (says_done _))
    rw [hfinished] at hsays'
    exact hsays.tandem hsays' hsame
  | report =>
    have hreport : s'.report.veil a.count = s.report.veil a.count :=
      eq_of_shell (fun t => t.report.veil a.count) (fun _ => rfl) h.shell
    have hsays : Says H (Query.veil .report) s d _ := .ask rfl (hown.bind (says_done _))
    have hsays' : Says H' (Query.veil .report) s' d' _ := .ask rfl (hown'.bind (says_done _))
    rw [hreport] at hsays'
    exact hsays.tandem hsays' hsame

/-! ## Requests -/

/-- The names of one event are taken down, and the program gets the same number for both. -/
theorem tandem_note {f : Nat → Nat} {a a' : Plan (Option α)} (h : Paired f a a' s d s' d') {id id' : EventId}
    (hid : Plan.Twins f a a' id id') :
    Tandem Eq ((note id : Program (Option α) (Desk ω) EventId).moments H.handle H.within s d)
      ((note id').moments H'.handle H'.within s' d') ((note id).exec H.handle s d) ((note id').exec H'.handle s' d') := by
  have hlength : d'.names.length = d.names.length := h.names.length_eq.symm
  simp only [note, moments, exec, hlength]
  exact .ok rfl ⟨f, a, a', h.noted hid⟩

/-- Requests fail with the same fault, or what follows both is in tandem. -/
theorem tandem_call (c c' : Call (Option α)) {k : c.Answer → Program (Option α) (Desk ω) ρ}
    {k' : c'.Answer → Program (Option α) (Desk ω) ρ}
    (h : (∃ f, c.perform s = .error f ∧ c'.perform s' = .error f) ∨
      ∃ x x' s₁ s₁', c.perform s = .ok (x, s₁) ∧ c'.perform s' = .ok (x', s₁') ∧
        Tandem Eq (⟨.called c x, s₁⟩ :: (k x).moments H.handle H.within s₁ d)
          (⟨.called c' x', s₁'⟩ :: (k' x').moments H'.handle H'.within s₁' d') ((k x).exec H.handle s₁ d)
          ((k' x').exec H'.handle s₁' d')) :
    Tandem Eq ((call c k).moments H.handle H.within s d) ((call c' k').moments H'.handle H'.within s' d')
      ((call c k).exec H.handle s d) ((call c' k').exec H'.handle s' d') := by
  rcases h with ⟨f, hc, hc'⟩ | ⟨x, x', s₁, s₁', hc, hc', h⟩
  · simp only [moments, exec, hc, hc']
    exact .error f
  · simp only [moments, exec, hc, hc']
    exact h

/-- A request to schedule is answered in both, and the answer is taken down. -/
theorem tandem_scheduled {y y' : Except Fault (Except SimError (EventId × Simulator (Option α)))}
    (hy : Paired.Scheduled d d' y y') (h : Accord s d s' d') {deed : Except SimError EventId → Deed (Option α)}
    (hdeed : ∀ x, (deed x).nameless = deed (x.map fun _ => EventId.blank)) :
    (∃ f, y.map (Call.keep s) = .error f ∧ y'.map (Call.keep s') = .error f) ∨
      ∃ x x' s₁ s₁', y.map (Call.keep s) = .ok (x, s₁) ∧ y'.map (Call.keep s') = .ok (x', s₁') ∧
        Tandem Eq (⟨deed x, s₁⟩ :: (noteAny x).moments H.handle H.within s₁ d)
          (⟨deed x', s₁'⟩ :: (noteAny x').moments H'.handle H'.within s₁' d') ((noteAny x).exec H.handle s₁ d)
          ((noteAny x').exec H'.handle s₁' d') := by
  cases hy with
  | fault f => exact .inl ⟨f, rfl, rfl⟩
  | refused e => exact .inr ⟨_, _, _, _, rfl, rfl, .both rfl h (.ok rfl h)⟩
  | @added id id' s₁ s₁' hadded =>
    refine .inr ⟨_, _, _, _, rfl, rfl, .of_fair fun hfair => ?_⟩
    obtain ⟨f, a, a', h₁, hid⟩ := hadded hfair.1
    refine .both ((hdeed (.ok id')).trans (hdeed (.ok id)).symm) ⟨f, a, a', h₁⟩ ?_
    exact tandem_bind (tandem_note h₁ hid) fun r => .done (Except.ok r)

theorem parallel_call (c : Call α) : Parallel H H' (c.veil : Program (Option α) (Desk ω) c.Answer) c.veil := by
  rintro s d s' d' ⟨f, a, a', h⟩
  have hsame : Accord s d s' d' := ⟨f, a, a', h⟩
  cases c with
  | schedule delay b =>
    have hy : Paired.Scheduled d d' (.ok (s.scheduleIn s.context delay (.perform (some b))))
        (.ok (s'.scheduleIn s'.context delay (.perform (some b)))) := by
      rw [h.context_eq]
      exact h.scheduled_in s.context delay (.perform (some b)) rfl
    exact tandem_call (.schedule delay (some b)) _ (tandem_scheduled hy hsame fun _ => rfl)
  | scheduleIn context delay b =>
    have hy := h.scheduled_in context delay (.perform (some b)) rfl
    exact tandem_call (.scheduleIn context delay (some b)) _ (tandem_scheduled hy hsame fun _ => rfl)
  | scheduleAt time b =>
    have hy := h.scheduled_at time (.perform (some b)) rfl
    exact tandem_call (.scheduleAt time (some b)) _ (tandem_scheduled hy hsame fun _ => rfl)
  | stopAt time =>
    have hy := h.scheduled_at time .stop rfl
    exact tandem_call (.stopAt time) _ (tandem_scheduled hy hsame fun _ => rfl)
  | stopAfter delay =>
    have hy : Paired.Scheduled d d' (.ok (s.scheduleIn s.context delay .stop))
        (.ok (s'.scheduleIn s'.context delay .stop)) := by
      rw [h.context_eq]
      exact h.scheduled_in s.context delay .stop rfl
    exact tandem_call (.stopAfter delay) _ (tandem_scheduled hy hsame fun _ => rfl)
  | scheduleNow b =>
    have hnow : s'.scheduleNow (.perform (some b)) = s'.insert s.now s.context (.perform (some b)) := by
      rw [Simulator.scheduleNow, h.now_eq, h.context_eq]
    refine tandem_call (.scheduleNow (some b)) _
      (.inr ⟨_, _, _, _, rfl, congrArg Except.ok hnow, .of_fair fun hfair => ?_⟩)
    obtain ⟨f₁, a₁, a₁', h₁, hid⟩ := h.insert (Int.le_refl _) s.context rfl hfair.1
    exact .both rfl ⟨f₁, a₁, a₁', h₁⟩ (tandem_note h₁ hid)
  | scheduleDestroy b =>
    obtain ⟨f₁, a₁, a₁', h₁, hid⟩ := h.scheduleDestroy b
    exact .both rfl ⟨f₁, a₁, a₁', h₁⟩ (tandem_note h₁ hid)
  | cancel id =>
    refine tandem_lookUp h id fun r r' htwins => ?_
    obtain ⟨answer, s₁, s₁', hc, hc', h₁⟩ := h.cancel htwins
    refine tandem_call (.cancel r) (.cancel r') (.inr ⟨answer, answer, s₁, s₁', hc, hc', ?_⟩)
    exact .both rfl h₁ (.ok rfl h₁)
  | stop =>
    have h₁ : Accord s.stop d s'.stop d' := ⟨f, a, a', h.switch Simulator.stop (fun _ => rfl) fun _ => rfl⟩
    exact .both rfl h₁ (.ok rfl h₁)
  | setRng g =>
    have h₁ : Accord { s with rng := g } d { s' with rng := g } d' :=
      ⟨f, a, a', h.switch (fun t => { t with rng := g }) (fun _ => rfl) fun _ => rfl⟩
    exact .both rfl h₁ (.ok rfl h₁)

/-! ## Extra requests -/

/-- An extra request is made, or there is none to be made. -/
theorem parallel_insert (i : Insertion) : Parallel H H' (done () : Program (Option α) (Desk ω) Unit) i.insert := by
  rintro s d s' d' ⟨f, a, a', h⟩
  have hsame : Accord s d s' d' := ⟨f, a, a', h⟩
  cases i with
  | schedule context delay =>
    cases hs : s'.scheduleIn context delay (.perform none) with
    | error e =>
      simp only [Insertion.insert, moments, exec, Call.perform, hs, Call.keep]
      exact .extra trivial (.ok rfl hsame)
    | ok x =>
      obtain ⟨id, s₁'⟩ := x
      obtain ⟨time, hle, he⟩ := scheduleIn_eq_ok hs
      obtain ⟨rfl, rfl⟩ := Prod.mk.inj he
      simp only [Insertion.insert, moments, exec, Call.perform, hs, Call.keep]
      refine .of_fair fun hfair => ?_
      exact .extra trivial (.ok rfl (h.insertExtra hle context hfair.1))
  | cancel n =>
    cases hn : d'.extras[n]? with
    | none =>
      simp only [Insertion.insert, moments, exec, hn]
      exact .ok rfl hsame
    | some id =>
      obtain ⟨answer, s₁', hc, hanswer, h₁, -⟩ := h.cancelExtra (List.mem_of_getElem? hn)
      simp only [Insertion.insert, moments, exec, hn, Call.perform, hc]
      exact .extra hanswer (.ok rfl h₁)

theorem parallel_insertAll (is : List Insertion) :
    Parallel H H' (done () : Program (Option α) (Desk ω) Unit) (Insertion.insertAll is) := by
  induction is with
  | nil => exact .done ()
  | cons i is ih => exact (parallel_insert i).bind fun _ => ih

/-- The next point is passed, where only the second simulator gets extra requests. -/
theorem parallel_pass (insertions : Insertions) :
    Parallel H H' (Insertions.none.pass : Program (Option α) (Desk ω) Unit) insertions.pass := by
  rintro s d s' d' ⟨f, a, a', h⟩
  have hall : Parallel H H' (done ()) (Insertion.insertAll (insertions d'.points)) := parallel_insertAll _
  exact hall s { d with points := d.points + 1 } s' { d' with points := d'.points + 1 } ⟨f, a, a', { h with }⟩

end Program

/-! ## Veiled programs -/

/-- The answers say the same about anything but events that are pending. -/
def Drive.Akin : (e : Drive) → e.Answer α → e.Answer α → Prop
  | .run, x, x' => ∀ n, Except.map (fun r => Report.veil r n) x' = Except.map (fun r => Report.veil r n) x
  | .step, x, x' => ∀ b : Bool, Except.map (fun _ => b) x' = Except.map (fun _ => b) x
  | .destroy, x, x' => x'.1 = x.1

/-- On simulators in accord, events are executed in tandem. -/
def Host.Parallel (H H' : Host α ω) : Prop :=
  ∀ (e : Drive) s d s' d', Accord s d s' d' → Tandem e.Akin (H.within e s d) (H'.within e s' d')
    (H.handle e s d) (H'.handle e s' d')

namespace Program

variable {H H' : Host α ω}

/-- Events are executed in tandem, and then the programs that get related answers. -/
theorem tandem_drive (hH : H.Parallel H') {e : Drive} {k k' : e.Answer (Option α) → Program (Option α) (Desk ω) ρ}
    {s s' : Simulator (Option α)} {d d' : Desk ω} (h : Accord s d s' d')
    (hk : ∀ x x' s₁ d₁ s₁' d₁', e.Akin x x' → Accord s₁ d₁ s₁' d₁' →
      Tandem Eq ((k x).moments H.handle H.within s₁ d₁) ((k' x').moments H'.handle H'.within s₁' d₁')
        ((k x).exec H.handle s₁ d₁) ((k' x').exec H'.handle s₁' d₁')) :
    Tandem Eq ((drive e k).moments H.handle H.within s d) ((drive e k').moments H'.handle H'.within s' d')
      ((drive e k).exec H.handle s d) ((drive e k').exec H'.handle s' d') := by
  simp only [moments, exec]
  refine (hH e s d s' d' h).append fun hagree => ?_
  generalize H.handle e s d = o, H'.handle e s' d' = o' at hagree ⊢
  cases hagree with
  | error f => exact .error f
  | ok hx h₁ => exact .both rfl h₁ (hk _ _ _ _ _ _ hx h₁)

/-- The number of pending events besides extra ones is the same. -/
theorem tandem_ownPending {s s' : Simulator (Option α)} {d d' : Desk ω} (h : Accord s d s' d') {k k' : Nat → ρ}
    (hk : ∀ n, k' n = k n) :
    Tandem Eq ((ownPending.bind fun n => done (k n)).moments H.handle H.within s d)
      ((ownPending.bind fun n => done (k' n)).moments H'.handle H'.within s' d')
      ((ownPending.bind fun n => done (k n)).exec H.handle s d)
      ((ownPending.bind fun n => done (k' n)).exec H'.handle s' d') := by
  obtain rfl : k' = k := funext hk
  obtain ⟨f, a, a', hp⟩ := h
  obtain ⟨hown, hown'⟩ := says_ownPending H H' hp
  exact (hown.bind (says_done (k' a.count))).tandem (hown'.bind (says_done (k' a.count))) ⟨f, a, a', hp⟩

theorem parallel_drive (hH : H.Parallel H') (e : Drive) :
    Parallel H H' (e.veil : Program (Option α) (Desk ω) (e.Answer α)) e.veil := by
  intro s d s' d' h
  cases e with
  | run => exact tandem_drive hH h fun x x' s₁ d₁ s₁' d₁' hx h₁ => tandem_ownPending h₁ hx
  | step => exact tandem_drive hH h fun x x' s₁ d₁ s₁' d₁' hx h₁ => tandem_ownPending h₁ fun n => hx (n != 0)
  | destroy =>
    refine tandem_drive hH h fun x x' s₁ d₁ s₁' d₁' (hx : x'.1 = x.1) h₁ => ?_
    simp only [hx]
    exact .ok rfl h₁

/-- A veiled program is executed in tandem, whatever extra requests are inserted. -/
theorem parallel_veil (hH : H.Parallel H') (insertions : Insertions) (p : Program α ω ρ) :
    Parallel H H' (p.veil .none) (p.veil insertions) := by
  induction p with
  | done r => exact (parallel_pass insertions).bind fun _ => .done r
  | fail e => exact (parallel_pass insertions).bind fun _ => fun _ _ _ _ h => .ok rfl h
  | fault f => exact fun _ _ _ _ _ => .error f
  | ask q next ih => exact (parallel_pass insertions).bind fun _ => (parallel_ask q).bind ih
  | call c next ih => exact (parallel_pass insertions).bind fun _ => (parallel_call c).bind ih
  | drive e next ih => exact (parallel_pass insertions).bind fun _ => (parallel_drive hH e).bind ih
  | look next ih =>
    rintro s d s' d' ⟨f, a, a', h⟩
    have hnext := ih d.model s d s' d' ⟨f, a, a', h⟩
    simp only [Program.veil, moments, exec, h.model]
    exact hnext
  | change g next ih =>
    rintro s d s' d' ⟨f, a, a', h⟩
    exact ih s { d with model := g d.model } s' { d' with model := g d'.model }
      ⟨f, a, a', { h with model := congrArg g h.model }⟩

end Program

end SimKernel
