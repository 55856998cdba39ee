import SimKernel.Proofs.Simulator.Requests

/-!
# Taking executions apart

A program that was executed without a fault, from its first step on: what the step answered, and what the rest did. A
program that faulted did so in one of its steps (`exec_bind_eq_error`). A request to schedule an event answers its name, or
an error that leaves the simulator as it is (`schedule_eq_ok`).
-/

namespace SimKernel

namespace Program

variable {α ω ρ σ : Type} {handle : Handler α ω} {s s' : Simulator α} {w w' : ω}

/-- A sequence that did not fail: the first part answered, and the second part went on from there. -/
theorem exec_bind_eq_ok {p : Program α ω ρ} {f : ρ → Program α ω σ} {r : σ}
    (h : (p >>= f).exec handle s w = .ok (.ok r, s', w')) :
    ∃ a s₁ w₁, p.exec handle s w = .ok (.ok a, s₁, w₁) ∧ (f a).exec handle s₁ w₁ = .ok (.ok r, s', w') := by
  rw [exec_bind] at h
  cases hp : p.exec handle s w with
  | error e => rw [hp] at h; cases h
  | ok x =>
    rw [hp] at h
    obtain ⟨e | a, s₁, w₁⟩ := x
    · cases h
    · exact ⟨a, s₁, w₁, rfl, h⟩

/-- A sequence that faulted: one part of it did. -/
theorem exec_bind_eq_error {p : Program α ω ρ} {f : ρ → Program α ω σ} {e : Fault}
    (h : (p >>= f).exec handle s w = .error e) :
    p.exec handle s w = .error e ∨
      ∃ a s₁ w₁, p.exec handle s w = .ok (.ok a, s₁, w₁) ∧ (f a).exec handle s₁ w₁ = .error e := by
  rw [exec_bind] at h
  cases hp : p.exec handle s w with
  | error e' =>
    rw [hp] at h
    cases h
    exact .inl rfl
  | ok x =>
    rw [hp] at h
    obtain ⟨e' | a, s₁, w₁⟩ := x
    · cases h
    · exact .inr ⟨a, s₁, w₁, rfl, h⟩

theorem exec_pure_eq_ok {a r : ρ} (h : (pure a : Program α ω ρ).exec handle s w = .ok (.ok r, s', w')) :
    r = a ∧ s' = s ∧ w' = w := by
  cases h
  exact ⟨rfl, rfl, rfl⟩

section Nodes

variable {x : Outcome α ω ρ}

/-- A question that has an answer is followed by what is done with it. -/
theorem exec_ask_eq_ok {q : Query} {next : q.Answer → Program α ω ρ} (h : (ask q next).exec handle s w = .ok x) :
    ∃ a, q.answer s = .ok a ∧ (next a).exec handle s w = .ok x := by
  rw [exec] at h
  cases ha : q.answer s with
  | error f => rw [ha] at h; cases h
  | ok a => rw [ha] at h; exact ⟨a, rfl, h⟩

/-- A request changes the simulator before the rest is done. -/
theorem exec_call_eq_ok {c : Call α} {next : c.Answer → Program α ω ρ} (h : (call c next).exec handle s w = .ok x) :
    ∃ a s₁, c.perform s = .ok (a, s₁) ∧ (next a).exec handle s₁ w = .ok x := by
  rw [exec] at h
  cases ha : c.perform s with
  | error f => rw [ha] at h; cases h
  | ok a => rw [ha] at h; exact ⟨a.1, a.2, rfl, h⟩

theorem exec_drive_eq_ok {d : Drive} {next : d.Answer α → Program α ω ρ} (h : (drive d next).exec handle s w = .ok x) :
    ∃ a s₁ w₁, handle d s w = .ok (a, s₁, w₁) ∧ (next a).exec handle s₁ w₁ = .ok x := by
  rw [exec] at h
  cases ha : handle d s w with
  | error f => rw [ha] at h; cases h
  | ok a => rw [ha] at h; exact ⟨a.1, a.2.1, a.2.2, rfl, h⟩

end Nodes

/-- A single request leaves the model alone. -/
theorem exec_request_eq_ok {c : Call α} {a : c.Answer}
    (h : (request c : Program α ω c.Answer).exec handle s w = .ok (.ok a, s', w')) :
    c.perform s = .ok (a, s') ∧ w' = w := by
  obtain ⟨a', s₁, hc, hdone⟩ := exec_call_eq_ok h
  cases hdone
  exact ⟨hc, rfl⟩

theorem exec_ofFaulty_eq_ok {x : Except Fault ρ} {a : ρ}
    (h : (ofFaulty x : Program α ω ρ).exec handle s w = .ok (.ok a, s', w')) : x = .ok a ∧ s' = s ∧ w' = w := by
  cases x with
  | error e => cases h
  | ok b => cases h; exact ⟨rfl, rfl, rfl⟩

theorem exec_ofFaulty_eq_error {x : Except Fault ρ} {e : Fault}
    (h : (ofFaulty x : Program α ω ρ).exec handle s w = .error e) : x = .error e := by
  cases x with
  | error e' => cases h; rfl
  | ok b => cases h

/-- A draw changes nothing but the generator. -/
theorem exec_random_eq_ok {draw : Rng → Except Fault (ρ × Rng)} {a : ρ}
    (h : (random draw : Program α ω ρ).exec handle s w = .ok (.ok a, s', w')) :
    ∃ g, draw s.rng = .ok (a, g) ∧ s' = { s with rng := g } ∧ w' = w := by
  obtain ⟨g, s₁, w₁, hq, hrest⟩ := exec_bind_eq_ok h
  cases hq
  obtain ⟨⟨b, g'⟩, s₂, w₂, hd, hrest'⟩ := exec_bind_eq_ok hrest
  obtain ⟨hd', rfl, rfl⟩ := exec_ofFaulty_eq_ok hd
  cases hrest'
  exact ⟨g', hd', rfl, rfl⟩

/-- Only the draw itself can fail. -/
theorem exec_random_eq_error {draw : Rng → Except Fault (ρ × Rng)} {e : Fault}
    (h : (random draw : Program α ω ρ).exec handle s w = .error e) : draw s.rng = .error e := by
  rcases exec_bind_eq_error h with h | ⟨g, s₁, w₁, hq, hrest⟩
  · cases h
  cases hq
  rcases exec_bind_eq_error hrest with hd | ⟨x, s₂, w₂, -, hrest⟩
  · exact exec_ofFaulty_eq_error hd
  · cases hrest

/-- What requests keep, a program keeps. -/
theorem exec_keeps {I : Simulator α → Prop}
    (hcall : ∀ (s s' : Simulator α) (c : Call α) (a : c.Answer), c.perform s = .ok (a, s') → I s → I s')
    (hdrive : ∀ d s w x, handle d s w = .ok x → I s → I x.2.1) {p : Program α ω ρ} {x : Outcome α ω ρ}
    (h : p.exec handle s w = .ok x) (hs : I s) : I x.2.1 := by
  induction p generalizing s w with
  | done | fail => cases h; exact hs
  | fault => cases h
  | ask q next ih =>
    obtain ⟨a, -, hrest⟩ := exec_ask_eq_ok h
    exact ih a hrest hs
  | call c next ih =>
    obtain ⟨a, s₁, hc, hrest⟩ := exec_call_eq_ok h
    exact ih a hrest (hcall s s₁ c a hc hs)
  | drive d next ih =>
    obtain ⟨a, s₁, w₁, hd, hrest⟩ := exec_drive_eq_ok h
    exact ih a hrest (hdrive d s w _ hd hs)
  | look next ih => exact ih w h hs
  | change g next ih => exact ih h hs

end Program

/-! ## Scheduling -/

theorem Resolution.quantize_le (r : Resolution) {t : Time} (h : 0 ≤ t.femtos) : (r.quantize t).femtos ≤ t.femtos :=
  ((Time.bounds_of_tdiv_mul t.femtos (Int.ofNat_lt.2 r.unit.femtos_pos)).1 h).2

/-- Later times have later ticks, or the same. -/
theorem Resolution.quantize_mono (r : Resolution) {t t' : Time} (h : 0 ≤ t.femtos) (hle : t.femtos ≤ t'.femtos) :
    (r.quantize t).femtos ≤ (r.quantize t').femtos := by
  have hpos : (0 : Int) < r.unit.femtos := Int.ofNat_lt.2 r.unit.femtos_pos
  change t.femtos.tdiv _ * _ ≤ t'.femtos.tdiv _ * _
  rw [Int.tdiv_eq_ediv_of_nonneg h, Int.tdiv_eq_ediv_of_nonneg (Int.le_trans h hle)]
  exact Int.mul_le_mul_of_nonneg_right (Int.ediv_le_ediv hpos hle) (Int.le_of_lt hpos)

namespace Simulator

variable {α : Type} {s s' : Simulator α}

/-- A request to schedule is refused and changes nothing, or the event is added, as far ahead as the whole ticks of the
delay. -/
theorem schedule_eq_ok {delay : Time} {a : α} {answer : Except SimError EventId}
    (h : (Call.schedule delay a).perform s = .ok (answer, s')) :
    (∃ e, answer = .error e ∧ s' = s) ∨
    ∃ time : Time, 0 ≤ delay.femtos ∧ time.femtos = s.now.femtos + (s.config.resolution.quantize delay).femtos ∧
      answer = .ok (s.insert time s.context (.perform a)).1 ∧ s' = (s.insert time s.context (.perform a)).2 := by
  have h : Call.keep s (s.scheduleIn s.context delay (.perform a)) = (answer, s') := Except.ok.inj h
  unfold scheduleIn at h
  split at h
  case isTrue => cases h; exact .inl ⟨_, rfl, rfl⟩
  case isFalse hneg =>
    have hnonneg : 0 ≤ delay.femtos := Time.isNegative_eq_false_iff.1 (by simpa using hneg)
    dsimp only at h
    split at h
    case h_1 time ht => cases h; exact .inr ⟨time, hnonneg, Time.ofFemtos?_eq_some_iff.1 ht, rfl, rfl⟩
    case h_2 => cases h; exact .inl ⟨_, rfl, rfl⟩

/-- A delay that is not negative is not refused if a longer one was possible. -/
theorem schedule_of_le {delay : Time} {a : α} {time : Time} (h : 0 ≤ delay.femtos) (hnow : 0 ≤ s.now.femtos)
    (hle : s.now.femtos + (s.config.resolution.quantize delay).femtos ≤ time.femtos) (e : SimError) :
    (Call.schedule delay a).perform s ≠ .ok (.error e, s') := by
  intro hp
  have hp : Call.keep s (s.scheduleIn s.context delay (.perform a)) = (.error e, s') := Except.ok.inj hp
  have hq := s.config.resolution.quantize_nonneg h
  have hlt := time.lt_bound
  obtain ⟨t, ht⟩ : ∃ t, Time.ofFemtos? (s.now.femtos + (s.config.resolution.quantize delay).femtos) = some t :=
    ⟨_, dif_pos ⟨by omega, by omega⟩⟩
  unfold scheduleIn at hp
  rw [Time.isNegative_eq_false_iff.2 h] at hp
  simp only [Bool.false_eq_true, if_false, Time.checkedAdd, ht] at hp
  cases hp

end Simulator

end SimKernel
