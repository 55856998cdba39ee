/-!
# Outcomes

A computation with an answer is one whose parts have answers, and one that fails has a part that fails.
-/

namespace SimKernel.Outcome

universe u v w

/-- The second computation starts from the answer of the first one. -/
theorem bind_eq_ok_iff {ε : Type v} {α β : Type u} {x : Except ε α} {f : α → Except ε β} {b : β} :
    x >>= f = .ok b ↔ ∃ a, x = .ok a ∧ f a = .ok b := by
  cases x with
  | error e => exact ⟨(by rintro ⟨⟩), (by rintro ⟨_, ⟨⟩, _⟩)⟩
  | ok a => exact ⟨fun h => ⟨a, rfl, h⟩, (by rintro ⟨_, ⟨⟩, h⟩; exact h)⟩

theorem map_eq_ok_iff {ε : Type v} {α : Type u} {β : Type w} {x : Except ε α} {f : α → β} {b : β} :
    x.map f = .ok b ↔ ∃ a, x = .ok a ∧ f a = b := by
  cases x with
  | error e => exact ⟨(by rintro ⟨⟩), (by rintro ⟨_, ⟨⟩, _⟩)⟩
  | ok a => exact ⟨(by rintro ⟨⟩; exact ⟨a, rfl, rfl⟩), (by rintro ⟨_, ⟨⟩, rfl⟩; rfl)⟩

/-- A function of the answer changes no failure. -/
theorem map_eq_error_iff {ε : Type v} {α : Type u} {β : Type w} {x : Except ε α} {f : α → β} {e : ε} :
    x.map f = .error e ↔ x = .error e := by
  cases x with
  | error e' => exact ⟨(by rintro ⟨⟩; rfl), (by rintro ⟨⟩; rfl)⟩
  | ok a => exact ⟨(by rintro ⟨⟩), (by rintro ⟨⟩)⟩

theorem toOption_eq_some_iff {ε : Type v} {α : Type u} {x : Except ε α} {a : α} : x.toOption = some a ↔ x = .ok a := by
  cases x with
  | error e => exact ⟨(by rintro ⟨⟩), (by rintro ⟨⟩)⟩
  | ok b => exact ⟨(by rintro ⟨⟩; rfl), (by rintro ⟨⟩; rfl)⟩

end SimKernel.Outcome
