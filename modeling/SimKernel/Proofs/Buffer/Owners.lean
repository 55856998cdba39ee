import SimKernel.Proofs.Buffer.Sharing
import SimKernel.Proofs.Operations

/-!
# Owners of buffers

Things that have a buffer each, in a list in which those that are gone leave a gap. Each of them lives in the pool and no
two have the same buffer (`Pool.Holds`). So what sets the buffer of one is seen by that one only (`Holds.sets`,
`Holds.drops`), and what makes a buffer is seen by none (`Holds.makes`).
-/

namespace SimKernel

namespace Pool

open Operations

variable {β : Type} {key : β → Buffer} {p p' : Pool} {l : List (Option β)} {i : Nat} {x : β}

/-- The things in the list have live buffers of their own. -/
structure Holds (p : Pool) (key : β → Buffer) (l : List (Option β)) : Prop where
  valid : p.Valid
  live : ∀ {i : Nat} {x}, l[i]? = some (some x) → ∃ data, p.contents (key x) = some data
  distinct : ∀ {i j : Nat} {x y}, l[i]? = some (some x) → l[j]? = some (some y) → key x = key y → i = j

theorem holds_nil (hp : p.Valid) : p.Holds key [] where
  valid := hp
  live h := by simp at h
  distinct h := by simp at h

/-- Nothing else changes when the buffer of one thing is set. -/
theorem Holds.others (h : p.Holds key l) (hi : l[i]? = some (some x)) {data : Option Bytes}
    (hset : Sets p (key x) data p') :
    ∀ (j : Nat) y, j ≠ i → l[j]? = some (some y) → p'.contents (key y) = p.contents (key y) := by
  intro j y hne hj
  rw [hset.contents_eq, Function.update_of_ne]
  exact fun he => hne (h.distinct hj hi he)

/-- A thing that keeps its buffer may change otherwise, whatever the buffer holds now. -/
theorem Holds.sets (h : p.Holds key l) (hi : l[i]? = some (some x)) {x' : β} (hx : key x' = key x) {data : Bytes}
    (hset : Sets p (key x) (some data) p') : p'.Holds key (l.set i (some x')) where
  valid := hset.valid
  live hj := by
    rcases getElem?_set_cases hj with ⟨rfl, ⟨⟩⟩ | ⟨hne, hj⟩
    · exact ⟨data, hx ▸ hset.self⟩
    · rw [h.others hi hset _ _ hne hj]
      exact h.live hj
  distinct hj hk he := by
    rcases getElem?_set_cases hj with ⟨rfl, ⟨⟩⟩ | ⟨hne, hj'⟩
    · rcases getElem?_set_cases hk with ⟨rfl, -⟩ | ⟨hne, hk'⟩
      · rfl
      · exact absurd (h.distinct hk' hi (he.symm.trans hx)) hne
    · rcases getElem?_set_cases hk with ⟨rfl, ⟨⟩⟩ | ⟨-, hk'⟩
      · exact absurd (h.distinct hj' hi (he.trans hx)) hne
      · exact h.distinct hj' hk' he

/-- A thing whose buffer is dropped leaves a gap. -/
theorem Holds.drops (h : p.Holds key l) (hi : l[i]? = some (some x)) (hset : Sets p (key x) none p') :
    p'.Holds key (l.set i none) where
  valid := hset.valid
  live hj := by
    rcases getElem?_set_cases hj with ⟨-, ⟨⟩⟩ | ⟨hne, hj⟩
    rw [h.others hi hset _ _ hne hj]
    exact h.live hj
  distinct hj hk he := by
    rcases getElem?_set_cases hj with ⟨-, ⟨⟩⟩ | ⟨-, hj⟩
    rcases getElem?_set_cases hk with ⟨-, ⟨⟩⟩ | ⟨-, hk⟩
    exact h.distinct hj hk he

/-- A new buffer is nobody's, so all things see what they saw. -/
theorem Holds.others_of_makes (h : p.Holds key l) {made : Buffer × Pool} {data : Bytes} (hm : Makes p made data) :
    ∀ (j : Nat) y, l[j]? = some (some y) → key y ≠ made.1 ∧ made.2.contents (key y) = p.contents (key y) := by
  intro j y hj
  have hne : key y ≠ made.1 := by
    intro he
    obtain ⟨old, hy⟩ := h.live hj
    rw [he, hm.new] at hy
    cases hy
  exact ⟨hne, by rw [hm.contents_eq, Function.update_of_ne hne]⟩

/-- The thing that gets the new buffer comes last in the list. -/
theorem Holds.makes (h : p.Holds key l) {made : Buffer × Pool} {data : Bytes} (hm : Makes p made data)
    (hx : key x = made.1) : made.2.Holds key (l ++ [some x]) where
  valid := hm.valid
  live hj := by
    rcases getElem?_append_cases hj with ⟨-, rfl⟩ | hj
    · exact ⟨data, hx ▸ hm.self⟩
    · rw [(h.others_of_makes hm _ _ hj).2]
      exact h.live hj
  distinct hj hk he := by
    rcases getElem?_append_cases hj with ⟨rfl, rfl⟩ | hj'
    · rcases getElem?_append_cases hk with ⟨rfl, -⟩ | hk'
      · rfl
      · exact absurd (he.symm.trans hx) (h.others_of_makes hm _ _ hk').1
    · rcases getElem?_append_cases hk with ⟨rfl, rfl⟩ | hk'
      · exact absurd (he.trans hx) (h.others_of_makes hm _ _ hj').1
      · exact h.distinct hj' hk' he

end Pool

end SimKernel
