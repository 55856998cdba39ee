import SimKernel.Agenda.Queue

/-!
# The event queue as a heap

- keys are compared by time and sequence number alone (`EventKey.precedes_iff`), and "not earlier" is transitive
  (`EventKey.not_precedes_trans`);
- moving a key up or down keeps the keys (`siftUp_perm`, `siftDown_perm`), and moves the one place at which they are
  not in heap order (`OrderedOff`) to its parent or to its earlier child, until there is none (`siftUp_ordered`,
  `siftDown_orderedOff`);
- so a queue in heap order stays so, keeps what was put into it, and gives its earliest key (`push_perm`, `Valid.push`,
  `pop?_eq_some`, `pop?_eq_none_iff`).
-/

namespace SimKernel

/-! ## The order of keys -/

namespace EventKey

/-- Of two keys for the same time the one with the smaller sequence number is the earlier one. -/
theorem precedes_iff {a b : EventKey} :
    a.precedes b ↔ a.time.femtos < b.time.femtos ∨ a.time.femtos = b.time.femtos ∧ a.sequence < b.sequence := by
  have h : a.time = b.time ↔ a.time.femtos = b.time.femtos := ⟨fun h => by rw [h], Time.ext⟩
  simp [precedes, Time.lt_def, h]

theorem precedes_irrefl (a : EventKey) : ¬ a.precedes a := by
  rw [precedes_iff]; omega

theorem precedes_asymm {a b : EventKey} (h : a.precedes b) : ¬ b.precedes a := by
  rw [precedes_iff] at *; omega

/-- Not being earlier is transitive. -/
theorem not_precedes_trans {a b c : EventKey} (h₁ : ¬ a.precedes b) (h₂ : ¬ b.precedes c) : ¬ a.precedes c := by
  rw [precedes_iff] at *; omega

end EventKey

namespace EventQueue

/-! ## Parents and children -/

/-- Position `c` is a child of position `p`. -/
def IsChild (c p : Nat) : Prop := 0 < c ∧ (c - 1) / 2 = p

/-- The children of a position are the two after twice the position. -/
theorem IsChild.cases {c p : Nat} (h : IsChild c p) : c = 2 * p + 1 ∨ c = 2 * p + 2 := by
  unfold IsChild at h; omega

theorem IsChild.lt {c p : Nat} (h : IsChild c p) : p < c := by
  unfold IsChild at h; omega

theorem IsChild.unique {c p q : Nat} (h : IsChild c p) (h' : IsChild c q) : p = q := h.2.symm.trans h'.2

theorem isChild_left (p : Nat) : IsChild (2 * p + 1) p := ⟨by omega, by omega⟩

theorem isChild_right (p : Nat) : IsChild (2 * p + 2) p := ⟨by omega, by omega⟩

theorem isChild_parent {c : Nat} (h : 0 < c) : IsChild c ((c - 1) / 2) := ⟨h, rfl⟩

/-- No key precedes that of its parent. -/
def Ordered (keys : Array EventKey) : Prop :=
  ∀ c p (hc : c < keys.size) (hp : p < keys.size), IsChild c p → ¬ keys[c].precedes keys[p]

/-- The pairs of child and parent that do not touch position `i` are in order, and so are the children of `i` with the
parent of `i`. -/
structure OrderedOff (keys : Array EventKey) (i : Nat) : Prop where
  off : ∀ c p (hc : c < keys.size) (hp : p < keys.size), IsChild c p → c ≠ i → p ≠ i → ¬ keys[c].precedes keys[p]
  across : ∀ c p (hc : c < keys.size) (hp : p < keys.size), IsChild c i → IsChild i p → ¬ keys[c].precedes keys[p]

/-- The children of position `i` are in order with it. -/
def OrderedBelow (keys : Array EventKey) (i : Nat) : Prop :=
  ∀ c (hc : c < keys.size) (hi : i < keys.size), IsChild c i → ¬ keys[c].precedes keys[i]

/-- The first key is the earliest: by induction along the parents of a position. -/
theorem Ordered.not_precedes_root {keys : Array EventKey} (ho : Ordered keys) {i : Nat} (h : i < keys.size) :
    ¬ keys[i].precedes (keys[0]) := by
  induction i using Nat.strongRecOn with
  | ind i ih =>
    rcases Nat.eq_zero_or_pos i with rfl | hi
    · exact EventKey.precedes_irrefl _
    · have hp := isChild_parent hi
      have hlt := hp.lt
      exact EventKey.not_precedes_trans (ho i _ h (by omega) hp) (ih _ hlt (by omega))

/-- Swapping a key with its later parent moves the place of disorder to the parent. -/
theorem OrderedOff.swap_up {keys : Array EventKey} {i p : Nat} (h : OrderedOff keys i) (hb : OrderedBelow keys i)
    (hi : i < keys.size) (hp : p < keys.size) (hip : IsChild i p) (hlt : keys[i].precedes keys[p]) :
    OrderedOff (keys.swap i p) p ∧ OrderedBelow (keys.swap i p) p := by
  have hne := hip.lt
  refine ⟨⟨?_, ?_⟩, ?_⟩
  · intro c q hc hq hcq hcp hqp
    have hc' : c < keys.size := by simpa using hc
    have hq' : q < keys.size := by simpa using hq
    by_cases hci : c = i
    · subst hci; exact absurd (hcq.unique hip) hqp
    · by_cases hqi : q = i
      · subst hqi
        have := h.across c p hc' hp hcq hip
        grind
      · have := h.off c q hc' hq' hcq hci hqi
        grind
  · intro c q hc hq hcp hpq
    have hc' : c < keys.size := by simpa using hc
    have hq' : q < keys.size := by simpa using hq
    have hqp := hpq.lt
    have h₁ := h.off p q hp hq' hpq (by omega) (by omega)
    by_cases hci : c = i
    · grind
    · have h₂ := h.off c p hc' hp hcp hci (by omega)
      have h₃ := EventKey.not_precedes_trans h₂ h₁
      have := hcp.lt
      grind
  · intro c hc _ hcp
    have hc' : c < keys.size := by simpa using hc
    by_cases hci : c = i
    · have := EventKey.precedes_asymm hlt
      grind
    · have h₁ := h.off c p hc' hp hcp hci (by omega)
      have h₂ := EventKey.not_precedes_trans h₁ (EventKey.precedes_asymm hlt)
      have := hcp.lt
      grind

/-- Swapping a key with its earlier child moves the place of disorder to the child. -/
theorem OrderedOff.swap_down {keys : Array EventKey} {i d : Nat} (h : OrderedOff keys i) (hi : i < keys.size)
    (hd : d < keys.size) (hdi : IsChild d i)
    (hle : ∀ c (hc : c < keys.size), IsChild c i → ¬ keys[c].precedes keys[d]) :
    OrderedOff (keys.swap i d) d := by
  have hne := hdi.lt
  constructor
  · intro c q hc hq hcq hcd hqd
    have hc' : c < keys.size := by simpa using hc
    have hq' : q < keys.size := by simpa using hq
    have hlt := hcq.lt
    by_cases hci : c = i
    · subst hci
      have := h.across d q hd hq' hdi hcq
      grind
    · by_cases hqi : q = i
      · subst hqi
        have := hle c hc' hcq
        grind
      · have := h.off c q hc' hq' hcq hci hqi
        grind
  · intro c q hc hq hcd hdq
    have hc' : c < keys.size := by simpa using hc
    have hq' : q < keys.size := by simpa using hq
    obtain rfl := hdq.unique hdi
    have := hcd.lt
    have := h.off c d hc' hd hcd (by omega) (by omega)
    grind

/-- By induction on the way up: the one place of disorder moves to its parent until there is none. -/
theorem siftUp_ordered {keys : Array EventKey} {i : Nat} (h : OrderedOff keys i) (hb : OrderedBelow keys i) :
    Ordered (siftUp keys i) := by
  fun_induction siftUp keys i with
  | case1 keys i hi hlt ih =>
    obtain ⟨h', hb'⟩ := h.swap_up hb hi.2 (by omega) (isChild_parent hi.1) hlt
    exact ih h' hb'
  | case2 keys i hi hlt =>
    intro c p hc hp hcp
    by_cases hci : c = i
    · subst hci; obtain rfl := hcp.2; exact hlt
    · by_cases hpi : p = i
      · subst hpi; exact hb c hc hp hcp
      · exact h.off c p hc hp hcp hci hpi
  | case3 keys i hi =>
    intro c p hc hp hcp
    have hlt := hcp.lt
    by_cases hpi : p = i
    · subst hpi; exact hb c hc hp hcp
    · exact h.off c p hc hp hcp (by omega) hpi

/-- By induction on the way down to a position without children. The moved key may still precede its parent there. -/
theorem siftDown_orderedOff {keys : Array EventKey} {i : Nat} (h : OrderedOff keys i) :
    OrderedOff (siftDown keys i).1 (siftDown keys i).2 ∧ OrderedBelow (siftDown keys i).1 (siftDown keys i).2 := by
  fun_induction siftDown keys i with
  | case1 keys i hi hlt ih =>
    apply ih
    apply h.swap_down (by omega) (by omega) (isChild_left i)
    intro c hc hci
    rcases hci.cases with rfl | rfl
    · exact EventKey.precedes_irrefl _
    · exact EventKey.precedes_asymm hlt
  | case2 keys i hi hlt ih =>
    apply ih
    apply h.swap_down (by omega) (by omega) (isChild_right i)
    intro c hc hci
    rcases hci.cases with rfl | rfl
    · exact hlt
    · exact EventKey.precedes_irrefl _
  | case3 keys i hi hi' =>
    refine ⟨h.swap_down (by omega) (by omega) (isChild_left i) ?_, ?_⟩
    · intro c hc hci
      rcases hci.cases with rfl | rfl
      · exact EventKey.precedes_irrefl _
      · omega
    · intro c hc _ hci
      simp only [Array.size_swap] at hc
      have := hci.cases
      omega
  | case4 keys i hi hi' =>
    refine ⟨h, ?_⟩
    intro c hc _ hci
    change c < keys.size at hc
    have := hci.cases
    omega

theorem siftUp_perm (keys : Array EventKey) (i : Nat) : (siftUp keys i).Perm keys := by
  fun_induction siftUp keys i with
  | case1 keys i h hlt ih => exact ih.trans (Array.swap_perm _ _)
  | case2 keys i h hlt => exact .refl _
  | case3 keys i h => exact .refl _

theorem siftDown_perm (keys : Array EventKey) (i : Nat) : (siftDown keys i).1.Perm keys := by
  fun_induction siftDown keys i with
  | case1 keys i h hlt ih => exact ih.trans (Array.swap_perm _ _)
  | case2 keys i h hlt ih => exact ih.trans (Array.swap_perm _ _)
  | case3 keys i h h' => exact Array.swap_perm _ _
  | case4 keys i h h' => exact .refl _

/-! ## The queue -/

/-- All keys, in no particular order. -/
def toList (q : EventQueue) : List EventKey := q.keys.toList

/-- The keys are in heap order. -/
def Valid (q : EventQueue) : Prop := Ordered q.keys

theorem valid_empty : empty.Valid := fun _ _ hc => absurd hc (Nat.not_lt_zero _)

theorem length_toList (q : EventQueue) : q.toList.length = q.size := rfl

/-- The keys are those from before and the new one. -/
theorem push_perm (q : EventQueue) (key : EventKey) : (q.push key).toList.Perm (key :: q.toList) := by
  refine (siftUp_perm _ _).toList.trans ?_
  rw [Array.toList_push]
  exact List.perm_append_singleton _ _

/-- Only the last place may be out of order after a key was put there, and no position is below it. -/
theorem Valid.push {q : EventQueue} (h : q.Valid) (key : EventKey) : (q.push key).Valid := by
  apply siftUp_ordered
  · constructor
    · intro c p hc hp hcp hci hpi
      rw [Array.size_push] at hc hp
      rw [Array.getElem_push_lt (by omega), Array.getElem_push_lt (by omega)]
      exact h c p _ _ hcp
    · intro c p hc hp hci hip
      have := hci.lt
      rw [Array.size_push] at hc
      omega
  · intro c hc _ hci
    have := hci.lt
    rw [Array.size_push] at hc
    omega

/-- Putting a key in place of the first one. -/
theorem perm_set_zero {keys : Array EventKey} (h : 0 < keys.size) (key : EventKey) :
    (keys.push key).toList.Perm (keys[0] :: (keys.set 0 key).toList) := by
  obtain ⟨ks⟩ := keys
  cases ks with
  | nil => cases h
  | cons k ks => simp

/-- The last key, put in place of the first, is the only one out of order. -/
theorem Ordered.orderedOff_set_zero {keys : Array EventKey} {last : EventKey} (ho : Ordered (keys.push last))
    (h : 0 < keys.size) (key : EventKey) : OrderedOff (keys.set 0 key) 0 := by
  constructor
  · intro c p hc hp hcp hc0 hp0
    rw [Array.size_set] at hc hp
    have := ho c p (by rw [Array.size_push]; omega) (by rw [Array.size_push]; omega) hcp
    grind
  · intro c p _ _ _ h0p
    exact absurd h0p.lt (Nat.not_lt_zero _)

/-- Only a queue without keys gives none. -/
theorem pop?_eq_none_iff {q : EventQueue} : q.pop? = none ↔ q.toList = [] := by
  simp only [pop?, toList]
  split
  · have : q.keys.toList ≠ [] := by intro h; simp_all
    split <;> simp [this]
  · simp_all

/-- Taking the top of a queue whose last key is `last`. -/
theorem pop?_push (keys : Array EventKey) (last : EventKey) :
    pop? ⟨keys.push last⟩ =
      if h : 0 < keys.size then
        some (keys[0], ⟨siftUp (siftDown (keys.set 0 last) 0).1 (siftDown (keys.set 0 last) 0).2⟩)
      else some (last, ⟨keys⟩) := by
  simp [pop?]

/-- What leaves the queue is the earliest key, and all others stay. -/
theorem pop?_eq_some {q rest : EventQueue} {key : EventKey} (hq : q.Valid) (h : q.pop? = some (key, rest)) :
    rest.Valid ∧ q.toList.Perm (key :: rest.toList) ∧ ∀ k ∈ q.toList, ¬ k.precedes key := by
  have hpos : 0 < q.keys.size := by
    rw [Nat.pos_iff_ne_zero]
    intro h0
    simp [pop?, h0] at h
  have hroot : ∀ k ∈ q.toList, ¬ k.precedes q.keys[0] := by
    intro k hk
    obtain ⟨i, hi, rfl⟩ := List.getElem_of_mem hk
    exact hq.not_precedes_root hi
  obtain ⟨keys⟩ := q
  obtain ⟨keys, last, rfl⟩ := Array.exists_push_of_size_pos hpos
  rw [pop?_push] at h
  split at h
  case isTrue h0 =>
    cases h
    obtain ⟨ho, hb⟩ := siftDown_orderedOff (hq.orderedOff_set_zero h0 last)
    refine ⟨siftUp_ordered ho hb, (perm_set_zero h0 last).trans (.cons _ ?_), ?_⟩
    · exact ((siftUp_perm _ _).trans (siftDown_perm _ _)).toList.symm
    · rwa [Array.getElem_push_lt h0] at hroot
  case isFalse h0 =>
    cases h
    obtain rfl : keys = #[] := by simpa using h0
    exact ⟨valid_empty, .refl _, hroot⟩

end EventQueue
end SimKernel
