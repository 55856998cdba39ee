import SimKernel.Fault
import SimKernel.Proofs.Outcome

/-!
# Operations and their models

Operations on a state may end with a fault; on the model of the state they always have an answer. `Keeps` says that an
operation does on the state what it does on the model, provided that it answers, and that it does answer if the model has
room for it. If single operations keep to the model, so do whole lists of them (`keeps_exec`).

States and models are often lists in which entries that are gone leave a gap (`onEntry`, `keeps_onEntry`).
-/

namespace SimKernel.Operations

universe u

variable {γ ο : Type u} {δ ν : Type} {good : δ → Prop} {values : δ → ν}

/-- The operations one after the other, with all answers. -/
def exec (apply : δ → ο → Except Fault (γ × δ)) (d : δ) : List ο → Except Fault (List γ × δ)
  | [] => .ok ([], d)
  | op :: ops =>
    match apply d op with
    | .ok (answer, d) => (exec apply d ops).map fun x => (answer :: x.1, x.2)
    | .error f => .error f

theorem exec_cons_eq_ok_iff {apply : δ → ο → Except Fault (γ × δ)} {d d' : δ} {op : ο} {ops : List ο} {answers : List γ} :
    exec apply d (op :: ops) = .ok (answers, d') ↔
      ∃ answer d₁ rest, apply d op = .ok (answer, d₁) ∧ exec apply d₁ ops = .ok (rest, d') ∧ answers = answer :: rest := by
  rw [exec]
  constructor
  · intro h
    rcases hx : apply d op with f | ⟨answer, d₁⟩
    · rw [hx] at h
      cases h
    · simp only [hx] at h
      obtain ⟨⟨rest, d₂⟩, hrest, he⟩ := Outcome.map_eq_ok_iff.1 h
      cases he
      exact ⟨answer, d₁, rest, rfl, hrest, rfl⟩
  · rintro ⟨answer, d₁, rest, hx, hrest, rfl⟩
    simp only [hx, hrest]
    rfl

/-- The operations on the model, with all answers. -/
def model (apply : ν → ο → γ × ν) (v : ν) : List ο → List γ × ν
  | [] => ([], v)
  | op :: ops => ((apply v op).1 :: (model apply (apply v op).2 ops).1, (model apply (apply v op).2 ops).2)

/-- The model has room for each of the operations in its turn. -/
def AllFit (apply : ν → ο → γ × ν) (fits : ν → ο → Prop) (v : ν) : List ο → Prop
  | [] => True
  | op :: ops => fits v op ∧ AllFit apply fits (apply v op).2 ops

/-- The outcome is that of the model if there is one, and there is one if it fits. -/
structure Keeps (good : δ → Prop) (values : δ → ν) (x : Except Fault (γ × δ)) (y : γ × ν) (fits : Prop) : Prop where
  same : ∀ answer d, x = .ok (answer, d) → good d ∧ y = (answer, values d)
  total : fits → ∃ z, x = .ok z

theorem keeps_ok {d : δ} {v : ν} {fits : Prop} (answer : γ) (hd : good d ∧ values d = v) :
    Keeps good values (.ok (answer, d)) (answer, v) fits where
  same answer' d' he := by
    cases he
    exact ⟨hd.1, by rw [hd.2]⟩
  total _ := ⟨_, rfl⟩

theorem keeps_map {σ : Type} {x : Except Fault σ} {f : σ → γ × δ} {y : γ × ν} {fits : Prop}
    (total : fits → ∃ z, x = .ok z) (h : ∀ z, x = .ok z → Keeps good values (.ok (f z)) y fits) :
    Keeps good values (x.map f) y fits where
  same answer d he := by
    cases x with
    | error e => cases he
    | ok z => exact (h z rfl).same answer d he
  total hf := by
    obtain ⟨z, rfl⟩ := total hf
    exact ⟨_, rfl⟩

/-- By induction on the operations, with the good states as the invariant. -/
theorem keeps_exec {apply : δ → ο → Except Fault (γ × δ)} {applyModel : ν → ο → γ × ν} {fits : ν → ο → Prop}
    (step : ∀ d op, good d → Keeps good values (apply d op) (applyModel (values d) op) (fits (values d) op))
    {d : δ} (hd : good d) (ops : List ο) :
    Keeps good values (exec apply d ops) (model applyModel (values d) ops) (AllFit applyModel fits (values d) ops) := by
  induction ops generalizing d with
  | nil => exact keeps_ok [] ⟨hd, rfl⟩
  | cons op ops ih =>
    have hop := step d op hd
    unfold exec model AllFit
    cases hx : apply d op with
    | error f =>
      refine ⟨fun answers d' he => (by cases he), fun hf => ?_⟩
      obtain ⟨z, hz⟩ := hop.total hf.1
      rw [hx] at hz
      cases hz
    | ok x =>
      obtain ⟨answer, d₁⟩ := x
      obtain ⟨hd₁, hy⟩ := hop.same answer d₁ hx
      obtain ⟨hsame, htotal⟩ := ih hd₁
      rw [hy]
      constructor
      · intro answers d' he
        cases hrest : exec apply d₁ ops with
        | error f => simp only [hrest] at he; cases he
        | ok z =>
          obtain ⟨hz, hm⟩ := hsame z.1 z.2 hrest
          simp only [hrest] at he
          cases he
          exact ⟨hz, by rw [hm]⟩
      · intro hf
        obtain ⟨z, hz⟩ := htotal hf.2
        exact ⟨(answer :: z.1, z.2), by simp only [hz]; rfl⟩

/-! ## Lists with gaps -/

section Gaps

variable {β κ : Type} {l : List (Option β)} {f : β → κ} {i : Nat}

/-- What `f` makes of the entry in a place of the list, and `gone` if there is none. -/
def onEntry {κ : Type u} (l : List (Option β)) (i : Nat) (gone : κ) (f : β → κ) : κ :=
  match l[i]?.join with
  | some x => f x
  | none => gone

theorem set_eq_self {x : Option β} (h : l[i]? = some x) : l.set i x = l := by
  obtain ⟨hi, rfl⟩ := List.getElem?_eq_some_iff.1 h
  exact List.set_getElem_self hi

/-- What is found in a list in which one place changed. -/
theorem getElem?_set_cases {o : Option β} {j : Nat} {y : β} (h : (l.set i o)[j]? = some (some y)) :
    j = i ∧ o = some y ∨ j ≠ i ∧ l[j]? = some (some y) := by
  by_cases hj : j = i
  · subst hj
    rw [List.getElem?_set_self'] at h
    obtain ⟨_, -, ho⟩ := Option.map_eq_some_iff.1 h
    exact .inl ⟨rfl, ho⟩
  · rw [List.getElem?_set_ne (Ne.symm hj)] at h
    exact .inr ⟨hj, h⟩

/-- What is found in a list with one more entry. -/
theorem getElem?_append_cases {x y : β} {j : Nat} (h : (l ++ [some x])[j]? = some (some y)) :
    j = l.length ∧ y = x ∨ l[j]? = some (some y) := by
  by_cases hj : j < l.length
  · rw [List.getElem?_append_left hj] at h
    exact .inr h
  · rw [List.getElem?_append_right (Nat.not_lt.1 hj), List.getElem?_singleton] at h
    split at h
    · cases h
      exact .inl ⟨by omega, rfl⟩
    · cases h

/-- Looking at a list in which one place changed. -/
theorem map_set_of_agree (f f' : β → κ) (x : Option β) (h : ∀ (j : Nat) y, j ≠ i → l[j]? = some (some y) → f' y = f y) :
    (l.set i x).map (Option.map f') = (l.map (Option.map f)).set i (x.map f') := by
  apply List.ext_getElem?
  intro j
  rw [List.map_set]
  by_cases hj : j = i
  · subst hj
    rw [List.getElem?_set_self', List.getElem?_set_self', List.getElem?_map, List.getElem?_map]
    cases l[j]? <;> rfl
  · rw [List.getElem?_set_ne (Ne.symm hj), List.getElem?_set_ne (Ne.symm hj), List.getElem?_map, List.getElem?_map]
    rcases hy : l[j]? with _ | (_ | y)
    · rfl
    · rfl
    · simp [h j y hj hy]

theorem map_append_of_agree (f f' : β → κ) (x : β) (h : ∀ (j : Nat) y, l[j]? = some (some y) → f' y = f y) :
    (l ++ [some x]).map (Option.map f') = l.map (Option.map f) ++ [some (f' x)] := by
  rw [List.map_append]
  congr 1
  refine List.map_congr_left ?_
  intro y hy
  obtain ⟨j, hj⟩ := List.mem_iff_getElem?.1 hy
  cases y with
  | none => rfl
  | some y => exact congrArg some (h j y hj)

/-- An operation on an entry and its image in the model, which may both be gone. -/
theorem keeps_onEntry {d : δ} {vs : List (Option κ)} {i : Nat} {answer : γ} {v : ν} {fits : Prop}
    {g : β → Except Fault (γ × δ)} {h : κ → γ × ν} (hd : good d ∧ values d = v) (hvs : vs = l.map (Option.map f))
    (hon : ∀ x, l[i]? = some (some x) → vs[i]?.join = some (f x) → Keeps good values (g x) (h (f x)) fits) :
    Keeps good values (onEntry l i (.ok (answer, d)) g) (onEntry vs i (answer, v) h) fits := by
  have hentry : vs[i]?.join = (l[i]?.join).map f := by
    rw [hvs, List.getElem?_map]
    rcases l[i]? with _ | (_ | x) <;> rfl
  unfold onEntry
  cases hx : l[i]?.join with
  | none =>
    rw [hentry, hx]
    exact keeps_ok _ hd
  | some x =>
    have hv : vs[i]?.join = some (f x) := by rw [hentry, hx, Option.map_some]
    rw [hv]
    exact hon x (Option.join_eq_some_iff.1 hx) hv

end Gaps

end SimKernel.Operations
