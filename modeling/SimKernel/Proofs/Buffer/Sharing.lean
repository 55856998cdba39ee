import Mathlib.Logic.Function.Basic
import Std.Data.TreeMap.Lemmas
import SimKernel.Buffer.Pool
import SimKernel.Proofs.Buffer.Storage

/-!
# Buffers do not see each other

The used range of every storage covers what any buffer looks at (`Pool.Valid`), so the room beside it belongs to nobody.
Each operation is described by what it does to the contents of the pool, a function from buffers to their bytes:
it makes a buffer (`Valid.ofBytes`, `Valid.clone`, `Valid.fragment`), or it sets the bytes of one (`Valid.removeAtStart`,
`Valid.removeAtEnd`, `Valid.drop`) and leaves all others alone.
-/

namespace SimKernel

/-- What a view looks at lies in the used range of the storage. -/
structure Storage.Covers (s : Storage) (v : View) : Prop where
  start_le : s.usedStart ≤ v.start
  le_stop : v.start ≤ v.stop
  stop_le : v.stop ≤ s.usedStop
  le_length : s.usedStop ≤ s.bytes.length

/-- What a view looks at is there. -/
theorem Storage.Covers.stop_le_length {s : Storage} {v : View} (h : s.Covers v) : v.stop ≤ s.bytes.length :=
  Nat.le_trans h.stop_le h.le_length

/-- A storage that was laid out for some bytes covers the view of just these. -/
theorem Storage.covers_layout (before : Nat) (data : Bytes) (after storage : Nat) :
    (layout before data after).Covers
      ⟨storage, (layout before data after).usedStart, (layout before data after).usedStop⟩ := by
  refine ⟨Nat.le_refl _, Nat.le_add_right _ _, Nat.le_refl _, ?_⟩
  simp [layout]

namespace Pool

/-- The bytes of every live buffer. -/
def contents (p : Pool) (b : Buffer) : Option Bytes :=
  (p.find? b).map fun (v, s) => s.slice v.start v.stop

/-- Every buffer looks into the used range of a storage, and further names are new. -/
structure Valid (p : Pool) : Prop where
  covered : ∀ {b v}, p.view? b = some v → ∃ s, p.storages[v.storage]? = some s ∧ s.Covers v
  lt_next : ∀ {b v}, p.view? b = some v → b.id < p.next ∧ v.storage < p.next

theorem valid_empty : empty.Valid where
  covered h := by simp [view?, empty] at h
  lt_next h := by simp [view?, empty] at h

/-! ## Contents -/

section Contents

variable {p p' : Pool} {b c : Buffer} {v w : View} {s : Storage} {old : Bytes}

/-- A live buffer has a view, and the storage that the view names is there. -/
theorem find?_eq_some_iff : p.find? b = some (v, s) ↔ p.view? b = some v ∧ p.storages[v.storage]? = some s := by
  simp only [find?, Option.bind_eq_bind, Option.bind_eq_some_iff, Option.pure_def, Option.some.injEq, Prod.mk.injEq]
  constructor
  · rintro ⟨v, hv, s, hs, rfl, rfl⟩
    exact ⟨hv, hs⟩
  · rintro ⟨hv, hs⟩
    exact ⟨v, hv, s, hs, rfl, rfl⟩

theorem contents_of_view? (hv : p.view? b = some v) (hs : p.storages[v.storage]? = some s) :
    p.contents b = some (s.slice v.start v.stop) := by
  rw [contents, find?_eq_some_iff.2 ⟨hv, hs⟩, Option.map_some]

theorem contents_of_view?_eq_none (hv : p.view? b = none) : p.contents b = none := by
  simp [contents, find?, hv]

/-- A live buffer, what it looks at, and its bytes. -/
theorem Valid.exists_view (h : p.Valid) (hb : p.contents b = some old) :
    ∃ v s, p.find? b = some (v, s) ∧ p.view? b = some v ∧ p.storages[v.storage]? = some s ∧ s.Covers v ∧
      old = s.slice v.start v.stop ∧ old.length = v.stop - v.start := by
  obtain ⟨⟨v, s⟩, hf, rfl⟩ := Option.map_eq_some_iff.1 hb
  obtain ⟨hv, hs⟩ := find?_eq_some_iff.1 hf
  obtain ⟨s', hs', hc⟩ := h.covered hv
  obtain rfl : s = s' := Option.some.inj (hs.symm.trans hs')
  exact ⟨v, s, hf, hv, hs, hc, rfl, Storage.length_slice (Nat.le_trans hc.stop_le hc.le_length)⟩

/-- In a well-formed pool a buffer with a view is live: its storage is there. -/
theorem Valid.contents_eq_none_iff (h : p.Valid) : p.contents b = none ↔ p.view? b = none := by
  refine ⟨?_, contents_of_view?_eq_none⟩
  intro hb
  cases hv : p.view? b with
  | none => rfl
  | some v =>
    obtain ⟨s, hs, -⟩ := h.covered hv
    rw [contents_of_view? hv hs] at hb
    cases hb

/-- A name that has not been given yet is the name of no buffer. -/
theorem Valid.contents_new (h : p.Valid) (hb : p.next ≤ b.id) : p.contents b = none := by
  refine h.contents_eq_none_iff.2 (Option.eq_none_iff_forall_ne_some.2 ?_)
  intro v hv
  exact Nat.not_lt.2 hb (h.lt_next hv).1

theorem bytes_eq (hb : p.contents b = some old) : p.bytes b = old := by
  obtain ⟨⟨v, s⟩, hf, rfl⟩ := Option.map_eq_some_iff.1 hb
  simp only [bytes, hf]

/-- The bytes that a buffer shows are told by the contents of its pool. -/
theorem bytes_congr (hb : p'.contents b = p.contents b) : p'.bytes b = p.bytes b := by
  have hbytes : ∀ q : Pool, q.bytes b = (q.contents b).getD [] := by
    intro q
    simp only [bytes, contents]
    cases q.find? b <;> rfl
  rw [hbytes, hbytes, hb]

theorem Valid.size_eq (h : p.Valid) (hb : p.contents b = some old) : p.size b = old.length := by
  obtain ⟨v, s, -, hv, -, -, -, hlen⟩ := h.exists_view hb
  simp only [size, hv, hlen]

/-- A buffer gets the view `v`; all others see, in a storage that still covers it, what they saw before. -/
theorem Valid.set (h : p.Valid) (p' : Pool) (hview : ∀ c, p'.view? c = if c = b then some v else p.view? c)
    (hs : p'.storages[v.storage]? = some s) (hc : s.Covers v) (hb : b.id < p'.next) (hv : v.storage < p'.next)
    (hnext : p.next ≤ p'.next)
    (others : ∀ c w t, c ≠ b → p.view? c = some w → p.storages[w.storage]? = some t → t.Covers w →
      ∃ t', p'.storages[w.storage]? = some t' ∧ t'.Covers w ∧ t'.slice w.start w.stop = t.slice w.start w.stop) :
    p'.Valid ∧ p'.contents = Function.update p.contents b (some (s.slice v.start v.stop)) := by
  refine ⟨⟨?_, ?_⟩, funext ?_⟩
  · intro c w hw
    rw [hview] at hw
    split at hw
    · cases hw; exact ⟨s, hs, hc⟩
    · obtain ⟨t, ht, hct⟩ := h.covered hw
      obtain ⟨t', ht', hct', -⟩ := others c w t ‹_› hw ht hct
      exact ⟨t', ht', hct'⟩
  · intro c w hw
    rw [hview] at hw
    split at hw
    · cases hw; subst c; exact ⟨hb, hv⟩
    · exact ⟨Nat.lt_of_lt_of_le (h.lt_next hw).1 hnext, Nat.lt_of_lt_of_le (h.lt_next hw).2 hnext⟩
  · intro c
    by_cases he : c = b
    · subst he
      rw [Function.update_self]
      exact contents_of_view? ((hview c).trans (if_pos rfl)) hs
    · rw [Function.update_of_ne he]
      cases hw : p.view? c with
      | none => rw [contents_of_view?_eq_none hw, contents_of_view?_eq_none (by rw [hview, if_neg he, hw])]
      | some w =>
        obtain ⟨t, ht, hct⟩ := h.covered hw
        obtain ⟨t', ht', -, hsl⟩ := others c w t he hw ht hct
        rw [contents_of_view? hw ht, contents_of_view? (by rw [hview, if_neg he, hw]) ht', hsl]

end Contents

/-! ## Changes of one buffer -/

/-- The pool `p'` is `p` but for the bytes of one buffer. -/
structure Sets (p : Pool) (b : Buffer) (data : Option Bytes) (p' : Pool) : Prop where
  valid : p'.Valid
  contents_eq : p'.contents = Function.update p.contents b data

/-- The pool `made.2` is `p` with the new buffer `made.1`. -/
structure Makes (p : Pool) (made : Buffer × Pool) (data : Bytes) : Prop extends Sets p made.1 (some data) made.2 where
  new : p.contents made.1 = none

theorem Sets.self {p p' : Pool} {b : Buffer} {data : Option Bytes} (h : Sets p b data p') : p'.contents b = data := by
  rw [h.contents_eq, Function.update_self]

/-- Two changes of one buffer are one change of it. -/
theorem Sets.trans {p p' p'' : Pool} {b : Buffer} {data data' : Option Bytes} (h : Sets p b data p')
    (h' : Sets p' b data' p'') : Sets p b data' p'' :=
  ⟨h'.valid, by rw [h'.contents_eq, h.contents_eq, Function.update_idem]⟩

theorem Valid.sets_self {p : Pool} (h : p.Valid) (b : Buffer) : Sets p b (p.contents b) p :=
  ⟨h, (Function.update_eq_self b p.contents).symm⟩

section Changes

variable {p p' : Pool} {b c : Buffer} {v v' w : View} {s t : Storage} {old : Bytes}

theorem getElem?_insert {β : Type} (m : Std.TreeMap Nat β) (k : Nat) (x : β) (i : Nat) :
    (m.insert k x)[i]? = if i = k then some x else m[i]? := by
  rw [Std.TreeMap.getElem?_insert]
  by_cases h : i = k
  · rw [if_pos h, if_pos (h ▸ Std.ReflCmp.compare_self)]
  · rw [if_neg h, if_neg fun he => h (Std.LawfulEqCmp.eq_of_compare he).symm]

theorem id_eq_iff : c.id = b.id ↔ c = b :=
  ⟨fun h => by cases b; cases c; cases h; rfl, fun h => congrArg Buffer.id h⟩

/-- The views after the one of `b` was set. -/
theorem view?_of_insert (hp : p'.views = p.views.insert b.id v) (c : Buffer) :
    p'.view? c = if c = b then some v else p.view? c := by
  unfold view?
  rw [hp, getElem?_insert]
  simp only [id_eq_iff]

/-- A buffer gets another view of its storage, which changes only where nobody else looks. -/
theorem Valid.change (h : p.Valid) (hv : p.view? b = some v) (hs : p.storages[v.storage]? = some s)
    (hsame : v'.storage = v.storage) (hc : t.Covers v')
    (others : ∀ c w, c ≠ b → p.view? c = some w → w.storage = v.storage → s.Covers w →
      t.Covers w ∧ t.slice w.start w.stop = s.slice w.start w.stop)
    (hview : ∀ c, p'.view? c = if c = b then some v' else p.view? c)
    (hst : ∀ i, p'.storages[i]? = if i = v.storage then some t else p.storages[i]?) (hnext : p'.next = p.next) :
    Sets p b (some (t.slice v'.start v'.stop)) p' := by
  have hlt := h.lt_next hv
  have hset := h.set _ hview (by rw [hst, if_pos hsame]) hc (hnext ▸ hlt.1) (hsame ▸ hnext ▸ hlt.2)
    (Nat.le_of_eq hnext.symm) fun c w u hne hw hu hcov => by
      rw [hst]
      by_cases he : w.storage = v.storage
      · rw [he, hs] at hu
        cases hu
        obtain ⟨hc', hsl⟩ := others c w hne hw he hcov
        exact ⟨t, if_pos he, hc', hsl⟩
      · exact ⟨u, by rw [if_neg he, hu], hcov, rfl⟩
  exact ⟨hset.1, hset.2⟩

/-! ## New buffers -/

/-- A new buffer gets a storage of its own under a new name, at which no other buffer looks. -/
theorem Valid.ofBytes (h : p.Valid) (data : Bytes) : Makes p (p.ofBytes data) data := by
  have hview : ∀ c, (p.ofBytes data).2.view? c = _ := view?_of_insert (p := p) (b := (p.ofBytes data).1) rfl
  have hset := h.set _ hview (s := Storage.layout startRoom data stopRoom) (by simp [Pool.ofBytes, ofStorage])
    (Storage.covers_layout _ _ _ _) (Nat.lt_succ_self _) (Nat.lt_add_of_pos_right (by decide)) (Nat.le_add_right _ _)
    fun c w u hne hw hu hcov => by
      refine ⟨u, ?_, hcov, rfl⟩
      have := (h.lt_next hw).2
      simp only [Pool.ofBytes, ofStorage, getElem?_insert]
      rw [if_neg (by omega), hu]
  rw [Storage.slice_layout] at hset
  exact ⟨⟨hset.1, hset.2⟩, h.contents_new (Nat.le_succ _)⟩

/-- Zeros can be had if a byte string can be so long. -/
theorem ofSize_eq_ok_iff {n : Nat} {made : Buffer × Pool} :
    p.ofSize n = .ok made ↔ n < UInt64.size / 2 ∧ made = p.ofBytes (Bytes.zeros n) := by
  unfold Pool.ofSize
  cases hl : Bytes.checkLength n with
  | error f =>
    refine ⟨(by cases ·), ?_⟩
    intro h
    rw [Bytes.checkLength_eq_ok_iff.2 h.1] at hl
    cases hl
  | ok =>
    refine ⟨fun h => ⟨Bytes.checkLength_eq_ok_iff.1 hl, (Except.ok.inj h).symm⟩, ?_⟩
    rintro ⟨-, rfl⟩
    rfl

/-- A new buffer that looks at a part of a storage that another one looks at. -/
theorem Valid.ofView (h : p.Valid) (hv : p.view? b = some v) (hs : p.storages[v.storage]? = some s)
    (hsame : w.storage = v.storage) (hc : s.Covers w) : Makes p (p.ofView w) (s.slice w.start w.stop) := by
  have hview : ∀ c, (p.ofView w).2.view? c = _ := view?_of_insert (p := p) (b := (p.ofView w).1) rfl
  have hlt := (h.lt_next hv).2
  have hset := h.set _ hview (s := s) (by rw [hsame]; exact hs) hc (Nat.lt_succ_self _)
    (Nat.lt_succ_of_lt (hsame ▸ hlt)) (Nat.le_succ _) fun c w u hne hw hu hcov => ⟨u, hu, hcov, rfl⟩
  exact ⟨⟨hset.1, hset.2⟩, h.contents_new (Nat.le_refl _)⟩

/-- A copy looks at what the original looks at. -/
theorem Valid.clone (h : p.Valid) (hb : p.contents b = some old) : Makes p (p.clone b) old := by
  obtain ⟨v, s, -, hv, hs, hc, rfl, -⟩ := h.exists_view hb
  simp only [Pool.clone, hv]
  exact h.ofView hv hs rfl hc

theorem Valid.checkRange (h : p.Valid) (hb : p.contents b = some old) (offset length : Nat) :
    p.checkRange b offset length =
      if offset + length ≤ old.length then .ok () else .error (.outOfBounds offset length old.length) := by
  rw [Pool.checkRange, h.size_eq hb]

/-- A fragment looks at a part of what the buffer looks at, and shows that part of its bytes. -/
theorem Valid.fragment (h : p.Valid) (hb : p.contents b = some old) {offset length : Nat}
    (hle : offset + length ≤ old.length) :
    ∃ made, p.fragment b offset length = .ok made ∧ Makes p made ((old.drop offset).take length) := by
  obtain ⟨v, s, -, hv, hs, hc, rfl, hlen⟩ := h.exists_view hb
  refine ⟨p.ofView { v with start := v.start + offset, stop := v.start + offset + length }, ?_, ?_⟩
  · simp only [Pool.fragment, h.checkRange hb, if_pos hle, hv]
    rfl
  · have hsl := s.slice_slice v.start v.stop offset (offset + length)
      (by have := hc.le_stop; omega)
    rw [Nat.add_sub_cancel_left, ← Nat.add_assoc] at hsl
    rw [← hsl]
    have := hc.start_le
    have := hc.le_stop
    have := hc.stop_le
    exact h.ofView hv hs rfl ⟨by dsimp only; omega, by dsimp only; omega, by dsimp only; omega, hc.le_length⟩

/-- A range that goes beyond the bytes is refused. -/
theorem Valid.fragment_of_lt (h : p.Valid) (hb : p.contents b = some old) {offset length : Nat}
    (hlt : ¬ offset + length ≤ old.length) :
    p.fragment b offset length = .error (.outOfBounds offset length old.length) := by
  simp only [Pool.fragment, h.checkRange hb, if_neg hlt]
  rfl

/-! ## Shrinking -/

theorem view?_modify (f : View → View) (hv : p.view? b = some v) (c : Buffer) :
    ({ p with views := p.views.modify b.id f } : Pool).view? c = if c = b then some (f v) else p.view? c := by
  unfold view? at hv ⊢
  rw [Std.TreeMap.getElem?_modify, hv]
  by_cases h : c = b
  · rw [if_pos h, if_pos (h ▸ Std.ReflCmp.compare_self), Option.map_some]
  · rw [if_neg h, if_neg fun he => h (id_eq_iff.1 (Std.LawfulEqCmp.eq_of_compare he).symm)]

/-- A buffer that looks at a part of what it looked at. -/
theorem Valid.shrink (h : p.Valid) (hv : p.view? b = some v) (hs : p.storages[v.storage]? = some s) (f : View → View)
    (hsame : (f v).storage = v.storage) (hc : s.Covers (f v)) :
    Sets p b (some (s.slice (f v).start (f v).stop)) { p with views := p.views.modify b.id f } := by
  have hlt := h.lt_next hv
  have hset := h.set { p with views := p.views.modify b.id f } (view?_modify f hv) (by rw [hsame]; exact hs) hc
    hlt.1 (hsame ▸ hlt.2) (Nat.le_refl _) fun c w u hne hw hu hcov => ⟨u, hu, hcov, rfl⟩
  exact ⟨hset.1, hset.2⟩

/-- The view of the buffer starts later; the bytes before it stay in the storage. -/
theorem Valid.removeAtStart (h : p.Valid) (hb : p.contents b = some old) {n : Nat} (hle : n ≤ old.length) :
    ∃ p', p.removeAtStart b n = .ok p' ∧ Sets p b (some (old.drop n)) p' := by
  refine ⟨_, by rw [Pool.removeAtStart, h.size_eq hb, if_pos hle], ?_⟩
  obtain ⟨v, s, -, hv, hs, hc, rfl, hlen⟩ := h.exists_view hb
  have hss := hc.le_stop
  have hsl := s.slice_slice v.start v.stop n (v.stop - v.start) (by omega)
  have hall : ((s.slice v.start v.stop).drop n).length ≤ v.stop - v.start - n := by rw [List.length_drop]; omega
  rw [List.take_of_length_le hall, show v.start + (v.stop - v.start) = v.stop by omega] at hsl
  rw [← hsl]
  exact h.shrink hv hs (fun v => { v with start := v.start + n }) rfl
    ⟨Nat.le_add_right_of_le hc.start_le, by dsimp only; omega, hc.stop_le, hc.le_length⟩

/-- The view of the buffer stops earlier; the bytes behind it stay in the storage. -/
theorem Valid.removeAtEnd (h : p.Valid) (hb : p.contents b = some old) {n : Nat} (hle : n ≤ old.length) :
    ∃ p', p.removeAtEnd b n = .ok p' ∧ Sets p b (some (old.take (old.length - n))) p' := by
  refine ⟨_, by rw [Pool.removeAtEnd, h.size_eq hb, if_pos hle], ?_⟩
  obtain ⟨v, s, -, hv, hs, hc, rfl, hlen⟩ := h.exists_view hb
  have hss := hc.le_stop
  have hsl := s.slice_slice v.start v.stop 0 (v.stop - v.start - n) (by omega)
  rw [List.drop_zero, Nat.sub_zero, ← hlen, Nat.add_zero, show v.start + (_ - n) = v.stop - n by rw [hlen]; omega] at hsl
  rw [← hsl]
  exact h.shrink hv hs (fun v => { v with stop := v.stop - n }) rfl
    ⟨hc.start_le, by dsimp only; omega, Nat.le_trans (Nat.sub_le _ _) hc.stop_le, hc.le_length⟩

theorem Valid.removeAtStart_of_lt (h : p.Valid) (hb : p.contents b = some old) {n : Nat} (hlt : ¬ n ≤ old.length) :
    p.removeAtStart b n = .error (.underflow n old.length) := by
  rw [Pool.removeAtStart, h.size_eq hb, if_neg hlt]

theorem Valid.removeAtEnd_of_lt (h : p.Valid) (hb : p.contents b = some old) {n : Nat} (hlt : ¬ n ≤ old.length) :
    p.removeAtEnd b n = .error (.underflow n old.length) := by
  rw [Pool.removeAtEnd, h.size_eq hb, if_neg hlt]

end Changes

/-! ## Dropping -/

section Dropping

variable {p : Pool} {b c : Buffer} {v w : View} {old : Bytes}

/-- To forget a storage takes no view away. -/
theorem view?_collect (p : Pool) (storage : Nat) (c : Buffer) : (p.collect storage).view? c = p.view? c := by
  unfold collect
  split <;> rfl

theorem next_collect (p : Pool) (storage : Nat) : (p.collect storage).next = p.next := by
  unfold collect
  split <;> rfl

theorem mem_views_iff : (c.id, w) ∈ p.views.toList ↔ p.view? c = some w :=
  Std.TreeMap.mem_toList_iff_getElem?_eq_some

/-- A storage that a buffer looks at is not forgotten. -/
theorem storages_collect (hw : p.view? c = some w) (storage : Nat) :
    (p.collect storage).storages[w.storage]? = p.storages[w.storage]? := by
  unfold collect
  split
  case isTrue => rfl
  case isFalse hn =>
    have hne : w.storage ≠ storage := fun he =>
      hn (List.any_eq_true.2 ⟨(c.id, w), mem_views_iff.2 hw, by simpa using he⟩)
    simp only [Std.TreeMap.getElem?_erase]
    rw [if_neg fun he => hne (Std.LawfulEqCmp.eq_of_compare he).symm]

/-- The buffer is gone. Its storage is forgotten only if nobody else looks at it, so all others see what they saw. -/
theorem Valid.drop (h : p.Valid) (hb : p.contents b = some old) : Sets p b none (p.drop b) := by
  obtain ⟨v, s, -, hv, -, -, -, -⟩ := h.exists_view hb
  have hview : ∀ c, (p.drop b).view? c = if c = b then none else p.view? c := by
    intro c
    simp only [Pool.drop, hv, view?_collect]
    unfold view?
    rw [Std.TreeMap.getElem?_erase]
    by_cases hc : c = b
    · rw [if_pos hc, if_pos (hc ▸ Std.ReflCmp.compare_self)]
    · rw [if_neg hc, if_neg fun he => hc (id_eq_iff.1 (Std.LawfulEqCmp.eq_of_compare he).symm)]
  have hnext : (p.drop b).next = p.next := by simp only [Pool.drop, hv, next_collect]
  have hst : ∀ c w, c ≠ b → p.view? c = some w → (p.drop b).storages[w.storage]? = p.storages[w.storage]? := by
    intro c w hc hw
    -- a storage at which another buffer looks is not forgotten
    have hw' : (p.drop b).view? c = some w := by rw [hview, if_neg hc, hw]
    simp only [Pool.drop, hv, view?_collect] at hw' ⊢
    rw [storages_collect hw']
  refine ⟨⟨?_, ?_⟩, funext ?_⟩
  · intro c w hw
    rw [hview] at hw
    split at hw
    · cases hw
    · rw [hst c w ‹_› hw]
      exact h.covered hw
  · intro c w hw
    rw [hview] at hw
    split at hw
    · cases hw
    · rw [hnext]
      exact h.lt_next hw
  · intro c
    by_cases hc : c = b
    · rw [hc, Function.update_self, contents_of_view?_eq_none ((hview b).trans (if_pos rfl))]
    · rw [Function.update_of_ne hc]
      cases hw : p.view? c with
      | none => rw [contents_of_view?_eq_none hw, contents_of_view?_eq_none (by rw [hview, if_neg hc, hw])]
      | some w =>
        obtain ⟨s, hs, -⟩ := h.covered hw
        rw [contents_of_view? hw hs, contents_of_view? (by rw [hview, if_neg hc, hw]) (by rw [hst c w hc hw, hs])]

end Dropping

end Pool

end SimKernel
