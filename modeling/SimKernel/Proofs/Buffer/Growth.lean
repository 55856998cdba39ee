import SimKernel.Proofs.Buffer.Sharing

/-!
# Growing and writing

A buffer grows into room that nobody looks at or moves to a storage of its own, so the new bytes are its own
(`Pool.Owns`), and it is written to only where the bytes are its own. So each of these operations is seen through the
buffer only that it is an operation on: `Valid.addAtStart`, `Valid.addAtEnd`, `Valid.prependWith`, `Valid.appendWith`,
`Valid.write`, `Valid.update`, `Valid.append`. They have an answer unless no byte string can be as long as the storage
that they need (`Valid.addAtStart_ok`, `Valid.addAtEnd_ok`).
-/

namespace SimKernel.Pool

/-! ## Bytes that nobody else looks at -/

section Growing

variable {p p' : Pool} {b c : Buffer} {v v' w : View} {s t : Storage} {old : Bytes}

/-- No other buffer looks at the bytes of the buffer from `first` up to `last`. -/
def Owns (p : Pool) (b : Buffer) (first last : Nat) : Prop :=
  ∀ v c w, p.view? b = some v → c ≠ b → p.view? c = some w → w.storage = v.storage →
    ∀ i, w.start ≤ i → i < w.stop → i < v.start + first ∨ v.start + last ≤ i

/-- No other buffer looks at the storage. -/
def Alone (p : Pool) (b : Buffer) : Prop :=
  ∀ v c w, p.view? b = some v → c ≠ b → p.view? c = some w → w.storage ≠ v.storage

theorem Alone.owns (h : p.Alone b) (first last : Nat) : p.Owns b first last :=
  fun v c w hv hc hw he => absurd he (h v c w hv hc hw)

theorem alone_of_not_isShared (hs : ¬ p.isShared b) : p.Alone b := by
  intro v c w hv hc hw he
  refine hs ?_
  simp only [isShared, hv]
  exact List.any_eq_true.2 ⟨(c.id, w), mem_views_iff.2 hw, by simp [he, mt id_eq_iff.1 hc]⟩

/-- A buffer gets a storage of its own. -/
theorem Valid.relocate (h : p.Valid) (hv : p.view? b = some v) (before : Nat) (data : Bytes) (after : Nat) :
    Sets p b (some data) (p.relocate b (Storage.layout before data after)) ∧
      (p.relocate b (Storage.layout before data after)).Alone b := by
  let s := Storage.layout before data after
  let q : Pool := ⟨p.storages.insert p.next s, p.views.insert b.id ⟨p.next, s.usedStart, s.usedStop⟩, p.next + 1⟩
  have hq : p.relocate b s = q.collect v.storage := by simp only [Pool.relocate, hv]; rfl
  have hview : ∀ c, q.view? c = if c = b then some ⟨p.next, s.usedStart, s.usedStop⟩ else p.view? c := view?_of_insert rfl
  change Sets p b (some data) (p.relocate b s) ∧ (p.relocate b s).Alone b
  rw [hq]
  have hb : q.view? b = some ⟨p.next, s.usedStart, s.usedStop⟩ := (hview b).trans (if_pos rfl)
  have hset := h.set (q.collect v.storage) (b := b) (v := ⟨p.next, s.usedStart, s.usedStop⟩) (s := s)
    (fun c => by rw [view?_collect, hview]) (by
      have := storages_collect hb v.storage
      dsimp only at this
      rw [this, getElem?_insert, if_pos rfl])
    (Storage.covers_layout _ _ _ _)
    (by rw [next_collect]; exact Nat.lt_succ_of_lt (h.lt_next hv).1) (by rw [next_collect]; exact Nat.lt_succ_self _)
    (by rw [next_collect]; exact Nat.le_succ _) fun c w u hne hw hu hcov => by
      refine ⟨u, ?_, hcov, rfl⟩
      have hlt := (h.lt_next hw).2
      rw [storages_collect (c := c) (by rw [hview, if_neg hne, hw]), getElem?_insert, if_neg (by omega), hu]
  rw [Storage.slice_layout] at hset
  refine ⟨⟨hset.1, hset.2⟩, ?_⟩
  intro v' c w hv' hc hw he
  rw [view?_collect] at hv' hw
  rw [hb] at hv'
  cases hv'
  rw [hview, if_neg hc] at hw
  exact absurd he (Nat.ne_of_lt (h.lt_next hw).2)

/-- The used range that is taken back is the one of the buffer if nobody else looks at the storage. -/
theorem reclaimed_covers (hv : p.view? b = some v) (hc : s.Covers v) :
    (p.reclaimed b v s).Covers v ∧
      ∀ c w, c ≠ b → p.view? c = some w → w.storage = v.storage → s.Covers w → (p.reclaimed b v s).Covers w := by
  unfold reclaimed
  split
  case isTrue => exact ⟨hc, fun _ _ _ _ _ hcov => hcov⟩
  case isFalse hs =>
    refine ⟨⟨Nat.le_refl _, hc.le_stop, Nat.le_refl _, Nat.le_trans hc.stop_le hc.le_length⟩, ?_⟩
    intro c w hne hw he
    exact absurd he (alone_of_not_isShared hs v c w hv hne hw)

theorem slice_reclaimed (p : Pool) (b : Buffer) (v : View) (s : Storage) (start stop : Nat) :
    (p.reclaimed b v s).slice start stop = s.slice start stop := by
  unfold reclaimed
  split <;> rfl

/-! ## Growing -/

/-- A buffer grows in its storage, into bytes beside its used range. -/
theorem Valid.grow (h : p.Valid) (hv : p.view? b = some v) (hs : p.storages[v.storage]? = some s) (hc : s.Covers v)
    (t : Storage) (v' : View) (hsame : v'.storage = v.storage) (ht : t.Covers v') (first last : Nat)
    (others : ∀ w, (p.reclaimed b v s).Covers w →
      t.Covers w ∧ t.slice w.start w.stop = (p.reclaimed b v s).slice w.start w.stop ∧
        ∀ i, w.start ≤ i → i < w.stop → i < v'.start + first ∨ v'.start + last ≤ i) :
    let p' := { p with storages := p.storages.insert v.storage t, views := p.views.insert b.id v' }
    Sets p b (some (t.slice v'.start v'.stop)) p' ∧ p'.Owns b first last := by
  intro p'
  have hview : ∀ c, p'.view? c = if c = b then some v' else p.view? c := view?_of_insert rfl
  have hrec := (reclaimed_covers hv hc).2
  constructor
  · refine h.change hv hs hsame ht (fun c w hne hw he hcov => ?_) hview (getElem?_insert p.storages v.storage t) rfl
    obtain ⟨hcw, hsl, -⟩ := others w (hrec c w hne hw he hcov)
    exact ⟨hcw, hsl.trans (slice_reclaimed p b v s _ _)⟩
  · intro u c w hu hne hw he
    rw [hview, if_pos rfl] at hu
    cases hu
    rw [hview, if_neg hne] at hw
    obtain ⟨s', hs', hcov⟩ := h.covered hw
    rw [he, hsame, hs] at hs'
    cases hs'
    exact (others w (hrec c w hne hw (he.trans hsame) hcov)).2.2

/-- The new bytes are zeros whatever the room held before, and nobody else looks at them. -/
theorem Valid.addAtStart (h : p.Valid) (hb : p.contents b = some old) {n : Nat} (hp : p.addAtStart b n = .ok p') :
    Sets p b (some (Bytes.zeros n ++ old)) p' ∧ p'.Owns b 0 n := by
  obtain ⟨v, s, hf, hv, hs, hc, rfl, -⟩ := h.exists_view hb
  simp only [Pool.addAtStart, hf] at hp
  by_cases hn : n = 0
  · subst hn
    cases hp
    exact ⟨hb ▸ h.sets_self b, fun _ _ _ _ _ _ _ i _ _ => by omega⟩
  rw [if_neg hn] at hp
  obtain ⟨hcr, -⟩ := reclaimed_covers hv hc
  have hgrow := h.grow hv hs hc { (p.reclaimed b v s).write (v.start - n) (Bytes.zeros n) with usedStart := v.start - n }
    { v with start := v.start - n } rfl
  rw [← slice_reclaimed p b v s]
  generalize p.reclaimed b v s = r at hp hcr hgrow ⊢
  split at hp
  case isTrue hin =>
    -- in place: whoever else looks at the storage looks at nothing before its used range
    obtain ⟨hroom, hedge⟩ := hin
    cases hp
    have hss := hcr.le_stop
    have hle := Nat.le_trans hcr.stop_le hcr.le_length
    have hfit : v.start - n + (Bytes.zeros n).length ≤ r.bytes.length := by rw [Bytes.length_zeros]; omega
    have hlen := Storage.length_write hfit
    have hslice := Storage.slice_write_before (s := r) (Bytes.zeros n) (by rwa [Bytes.length_zeros]) hss hle
    rw [Bytes.length_zeros] at hslice
    rw [← hslice]
    refine hgrow ⟨Nat.le_refl _, Nat.le_trans (Nat.sub_le _ _) hss, hcr.stop_le, hlen.symm ▸ hcr.le_length⟩ 0 n ?_
    intro w hw
    have hstart := hw.start_le
    refine ⟨⟨by dsimp only; omega, hw.le_stop, hw.stop_le, hlen.symm ▸ hw.le_length⟩, ?_, ?_⟩
    · exact Storage.slice_write_of_apart hfit fun i hi _ => by rw [Bytes.length_zeros]; omega
    · intro i hi _
      dsimp only
      omega
  case isFalse =>
    cases hl : Bytes.checkLength (max startRoom ((r.slice v.start v.stop).length / 2) + n +
        (r.slice v.start v.stop).length + stopRoom) with
    | error f => rw [hl] at hp; cases hp
    | ok =>
      rw [hl] at hp
      cases hp
      obtain ⟨hset, halone⟩ := h.relocate hv (max startRoom ((r.slice v.start v.stop).length / 2))
        (Bytes.zeros n ++ r.slice v.start v.stop) stopRoom
      exact ⟨hset, halone.owns 0 n⟩

/-- At the end too, the new bytes are zeros and nobody else looks at them. -/
theorem Valid.addAtEnd (h : p.Valid) (hb : p.contents b = some old) {n : Nat} (hp : p.addAtEnd b n = .ok p') :
    Sets p b (some (old ++ Bytes.zeros n)) p' ∧ p'.Owns b old.length (old.length + n) := by
  obtain ⟨v, s, hf, hv, hs, hc, rfl, hsize⟩ := h.exists_view hb
  simp only [Pool.addAtEnd, hf] at hp
  by_cases hn : n = 0
  · subst hn
    cases hp
    refine ⟨?_, fun _ _ _ _ _ _ _ i _ _ => by omega⟩
    rw [show Bytes.zeros 0 = [] from rfl, List.append_nil]
    exact hb ▸ h.sets_self b
  rw [if_neg hn] at hp
  obtain ⟨hcr, -⟩ := reclaimed_covers hv hc
  have hgrow := h.grow hv hs hc { (p.reclaimed b v s).write v.stop (Bytes.zeros n) with usedStop := v.stop + n }
    { v with stop := v.stop + n } rfl
  rw [← slice_reclaimed p b v s] at hsize ⊢
  generalize p.reclaimed b v s = r at hp hcr hgrow hsize ⊢
  split at hp
  case isTrue hin =>
    -- in place: whoever else looks at the storage looks at nothing behind its used range
    obtain ⟨hroom, hedge⟩ := hin
    cases hp
    have hss := hcr.le_stop
    have hle := Nat.le_trans hcr.stop_le hcr.le_length
    have hfit : v.stop + (Bytes.zeros n).length ≤ r.bytes.length := by rw [Bytes.length_zeros]; omega
    have hlen := Storage.length_write hfit
    have hslice := Storage.slice_write_after (s := r) (Bytes.zeros n) hss hfit
    rw [Bytes.length_zeros] at hslice
    rw [← hslice]
    have hfit' : v.stop + n ≤ r.bytes.length := by omega
    refine hgrow ⟨hcr.start_le, Nat.le_add_right_of_le hss, Nat.le_refl _, hlen.symm ▸ hfit'⟩ _ _ ?_
    intro w hw
    have hstop := hw.stop_le
    refine ⟨⟨hw.start_le, hw.le_stop, by dsimp only; omega, hlen.symm ▸ hfit'⟩, ?_, ?_⟩
    · exact Storage.slice_write_of_apart hfit fun i _ hi => by omega
    · intro i _ hi
      dsimp only
      omega
  case isFalse =>
    cases hl : Bytes.checkLength (startRoom + (r.slice v.start v.stop).length + n +
        max stopRoom ((r.slice v.start v.stop).length / 2)) with
    | error f => rw [hl] at hp; cases hp
    | ok =>
      rw [hl] at hp
      cases hp
      obtain ⟨hset, halone⟩ := h.relocate hv startRoom (r.slice v.start v.stop ++ Bytes.zeros n)
        (max stopRoom ((r.slice v.start v.stop).length / 2))
      exact ⟨hset, halone.owns _ _⟩

/-- The most bytes that a storage takes for a buffer that grows by `n`. -/
def needed (length n : Nat) : Nat := startRoom + stopRoom + length + length / 2 + n

/-- A buffer can grow unless no byte string can be as long as its storage would be. -/
theorem Valid.addAtStart_ok (h : p.Valid) (hb : p.contents b = some old) {n : Nat}
    (hroom : needed old.length n < UInt64.size / 2) : ∃ p', p.addAtStart b n = .ok p' := by
  obtain ⟨v, s, hf, hv, hs, hc, rfl, -⟩ := h.exists_view hb
  simp only [Pool.addAtStart, hf, slice_reclaimed]
  by_cases hn : n = 0
  · exact ⟨p, if_pos hn⟩
  rw [if_neg hn]
  split
  case isTrue => exact ⟨_, rfl⟩
  case isFalse =>
    unfold needed at hroom
    rw [Bytes.checkLength_eq_ok_iff.2 (by omega)]
    exact ⟨_, rfl⟩

theorem Valid.addAtEnd_ok (h : p.Valid) (hb : p.contents b = some old) {n : Nat}
    (hroom : needed old.length n < UInt64.size / 2) : ∃ p', p.addAtEnd b n = .ok p' := by
  obtain ⟨v, s, hf, hv, hs, hc, rfl, -⟩ := h.exists_view hb
  simp only [Pool.addAtEnd, hf, slice_reclaimed]
  by_cases hn : n = 0
  · exact ⟨p, if_pos hn⟩
  rw [if_neg hn]
  split
  case isTrue => exact ⟨_, rfl⟩
  case isFalse =>
    unfold needed at hroom
    rw [Bytes.checkLength_eq_ok_iff.2 (by omega)]
    exact ⟨_, rfl⟩

end Growing

/-! ## Writing -/

section Writing

variable {p p' : Pool} {b c : Buffer} {old : Bytes} {ρ : Type}

/-- Bytes that only one buffer looks at can be overwritten. -/
theorem Valid.overwrite (h : p.Valid) (hb : p.contents b = some old) {offset : Nat} {data : Bytes}
    (hle : offset + data.length ≤ old.length) (ho : p.Owns b offset (offset + data.length)) :
    Sets p b (some (old.overlay offset data)) (p.overwrite b offset data) := by
  obtain ⟨v, s, hf, hv, hs, hc, rfl, hsize⟩ := h.exists_view hb
  have hss := hc.le_stop
  have hstop := Nat.le_trans hc.stop_le hc.le_length
  have hfit : v.start + offset + data.length ≤ s.bytes.length := by omega
  have hlen := Storage.length_write hfit
  have hview : ∀ c, (p.overwrite b offset data).view? c = if c = b then some v else p.view? c := by
    intro c
    simp only [Pool.overwrite, hf]
    split
    · subst c; exact hv
    · rfl
  simp only [Pool.overwrite, hf] at hview ⊢
  rw [← Storage.slice_write_within hstop (by omega)]
  refine h.change (s := s) (t := s.write (v.start + offset) data) hv hs rfl
    ⟨hc.start_le, hss, hc.stop_le, hlen.symm ▸ hc.le_length⟩ (fun c w hne hw he hcov => ?_) hview
    (getElem?_insert p.storages v.storage _) rfl
  refine ⟨⟨hcov.start_le, hcov.le_stop, hcov.stop_le, hlen.symm ▸ hcov.le_length⟩, ?_⟩
  refine Storage.slice_write_of_apart hfit ?_
  intro i hi hi'
  have := ho v c w hv hne hw he i hi hi'
  omega

/-- A buffer that does not share its storage, with the same bytes as before. -/
theorem Valid.detach (h : p.Valid) (hb : p.contents b = some old) :
    Sets p b (some old) (p.detach b) ∧ (p.detach b).Alone b := by
  obtain ⟨v, s, hf, hv, hs, hc, rfl, -⟩ := h.exists_view hb
  simp only [Pool.detach, hf]
  split
  case isTrue => exact h.relocate hv _ _ _
  case isFalse hn => exact ⟨hb ▸ h.sets_self b, alone_of_not_isShared hn⟩

theorem Valid.write (h : p.Valid) (hb : p.contents b = some old) {offset : Nat} {data : Bytes}
    (hle : offset + data.length ≤ old.length) :
    ∃ p', p.write b offset data = .ok p' ∧ Sets p b (some (old.overlay offset data)) p' := by
  obtain ⟨hset, halone⟩ := h.detach hb
  refine ⟨(p.detach b).overwrite b offset data, ?_, hset.trans (hset.valid.overwrite hset.self hle (halone.owns _ _))⟩
  simp only [Pool.write, h.checkRange hb, if_pos hle]
  rfl

theorem Valid.write_of_lt (h : p.Valid) (hb : p.contents b = some old) {offset : Nat} {data : Bytes}
    (hlt : ¬ offset + data.length ≤ old.length) :
    p.write b offset data = .error (.outOfBounds offset data.length old.length) := by
  simp only [Pool.write, h.checkRange hb, if_neg hlt]
  rfl

theorem Valid.update (h : p.Valid) (hb : p.contents b = some old) (change : Bytes → Bytes)
    (hlen : (change old).length = old.length) : Sets p b (some (change old)) (p.update b change) := by
  obtain ⟨hset, halone⟩ := h.detach hb
  simp only [Pool.update, bytes_eq hset.self, ← hlen, List.take_length]
  have hfit : 0 + (change old).length ≤ old.length := by omega
  have hover := hset.valid.overwrite hset.self hfit (halone.owns _ _)
  have hall := Bytes.overlay_append_left [] hlen
  rw [List.append_nil, List.append_nil] at hall
  rw [hall] at hover
  exact hset.trans hover

/-! ## Filling new bytes -/

/-- `fill` gets zeros, and what it makes of them stands before the other bytes. -/
theorem Valid.prependWith (h : p.Valid) (hb : p.contents b = some old) {n : Nat} {fill : Bytes → ρ × Bytes} {answer : ρ}
    (hlen : (fill (Bytes.zeros n)).2.length = n) (hp : p.prependWith b n fill = .ok (answer, p')) :
    answer = (fill (Bytes.zeros n)).1 ∧ Sets p b (some ((fill (Bytes.zeros n)).2 ++ old)) p' := by
  unfold Pool.prependWith at hp
  cases hq : p.addAtStart b n with
  | error f => rw [hq] at hp; cases hp
  | ok q =>
    obtain ⟨hset, ho⟩ := h.addAtStart hb hq
    have hwindow : (q.bytes b).take n = Bytes.zeros n := by
      rw [bytes_eq hset.self, List.take_left' (Bytes.length_zeros n)]
    have htake : (fill (Bytes.zeros n)).2.take n = (fill (Bytes.zeros n)).2 := List.take_of_length_le (Nat.le_of_eq hlen)
    simp only [hq, bind, Except.bind, pure, Except.pure, hwindow, htake] at hp
    cases hp
    refine ⟨rfl, ?_⟩
    rw [← Bytes.overlay_append_left old (hlen.trans (Bytes.length_zeros n).symm)]
    refine hset.trans (hset.valid.overwrite hset.self ?_ (by rw [Nat.zero_add, hlen]; exact ho))
    rw [List.length_append, Bytes.length_zeros]
    omega

theorem Valid.appendWith (h : p.Valid) (hb : p.contents b = some old) {n : Nat} {fill : Bytes → ρ × Bytes} {answer : ρ}
    (hlen : (fill (Bytes.zeros n)).2.length = n) (hp : p.appendWith b n fill = .ok (answer, p')) :
    answer = (fill (Bytes.zeros n)).1 ∧ Sets p b (some (old ++ (fill (Bytes.zeros n)).2)) p' := by
  unfold Pool.appendWith at hp
  cases hq : p.addAtEnd b n with
  | error f => rw [hq] at hp; cases hp
  | ok q =>
    obtain ⟨hset, ho⟩ := h.addAtEnd hb hq
    have hwindow : (q.bytes b).drop old.length = Bytes.zeros n := by
      rw [bytes_eq hset.self, List.drop_left' rfl]
    have htake : (fill (Bytes.zeros n)).2.take n = (fill (Bytes.zeros n)).2 := List.take_of_length_le (Nat.le_of_eq hlen)
    simp only [hq, h.size_eq hb, bind, Except.bind, pure, Except.pure, hwindow, htake] at hp
    cases hp
    refine ⟨rfl, ?_⟩
    rw [← Bytes.overlay_append_right old (hlen.trans (Bytes.length_zeros n).symm)]
    refine hset.trans (hset.valid.overwrite hset.self ?_ (by rw [hlen]; exact ho))
    rw [List.length_append, Bytes.length_zeros]
    omega

theorem Valid.prependWith_ok (h : p.Valid) (hb : p.contents b = some old) {n : Nat} (fill : Bytes → ρ × Bytes)
    (hroom : needed old.length n < UInt64.size / 2) : ∃ x, p.prependWith b n fill = .ok x := by
  obtain ⟨q, hq⟩ := h.addAtStart_ok hb hroom
  exact ⟨_, by simp only [Pool.prependWith, hq]; rfl⟩

theorem Valid.appendWith_ok (h : p.Valid) (hb : p.contents b = some old) {n : Nat} (fill : Bytes → ρ × Bytes)
    (hroom : needed old.length n < UInt64.size / 2) : ∃ x, p.appendWith b n fill = .ok x := by
  obtain ⟨q, hq⟩ := h.addAtEnd_ok hb hroom
  exact ⟨_, by simp only [Pool.appendWith, hq]; rfl⟩

/-- The bytes that are added are read before the buffer grows, so it may be the same buffer or one of its fragments. -/
theorem Valid.append (h : p.Valid) (hb : p.contents b = some old) {data : Bytes} (hc : p.contents c = some data)
    (hp : p.append b c = .ok p') : Sets p b (some (old ++ data)) p' := by
  simp only [Pool.append, bytes_eq hc] at hp
  split at hp
  case isTrue he =>
    cases hp
    rw [List.isEmpty_iff.1 he, List.append_nil]
    exact hb ▸ h.sets_self b
  case isFalse =>
    cases hq : p.appendWith b data.length fun _ => ((), data) with
    | error f => rw [hq] at hp; cases hp
    | ok x =>
      rw [hq] at hp
      cases hp
      exact (h.appendWith hb rfl hq).2

theorem Valid.append_ok (h : p.Valid) (hb : p.contents b = some old) {data : Bytes} (hc : p.contents c = some data)
    (hroom : needed old.length data.length < UInt64.size / 2) : ∃ p', p.append b c = .ok p' := by
  simp only [Pool.append, bytes_eq hc]
  split
  case isTrue => exact ⟨p, rfl⟩
  case isFalse =>
    obtain ⟨x, hx⟩ := h.appendWith_ok hb (fun _ => ((), data)) hroom
    exact ⟨x.2, by rw [hx]; rfl⟩

end Writing

end SimKernel.Pool
