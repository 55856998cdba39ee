import SimKernel.Packet.Basic
import SimKernel.Proofs.Buffer.Growth

/-!
# Headers and trailers

What is written fills its window (`Codec.length_fill`) and what is read lies inside the bytes (`Codec.readStart_le`,
`Codec.readEnd_le`). A header or trailer is added to the bytes of a packet as it was written, and if it cannot be written
the bytes are what they were (`Packet.addHeader_of_fill_ok`, `Packet.addHeader_of_fill_error`).
-/

namespace SimKernel

/-- A written value fills the window. -/
theorem Codec.length_fill {β : Type} {c : Codec β} {value : β} {window data : Bytes} (h : c.fill value window = .ok data) :
    data.length = window.length := by
  unfold Codec.fill at h
  cases hw : c.encode value (Writer.ofWindow window) with
  | error e => rw [hw] at h; cases h
  | ok w =>
    cases hc : c.checkSize window.length w.written with
    | error e => simp only [hw, hc, bind, Except.bind] at h; cases h
    | ok =>
      simp only [hw, hc, bind, Except.bind, pure, Except.pure] at h
      cases h
      exact w.length_window

/-- What a format reads lies inside the bytes. -/
theorem Codec.readStart_le {β : Type} {c : Codec β} {value : β} {bytes : Bytes} {n : Nat}
    (h : c.readStart bytes = .ok (value, n)) : n ≤ bytes.length := by
  unfold Codec.readStart at h
  cases hr : c.decode (Reader.atStart bytes) with
  | error e => rw [hr] at h; cases h
  | ok x =>
    obtain ⟨value', r⟩ := x
    cases hc : c.checkSize (c.size value') r.consumedFromStart with
    | error e => simp only [hr, hc, bind, Except.bind] at h; cases h
    | ok =>
      simp only [hr, hc, bind, Except.bind, pure, Except.pure] at h
      cases h
      exact r.high_le

/-- What a format reads from the end lies inside the bytes too. -/
theorem Codec.readEnd_le {β : Type} {c : Codec β} {value : β} {bytes : Bytes} {n : Nat}
    (h : c.readEnd bytes = .ok (value, n)) : n ≤ bytes.length := by
  unfold Codec.readEnd at h
  cases hr : c.decode (Reader.atEnd bytes) with
  | error e => rw [hr] at h; cases h
  | ok x =>
    obtain ⟨value', r⟩ := x
    cases hc : c.checkSize (c.size value') r.consumedFromEnd with
    | error e => simp only [hr, hc, bind, Except.bind] at h; cases h
    | ok =>
      simp only [hr, hc, bind, Except.bind, pure, Except.pure] at h
      cases h
      exact Nat.sub_le _ _

namespace Packet

variable {τ β : Type}

variable {p : Packet τ} {s : PacketStore} {c : Codec β} {value : β} {data new : Bytes} {e : PacketError}

/-- A window keeps its length, whether or not the value can be written. -/
theorem length_filled (c : Codec β) (value : β) (window : Bytes) : (filled c value window).2.length = window.length := by
  unfold filled
  cases h : c.fill value window with
  | ok data => exact Codec.length_fill h
  | error e => rfl

/-- A header that can be written comes before the bytes, and the tags move along with these. -/
theorem addHeader_of_fill_ok (hp : s.pool.Valid) (hb : s.pool.contents p.buffer = some data)
    (hf : c.fill value (Bytes.zeros (c.size value)) = .ok new) {x} (hx : p.addHeader s c value = .ok x) :
    ∃ pool, x = (.ok { p with byteTags := p.byteTags.shift (c.size value) }, { s with pool }) ∧
      s.pool.Sets p.buffer (some (new ++ data)) pool := by
  unfold addHeader at hx
  cases hq : s.pool.prependWith p.buffer (c.size value) (filled c value) with
  | error f => simp only [hq, bind, Except.bind] at hx; cases hx
  | ok y =>
    obtain ⟨outcome, pool⟩ := y
    obtain ⟨ho, hset⟩ := hp.prependWith hb ((length_filled c value _).trans (Bytes.length_zeros _)) hq
    have hfilled : filled c value (Bytes.zeros (c.size value)) = (.ok (), new) := by simp only [filled, hf]
    rw [hfilled] at ho hset
    subst ho
    simp only [hq, bind, Except.bind, pure, Except.pure] at hx
    cases hx
    exact ⟨pool, rfl, hset⟩

/-- A header that cannot be written leaves nothing behind. -/
theorem addHeader_of_fill_error (hp : s.pool.Valid) (hb : s.pool.contents p.buffer = some data)
    (hf : c.fill value (Bytes.zeros (c.size value)) = .error e) {x} (hx : p.addHeader s c value = .ok x) :
    ∃ pool, x = (.error e, { s with pool }) ∧ s.pool.Sets p.buffer (some data) pool := by
  unfold addHeader at hx
  cases hq : s.pool.prependWith p.buffer (c.size value) (filled c value) with
  | error f => simp only [hq, bind, Except.bind] at hx; cases hx
  | ok y =>
    obtain ⟨outcome, pool⟩ := y
    obtain ⟨ho, hset⟩ := hp.prependWith hb ((length_filled c value _).trans (Bytes.length_zeros _)) hq
    have hfilled : filled c value (Bytes.zeros (c.size value)) = (.error e, Bytes.zeros (c.size value)) := by
      simp only [filled, hf]
    rw [hfilled] at ho hset
    subst ho
    obtain ⟨pool', hr, hset'⟩ := hset.valid.removeAtStart hset.self (n := c.size value)
      (by rw [List.length_append, Bytes.length_zeros]; exact Nat.le_add_right _ _)
    rw [List.drop_left' (Bytes.length_zeros _)] at hset'
    simp only [hq, hr, bind, Except.bind, pure, Except.pure] at hx
    cases hx
    exact ⟨pool', rfl, hset.trans hset'⟩

/-- There is an answer if a byte string can be as long as the storage that is needed. -/
theorem addHeader_ok (hp : s.pool.Valid) (hb : s.pool.contents p.buffer = some data) (c : Codec β) (value : β)
    (hroom : Pool.needed data.length (c.size value) < UInt64.size / 2) : ∃ x, p.addHeader s c value = .ok x := by
  obtain ⟨⟨outcome, pool⟩, hq⟩ := hp.prependWith_ok hb (filled c value) hroom
  simp only [addHeader, hq, bind, Except.bind]
  rcases outcome with e | _
  · cases pool.removeAtStart p.buffer (c.size value) <;> exact ⟨_, rfl⟩
  · exact ⟨_, rfl⟩

/-- A trailer that can be written comes after the bytes, and all tags stay where they are. -/
theorem addTrailer_of_fill_ok (hp : s.pool.Valid) (hb : s.pool.contents p.buffer = some data)
    (hf : c.fill value (Bytes.zeros (c.size value)) = .ok new) {x} (hx : p.addTrailer s c value = .ok x) :
    ∃ pool, x = (.ok (), { s with pool }) ∧ s.pool.Sets p.buffer (some (data ++ new)) pool := by
  unfold addTrailer at hx
  cases hq : s.pool.appendWith p.buffer (c.size value) (filled c value) with
  | error f => simp only [hq, bind, Except.bind] at hx; cases hx
  | ok y =>
    obtain ⟨outcome, pool⟩ := y
    obtain ⟨ho, hset⟩ := hp.appendWith hb ((length_filled c value _).trans (Bytes.length_zeros _)) hq
    have hfilled : filled c value (Bytes.zeros (c.size value)) = (.ok (), new) := by simp only [filled, hf]
    rw [hfilled] at ho hset
    subst ho
    simp only [hq, bind, Except.bind, pure, Except.pure] at hx
    cases hx
    exact ⟨pool, rfl, hset⟩

/-- A trailer that cannot be written leaves nothing behind. -/
theorem addTrailer_of_fill_error (hp : s.pool.Valid) (hb : s.pool.contents p.buffer = some data)
    (hf : c.fill value (Bytes.zeros (c.size value)) = .error e) {x} (hx : p.addTrailer s c value = .ok x) :
    ∃ pool, x = (.error e, { s with pool }) ∧ s.pool.Sets p.buffer (some data) pool := by
  unfold addTrailer at hx
  cases hq : s.pool.appendWith p.buffer (c.size value) (filled c value) with
  | error f => simp only [hq, bind, Except.bind] at hx; cases hx
  | ok y =>
    obtain ⟨outcome, pool⟩ := y
    obtain ⟨ho, hset⟩ := hp.appendWith hb ((length_filled c value _).trans (Bytes.length_zeros _)) hq
    have hfilled : filled c value (Bytes.zeros (c.size value)) = (.error e, Bytes.zeros (c.size value)) := by
      simp only [filled, hf]
    rw [hfilled] at ho hset
    subst ho
    obtain ⟨pool', hr, hset'⟩ := hset.valid.removeAtEnd hset.self (n := c.size value)
      (by rw [List.length_append, Bytes.length_zeros]; exact Nat.le_add_left _ _)
    rw [List.length_append, Bytes.length_zeros, Nat.add_sub_cancel, List.take_left' rfl] at hset'
    simp only [hq, hr, bind, Except.bind, pure, Except.pure] at hx
    cases hx
    exact ⟨pool', rfl, hset.trans hset'⟩

theorem addTrailer_ok (hp : s.pool.Valid) (hb : s.pool.contents p.buffer = some data) (c : Codec β) (value : β)
    (hroom : Pool.needed data.length (c.size value) < UInt64.size / 2) : ∃ x, p.addTrailer s c value = .ok x := by
  obtain ⟨⟨outcome, pool⟩, hq⟩ := hp.appendWith_ok hb (filled c value) hroom
  simp only [addTrailer, hq, bind, Except.bind]
  rcases outcome with e | _
  · cases pool.removeAtEnd p.buffer (c.size value) <;> exact ⟨_, rfl⟩
  · exact ⟨_, rfl⟩

/-! ## Taking bytes off -/

/-- Tags are clipped to the bytes that are left, and counted from the first of these. -/
theorem removeAtStart_eq (hp : s.pool.Valid) (hb : s.pool.contents p.buffer = some data) {n : Nat}
    (hle : n ≤ data.length) :
    ∃ pool, p.removeAtStart s n = .ok ({ p with byteTags := p.byteTags.clip n (n + (data.length - n)) }, { s with pool }) ∧
      s.pool.Sets p.buffer (some (data.drop n)) pool := by
  obtain ⟨pool, hpool, hset⟩ := hp.removeAtStart hb hle
  have hsize : pool.size p.buffer = data.length - n := by rw [hset.valid.size_eq hset.self, List.length_drop]
  refine ⟨pool, ?_, hset⟩
  rw [removeAtStart, hpool, ← hsize]
  rfl

theorem removeAtEnd_eq (hp : s.pool.Valid) (hb : s.pool.contents p.buffer = some data) {n : Nat}
    (hle : n ≤ data.length) :
    ∃ pool, p.removeAtEnd s n = .ok ({ p with byteTags := p.byteTags.clip 0 (data.length - n) }, { s with pool }) ∧
      s.pool.Sets p.buffer (some (data.take (data.length - n))) pool := by
  obtain ⟨pool, hpool, hset⟩ := hp.removeAtEnd hb hle
  have hsize : pool.size p.buffer = data.length - n := by
    rw [hset.valid.size_eq hset.self, List.length_take, Nat.min_eq_left (Nat.sub_le _ _)]
  refine ⟨pool, ?_, hset⟩
  rw [removeAtEnd, hpool, ← hsize]
  rfl

/-- A header that can be read is taken off with as many bytes as it was read from. -/
theorem removeHeader_of_read (hp : s.pool.Valid) (hb : s.pool.contents p.buffer = some data) {n : Nat}
    (hr : c.readStart data = .ok (value, n)) :
    ∃ pool, p.removeHeader s c =
        .ok (value, { p with byteTags := p.byteTags.clip n (n + (data.length - n)) }, { s with pool }) ∧
      s.pool.Sets p.buffer (some (data.drop n)) pool := by
  obtain ⟨pool, hx, hset⟩ := removeAtStart_eq hp hb (Codec.readStart_le hr)
  refine ⟨pool, ?_, hset⟩
  rw [removeHeader, show p.bytes s = data from Pool.bytes_eq hb]
  simp only [hr, hx, bind, Except.bind, pure, Except.pure]

/-- A trailer that can be read is taken off with as many bytes as it was read from. -/
theorem removeTrailer_of_read (hp : s.pool.Valid) (hb : s.pool.contents p.buffer = some data) {n : Nat}
    (hr : c.readEnd data = .ok (value, n)) :
    ∃ pool, p.removeTrailer s c =
        .ok (value, { p with byteTags := p.byteTags.clip 0 (data.length - n) }, { s with pool }) ∧
      s.pool.Sets p.buffer (some (data.take (data.length - n))) pool := by
  obtain ⟨pool, hx, hset⟩ := removeAtEnd_eq hp hb (Codec.readEnd_le hr)
  refine ⟨pool, ?_, hset⟩
  rw [removeTrailer, show p.bytes s = data from Pool.bytes_eq hb]
  simp only [hr, hx, bind, Except.bind, pure, Except.pure]

end Packet

end SimKernel
