import SimKernel.Proofs.Packet.Stacking

/-!
# Operations on packets happen as a whole or not at all

A header is written into bytes that the packet already has, and what a format wrote before it failed stays there until the
bytes are taken off again (`Filling`). Formats may do anything with their cursors. Still an operation that is refused leaves
no trace (`Safe`), a header or trailer that is put on or taken off changes the size of its packet by its
own size, and what was read is never more than there is, so that taking it off cannot fail (`all_or_nothing`).
-/

namespace SimKernel

/-! ## What formats read -/

namespace Codec

variable {β : Type} {c : Codec β} {window : Bytes} {r : Reader window} {consumed : Reader window → Nat}

/-- The value that is read from a cursor, with the number of bytes that count as consumed. -/
def readFrom (c : Codec β) (r : Reader window) (consumed : Reader window → Nat) : Except PacketError (β × Nat) := do
  let (value, r') ← c.decode r
  c.checkSize (c.size value) (consumed r')
  return (value, consumed r')

theorem readStart_eq_readFrom (c : Codec β) (bytes : Bytes) :
    c.readStart bytes = c.readFrom (Reader.atStart bytes) Reader.consumedFromStart := rfl

theorem readEnd_eq_readFrom (c : Codec β) (bytes : Bytes) :
    c.readEnd bytes = c.readFrom (Reader.atEnd bytes) Reader.consumedFromEnd := rfl

/-- A value is read only if it consumed its own size. -/
theorem size_of_readFrom {value : β} {n : Nat} (h : c.readFrom r consumed = .ok (value, n)) : c.size value = n := by
  obtain ⟨⟨value', r'⟩, -, h⟩ := Outcome.bind_eq_ok_iff.1 h
  obtain ⟨_, hsize, h⟩ := Outcome.bind_eq_ok_iff.1 h
  cases h
  unfold checkSize at hsize
  split at hsize
  · assumption
  · cases hsize

/-- The reasons why nothing is read: the format itself fails, or it consumed another number of bytes than its value has. -/
inductive Rejects (c : Codec β) (r : Reader window) (consumed : Reader window → Nat) : PacketError → Prop
  | own {e : PacketError} : c.decode r = .error e → Rejects c r consumed e
  | mismatch {value : β} {r' : Reader window} : c.decode r = .ok (value, r') → c.size value ≠ consumed r' →
    Rejects c r consumed (.sizeMismatch c.name (c.size value) (consumed r'))

/-- Nothing else is a reason. -/
theorem rejects_of_readFrom {e : PacketError} (h : c.readFrom r consumed = .error e) : c.Rejects r consumed e := by
  unfold readFrom at h
  rcases hd : c.decode r with e' | ⟨value, r'⟩
  · rw [hd] at h
    cases h
    exact .own hd
  · by_cases hsize : c.size value = consumed r'
    · simp only [hd, checkSize, if_pos hsize, bind, Except.bind] at h
      cases h
    · simp only [hd, checkSize, if_neg hsize, bind, Except.bind] at h
      cases h
      exact .mismatch hd hsize

/-- Nothing but the format itself answers that bytes to be removed are missing. -/
theorem Rejects.own_of_underflow {k n : Nat} (h : c.Rejects r consumed (.buffer (.underflow k n))) :
    c.decode r = .error (.buffer (.underflow k n)) := by
  cases h with
  | own hd => exact hd

end Codec

/-! ## What formats write -/

/-- What happens to a window of new bytes: whether it succeeds, and the bytes that it leaves there in any case. -/
structure Filling where
  fill : Bytes → Except PacketError Unit × Bytes
  length_fill (window : Bytes) : (fill window).2.length = window.length

namespace Filling

/-- A format that moves its cursor and writes as it likes, and whose bytes stay also when it fails. -/
def ofWriting (name : String) (write : {n : Nat} → Writer n → Except PacketError Unit × Writer n) : Filling where
  fill window :=
    let (outcome, w) := write (Writer.ofWindow window)
    (outcome.bind fun () =>
      if window.length = w.written then .ok () else .error (.sizeMismatch name window.length w.written), w.window)
  length_fill window := (write (Writer.ofWindow window)).2.length_window

/-- A value that leaves its window alone if it cannot be written. -/
def ofCodec {β : Type} (c : Codec β) (value : β) : Filling := ⟨Packet.filled c value, Packet.length_filled c value⟩

theorem length_new {f : Filling} {n : Nat} {outcome : Except PacketError Unit} {new : Bytes}
    (hf : f.fill (Bytes.zeros n) = (outcome, new)) : new.length = n := by
  have hlen := f.length_fill (Bytes.zeros n)
  rwa [hf, Bytes.length_zeros] at hlen

end Filling

variable {τ : Type}

namespace Packet

variable {p : Packet τ} {s : PacketStore} {n : Nat} {f : Filling} {data new : Bytes} {e : PacketError}

/-- Puts `n` filled bytes before the others. -/
def fillStart (p : Packet τ) (s : PacketStore) (n : Nat) (f : Filling) :
    Except Fault (Except PacketError (Packet τ) × PacketStore) := do
  let (outcome, pool) ← s.pool.prependWith p.buffer n f.fill
  match outcome with
  | .ok () => return (.ok { p with byteTags := p.byteTags.shift n }, { s with pool })
  | .error e =>
    match pool.removeAtStart p.buffer n with
    | .ok pool => return (.error e, { s with pool })
    | .error e => return (.error (.buffer e), { s with pool })

/-- Puts `n` filled bytes after the others. -/
def fillEnd (p : Packet τ) (s : PacketStore) (n : Nat) (f : Filling) :
    Except Fault (Except PacketError Unit × PacketStore) := do
  let (outcome, pool) ← s.pool.appendWith p.buffer n f.fill
  match outcome with
  | .ok () => return (.ok (), { s with pool })
  | .error e =>
    match pool.removeAtEnd p.buffer n with
    | .ok pool => return (.error e, { s with pool })
    | .error e => return (.error (.buffer e), { s with pool })

/-- Bytes that were filled stay. -/
theorem fillStart_of_ok (hp : s.pool.Valid) (hb : s.pool.contents p.buffer = some data)
    (hf : f.fill (Bytes.zeros n) = (.ok (), new)) {x} (hx : p.fillStart s n f = .ok x) :
    ∃ pool, x = (.ok { p with byteTags := p.byteTags.shift n }, { s with pool }) ∧
      s.pool.Sets p.buffer (some (new ++ data)) pool := by
  obtain ⟨⟨outcome, pool⟩, hq, hx⟩ := Outcome.bind_eq_ok_iff.1 hx
  obtain ⟨ho, hset⟩ := hp.prependWith hb ((f.length_fill _).trans (Bytes.length_zeros _)) hq
  rw [hf] at ho hset
  subst ho
  cases hx
  exact ⟨pool, rfl, hset⟩

/-- The bytes are taken off again, whatever was left in them. -/
theorem fillStart_of_error (hp : s.pool.Valid) (hb : s.pool.contents p.buffer = some data)
    (hf : f.fill (Bytes.zeros n) = (.error e, new)) {x} (hx : p.fillStart s n f = .ok x) :
    ∃ pool, x = (.error e, { s with pool }) ∧ s.pool.Sets p.buffer (some data) pool := by
  obtain ⟨⟨outcome, pool⟩, hq, hx⟩ := Outcome.bind_eq_ok_iff.1 hx
  have hlen : new.length = n := Filling.length_new hf
  obtain ⟨ho, hset⟩ := hp.prependWith hb (by rw [hf]; exact hlen) hq
  rw [hf] at ho hset
  subst ho
  obtain ⟨pool', hr, hset'⟩ := hset.valid.removeAtStart hset.self (n := n)
    (by rw [List.length_append, hlen]; exact Nat.le_add_right _ _)
  rw [List.drop_left' hlen] at hset'
  simp only [hr] at hx
  cases hx
  exact ⟨pool', rfl, hset.trans hset'⟩

/-- Bytes that were filled stay at the end too. -/
theorem fillEnd_of_ok (hp : s.pool.Valid) (hb : s.pool.contents p.buffer = some data)
    (hf : f.fill (Bytes.zeros n) = (.ok (), new)) {x} (hx : p.fillEnd s n f = .ok x) :
    ∃ pool, x = (.ok (), { s with pool }) ∧ s.pool.Sets p.buffer (some (data ++ new)) pool := by
  obtain ⟨⟨outcome, pool⟩, hq, hx⟩ := Outcome.bind_eq_ok_iff.1 hx
  obtain ⟨ho, hset⟩ := hp.appendWith hb ((f.length_fill _).trans (Bytes.length_zeros _)) hq
  rw [hf] at ho hset
  subst ho
  cases hx
  exact ⟨pool, rfl, hset⟩

/-- At the end too, the bytes are taken off again whatever was left in them. -/
theorem fillEnd_of_error (hp : s.pool.Valid) (hb : s.pool.contents p.buffer = some data)
    (hf : f.fill (Bytes.zeros n) = (.error e, new)) {x} (hx : p.fillEnd s n f = .ok x) :
    ∃ pool, x = (.error e, { s with pool }) ∧ s.pool.Sets p.buffer (some data) pool := by
  obtain ⟨⟨outcome, pool⟩, hq, hx⟩ := Outcome.bind_eq_ok_iff.1 hx
  have hlen : new.length = n := Filling.length_new hf
  obtain ⟨ho, hset⟩ := hp.appendWith hb (by rw [hf]; exact hlen) hq
  rw [hf] at ho hset
  subst ho
  obtain ⟨pool', hr, hset'⟩ := hset.valid.removeAtEnd hset.self (n := n)
    (by rw [List.length_append, hlen]; exact Nat.le_add_left _ _)
  rw [List.length_append, hlen, Nat.add_sub_cancel, List.take_left' rfl] at hset'
  simp only [hr] at hx
  cases hx
  exact ⟨pool', rfl, hset.trans hset'⟩

end Packet

/-! ## Trials -/

/-- Acts on packets, among them the filling of new bytes at either end by anything. -/
inductive PacketTrial (τ : Type) : Type 1 where
  | act (a : PacketAct τ)
  | fillStart (i n : Nat) (f : Filling)
  | fillEnd (i n : Nat) (f : Filling)

namespace Packets

open Operations

variable {w w' : Packets τ} {i n : Nat} {p : Packet τ} {data : Bytes} {answer : PacketAnswer} {e : PacketError}

/-- One trial on packets; on a packet that was dropped it changes nothing. -/
def attempt (w : Packets τ) : PacketTrial τ → Except Fault (PacketAnswer × Packets τ)
  | .act a => w.act a
  | .fillStart i n f => w.on i fun p =>
    (p.fillStart w.store n f).map fun x => (w.put i p x.2).settle x.1 fun p' => w.put i p' x.2
  | .fillEnd i n f => w.on i fun p =>
    (p.fillEnd w.store n f).map fun x => (w.put i p x.2).settle x.1 fun _ => w.put i p x.2

/-- A header is one way to fill new bytes before the others. -/
theorem attempt_addHeader {β : Type} (w : Packets τ) (i : Nat) (c : Codec β) (value : β) :
    w.attempt (.fillStart i (c.size value) (.ofCodec c value)) = w.act (.operation (.addHeader i c value)) := rfl

/-- A trailer is one way to fill new bytes after the others. -/
theorem attempt_addTrailer {β : Type} (w : Packets τ) (i : Nat) (c : Codec β) (value : β) :
    w.attempt (.fillEnd i (c.size value) (.ofCodec c value)) = w.act (.operation (.addTrailer i c value)) := rfl

/-- All packets have their numbers, bytes and tags, and so will the next one. -/
structure Unchanged (w w' : Packets τ) : Prop where
  packets : w'.packets = w.packets
  issued : w'.issued = w.issued
  nextUid : w'.store.nextUid = w.store.nextUid
  bytes : ∀ p, some p ∈ w.packets → p.bytes w'.store = p.bytes w.store

/-- The packet is there and has `n` bytes. -/
def Sized (w : Packets τ) (i n : Nat) : Prop := ∃ p, w.packets[i]? = some (some p) ∧ p.size w.store = n

theorem unchanged_refl (w : Packets τ) : Unchanged w w := ⟨rfl, rfl, rfl, fun _ _ => rfl⟩

/-- A packet that gets back the bytes that it had is unchanged, wherever they are stored now. -/
theorem unchanged_of_sets (hi : w.packets[i]? = some (some p))
    (hb : w.store.pool.contents p.buffer = some data) {pool : Pool} (hset : w.store.pool.Sets p.buffer (some data) pool) :
    Unchanged w (w.put i p { w.store with pool }) := by
  refine ⟨set_eq_self hi, rfl, rfl, ?_⟩
  intro q hq
  obtain ⟨j, hj⟩ := List.mem_iff_getElem?.1 hq
  refine Pool.bytes_congr ?_
  rw [show (w.put i p { w.store with pool }).store.pool = pool from rfl, hset.contents_eq, ← hb,
    Function.update_eq_self]

/-- What becomes of a packet when it gets `n` new bytes that anything may be done to. -/
inductive Filled (w : Packets τ) (i n : Nat) (p : Packet τ) : PacketAnswer × Packets τ → Prop
  | grown {p' : Packet τ} {pool : Pool} {data : Bytes} : p'.buffer = p.buffer →
    w.store.pool.Sets p.buffer (some data) pool → data.length = p.size w.store + n → p'.byteTags.Within data.length →
    Filled w i n p (.ok none, w.put i p' { w.store with pool })
  | refused {e : PacketError} {pool : Pool} {data : Bytes} : w.store.pool.contents p.buffer = some data →
    w.store.pool.Sets p.buffer (some data) pool → Filled w i n p (.error e, w.put i p { w.store with pool })

/-- New bytes at the start stay if they were filled, and are gone if not. -/
theorem Valid.filled_start (h : w.Valid) (hi : w.packets[i]? = some (some p)) {f : Filling} {z : PacketAnswer × Packets τ}
    (hz : w.attempt (.fillStart i n f) = .ok z) : Filled w i n p z := by
  rw [attempt, on_eq hi] at hz
  obtain ⟨x, hx, rfl⟩ := Outcome.map_eq_ok_iff.1 hz
  obtain ⟨data, hb⟩ := h.holds.live hi
  rcases hf : f.fill (Bytes.zeros n) with ⟨e | ⟨⟩, new⟩
  · obtain ⟨pool, rfl, hset⟩ := Packet.fillStart_of_error h.holds.valid hb hf hx
    exact .refused hb hset
  · obtain ⟨pool, rfl, hset⟩ := Packet.fillStart_of_ok h.holds.valid hb hf hx
    have hnew : new.length = n := Filling.length_new hf
    refine .grown rfl hset ?_ ?_
    · rw [List.length_append, hnew, Packet.size, h.holds.valid.size_eq hb, Nat.add_comm]
    · rw [List.length_append, hnew]
      exact (h.within hi hb).shift n

/-- New bytes at the end stay if they were filled, and are gone if not. -/
theorem Valid.filled_end (h : w.Valid) (hi : w.packets[i]? = some (some p)) {f : Filling} {z : PacketAnswer × Packets τ}
    (hz : w.attempt (.fillEnd i n f) = .ok z) : Filled w i n p z := by
  rw [attempt, on_eq hi] at hz
  obtain ⟨x, hx, rfl⟩ := Outcome.map_eq_ok_iff.1 hz
  obtain ⟨data, hb⟩ := h.holds.live hi
  rcases hf : f.fill (Bytes.zeros n) with ⟨e | ⟨⟩, new⟩
  · obtain ⟨pool, rfl, hset⟩ := Packet.fillEnd_of_error h.holds.valid hb hf hx
    exact .refused hb hset
  · obtain ⟨pool, rfl, hset⟩ := Packet.fillEnd_of_ok h.holds.valid hb hf hx
    have hnew : new.length = n := Filling.length_new hf
    refine .grown rfl hset ?_ ?_
    · rw [List.length_append, hnew, Packet.size, h.holds.valid.size_eq hb]
    · rw [List.length_append]
      exact (h.within hi hb).mono (Nat.le_add_right _ _)

theorem Filled.valid (h : w.Valid) (hi : w.packets[i]? = some (some p)) {z : PacketAnswer × Packets τ}
    (hz : Filled w i n p z) : z.2.Valid := by
  cases hz with
  | grown hbuffer hset _ hwithin => exact (h.sets hi hbuffer hset hwithin).1
  | refused hb hset => exact (h.sets hi rfl hset (h.within hi hb)).1

theorem Filled.unchanged (hi : w.packets[i]? = some (some p)) (hz : Filled w i n p (.error e, w')) :
    Unchanged w w' := by
  cases hz with
  | refused hb hset => exact unchanged_of_sets hi hb hset

theorem Filled.sized (hi : w.packets[i]? = some (some p)) {x : Option (Σ β : Type, β)}
    (hz : Filled w i n p (.ok x, w')) : Sized w' i (p.size w.store + n) := by
  cases hz with
  | grown hbuffer hset hlen _ =>
    refine ⟨_, getElem?_put hi _, ?_⟩
    rw [Packet.size, hbuffer, ← hlen]
    exact hset.valid.size_eq hset.self

/-! ## Every trial -/

/-- What is done to a packet is done to one that is there, or it is nothing and has its answer. -/
theorem of_on {f : Packet τ → Except Fault (PacketAnswer × Packets τ)} {z : PacketAnswer × Packets τ}
    {P : PacketAnswer × Packets τ → Prop} (h : w.on i f = .ok z) (gone : P (.ok none, w))
    (hf : ∀ p, w.packets[i]? = some (some p) → f p = .ok z → P z) : P z := by
  unfold on onEntry at h
  split at h
  case h_1 p hp => exact hf p (Option.join_eq_some_iff.1 hp) h
  case h_2 =>
    cases h
    exact gone

/-- A trial that is refused has left everything alone. -/
def Safe (w : Packets τ) (z : PacketAnswer × Packets τ) : Prop := ∀ e, z.1 = .error e → Unchanged w z.2

theorem safe_ok (w w' : Packets τ) (x : Option (Σ β : Type, β)) : Safe w (.ok x, w') := fun _ h => by cases h

theorem safe_self (w : Packets τ) (answer : PacketAnswer) : Safe w (answer, w) := fun _ _ => w.unchanged_refl

/-- A result that is an error is settled by changing nothing. -/
theorem safe_settle {σ : Type} (w : Packets τ) (x : Except PacketError σ) (f : σ → Packets τ) : Safe w (w.settle x f) := by
  cases x with
  | ok y => exact safe_ok w _ _
  | error e => exact safe_self w _

theorem safe_settleRemoved {β : Type} (w : Packets τ) (i : Nat) (x : Except PacketError (β × Packet τ × PacketStore)) :
    Safe w (w.settleRemoved i x) := by
  cases x with
  | ok y => exact safe_ok w _ _
  | error e => exact safe_self w _

/-- A filling that failed has left everything alone. -/
theorem Filled.safe (hi : w.packets[i]? = some (some p)) {z : PacketAnswer × Packets τ} (hz : Filled w i n p z) :
    Safe w z := by
  rintro e he
  obtain ⟨answer, w'⟩ := z
  cases he
  exact hz.unchanged hi

/-- What is done to a packet without a fault. -/
theorem safe_of_on_ok {f : Packet τ → PacketAnswer × Packets τ} {z : PacketAnswer × Packets τ}
    (h : (w.on i fun p => .ok (f p)) = .ok z) (hf : ∀ p, Safe w (f p)) : Safe w z := by
  refine of_on h (safe_self w _) fun p _ hp => ?_
  cases hp
  exact hf p

/-- What is done to a packet with something that may be a fault, but is never refused. -/
theorem safe_of_on_map {σ : Type} {x : Packet τ → Except Fault σ} {f : Packet τ → σ → Packets τ}
    {z : PacketAnswer × Packets τ} (h : (w.on i fun p => (x p).map fun y => (.ok none, f p y)) = .ok z) : Safe w z := by
  refine of_on h (safe_self w _) fun p _ hp => ?_
  obtain ⟨y, -, rfl⟩ := Outcome.map_eq_ok_iff.1 hp
  exact safe_ok w _ _

theorem Valid.safe_attempt_fillStart (h : w.Valid) {f : Filling} {z : PacketAnswer × Packets τ}
    (hz : w.attempt (.fillStart i n f) = .ok z) : Safe w z :=
  of_on hz (safe_self w _) fun _ hi _ => (h.filled_start hi hz).safe hi

theorem Valid.safe_attempt_fillEnd (h : w.Valid) {f : Filling} {z : PacketAnswer × Packets τ}
    (hz : w.attempt (.fillEnd i n f) = .ok z) : Safe w z :=
  of_on hz (safe_self w _) fun _ hi _ => (h.filled_end hi hz).safe hi

/-- One case for each operation: either it is a filling, or it changes nothing before it is refused. -/
theorem Valid.safe_apply (h : w.Valid) {op : PacketOp τ} {z : PacketAnswer × Packets τ} (hz : w.apply op = .ok z) :
    Safe w z := by
  cases op with
  | ofBytes data =>
    cases hz
    exact safe_ok w _ _
  | ofSize n =>
    obtain ⟨made, -, rfl⟩ := Outcome.map_eq_ok_iff.1 hz
    exact safe_ok w _ _
  | copy i => exact safe_of_on_ok hz fun p => safe_ok w _ _
  | fragment i start length => exact safe_of_on_ok hz fun p => safe_settle w _ _
  | addHeader i c value => exact h.safe_attempt_fillStart ((w.attempt_addHeader i c value).trans hz)
  | removeHeader i c => exact safe_of_on_ok hz fun p => safe_settleRemoved w i _
  | addTrailer i c value => exact h.safe_attempt_fillEnd ((w.attempt_addTrailer i c value).trans hz)
  | removeTrailer i c => exact safe_of_on_ok hz fun p => safe_settleRemoved w i _
  | removeAtStart i n => exact safe_of_on_ok hz fun p => safe_settle w _ _
  | removeAtEnd i n => exact safe_of_on_ok hz fun p => safe_settle w _ _
  | addPadding i n => exact safe_of_on_map hz
  | append i j =>
    refine of_on hz (safe_self w _) fun p _ hp => of_on hp (safe_self w _) fun q _ hq => ?_
    obtain ⟨x, -, rfl⟩ := Outcome.map_eq_ok_iff.1 hq
    exact safe_ok w _ _
  | addByteTag i tag => exact safe_of_on_ok hz fun p => safe_settle w _ _
  | addByteTagRange i tag start stop => exact safe_of_on_ok hz fun p => safe_settle w _ _
  | clearByteTags i => exact safe_of_on_ok hz fun p => safe_ok w _ _
  | drop i => exact safe_of_on_ok hz fun p => safe_ok w _ _
  | resetUids =>
    cases hz
    exact safe_ok w _ _

/-- A trial that is refused leaves everything alone, and one that is not keeps packets apart. -/
theorem Valid.attempt_ok (h : w.Valid) {a : PacketTrial τ} {z : PacketAnswer × Packets τ} (hz : w.attempt a = .ok z) :
    z.2.Valid ∧ Safe w z := by
  cases a with
  | act a =>
    refine ⟨((h.keeps_act a).same z.1 z.2 hz).1, ?_⟩
    cases a with
    | operation op => exact h.safe_apply hz
    | peekHeader i c => exact safe_of_on_ok hz fun p => safe_self w _
    | peekTrailer i c => exact safe_of_on_ok hz fun p => safe_self w _
    | retag i change => exact safe_of_on_ok hz fun p => safe_ok w _ _
  | fillStart i n f => exact ⟨of_on (P := fun z => z.2.Valid) hz h fun _ hi _ => (h.filled_start hi hz).valid h hi,
      h.safe_attempt_fillStart hz⟩
  | fillEnd i n f => exact ⟨of_on (P := fun z => z.2.Valid) hz h fun _ hi _ => (h.filled_end hi hz).valid h hi,
      h.safe_attempt_fillEnd hz⟩

/-- By induction on the trials. -/
theorem Valid.exec_attempt (h : w.Valid) {trials : List (PacketTrial τ)} {answers : List PacketAnswer}
    (he : exec attempt w trials = .ok (answers, w')) : w'.Valid := by
  induction trials generalizing w answers with
  | nil =>
    cases he
    exact h
  | cons a trials ih =>
    obtain ⟨answer, w₁, rest, ha, hrest, -⟩ := exec_cons_eq_ok_iff.1 he
    exact ih (h.attempt_ok ha).1 hrest

/-! ## Taking off -/

section Taking

variable {β : Type} {c : Codec β} {bytes : Bytes}

/-- What becomes of a packet of `n` bytes when a value is taken off one of its ends: a value with its own bytes goes, or
nothing does, because nothing can be read. -/
inductive Taken (w : Packets τ) (i n : Nat) (c : Codec β) (r : Reader bytes) (consumed : Reader bytes → Nat) :
    PacketAnswer × Packets τ → Prop
  | taken {value : β} {m : Nat} {w' : Packets τ} : Sized w' i m → m + c.size value = n →
    Taken w i n c r consumed (.ok (some ⟨β, value⟩), w')
  | refused {e : PacketError} : c.Rejects r consumed e → Taken w i n c r consumed (.error e, w)

theorem Taken.own_of_underflow {r : Reader bytes} {consumed : Reader bytes → Nat} {z : PacketAnswer × Packets τ}
    (h : Taken w i n c r consumed z) (k m : Nat) (hz : z.1 = .error (.buffer (.underflow k m))) :
    c.decode r = .error (.buffer (.underflow k m)) := by
  cases h with
  | taken => cases hz
  | refused hr =>
    cases hz
    exact hr.own_of_underflow

/-- A header that can be read can be taken off: what was read is never more than there is. -/
theorem Valid.taken_start (h : w.Valid) (hi : w.packets[i]? = some (some p)) (c : Codec β) :
    ∃ z, w.act (.operation (.removeHeader i c)) = .ok z ∧
      Taken w i (p.size w.store) c (Reader.atStart (p.bytes w.store)) Reader.consumedFromStart z := by
  obtain ⟨data, hb⟩ := h.holds.live hi
  rw [act, apply, on_eq hi]
  refine ⟨_, rfl, ?_⟩
  have hbytes : p.bytes w.store = data := Pool.bytes_eq hb
  have hsize : p.size w.store = data.length := h.holds.valid.size_eq hb
  rcases hr : c.readStart data with e | ⟨value, n⟩
  · rw [Packet.removeHeader, hbytes]
    simp only [hr, bind, Except.bind]
    exact .refused (Codec.rejects_of_readFrom ((c.readStart_eq_readFrom data).symm.trans hr))
  · obtain ⟨pool, hx, hset⟩ := Packet.removeHeader_of_read h.holds.valid hb hr
    rw [hx]
    refine .taken (m := data.length - n) ⟨_, getElem?_put hi _, ?_⟩ ?_
    · exact (hset.valid.size_eq hset.self).trans List.length_drop
    · rw [hsize, Codec.size_of_readFrom hr, Nat.sub_add_cancel (Codec.readStart_le hr)]

/-- A trailer that can be read can be taken off: what was read is never more than there is. -/
theorem Valid.taken_end (h : w.Valid) (hi : w.packets[i]? = some (some p)) (c : Codec β) :
    ∃ z, w.act (.operation (.removeTrailer i c)) = .ok z ∧
      Taken w i (p.size w.store) c (Reader.atEnd (p.bytes w.store)) Reader.consumedFromEnd z := by
  obtain ⟨data, hb⟩ := h.holds.live hi
  rw [act, apply, on_eq hi]
  refine ⟨_, rfl, ?_⟩
  have hbytes : p.bytes w.store = data := Pool.bytes_eq hb
  have hsize : p.size w.store = data.length := h.holds.valid.size_eq hb
  rcases hr : c.readEnd data with e | ⟨value, n⟩
  · rw [Packet.removeTrailer, hbytes]
    simp only [hr, bind, Except.bind]
    exact .refused (Codec.rejects_of_readFrom ((c.readEnd_eq_readFrom data).symm.trans hr))
  · obtain ⟨pool, hx, hset⟩ := Packet.removeTrailer_of_read h.holds.valid hb hr
    rw [hx]
    refine .taken (m := data.length - n) ⟨_, getElem?_put hi _, ?_⟩ ?_
    · exact (hset.valid.size_eq hset.self).trans (List.length_take.trans (Nat.min_eq_left (Nat.sub_le _ _)))
    · rw [hsize, Codec.size_of_readFrom hr, Nat.sub_add_cancel (Codec.readEnd_le hr)]

end Taking

/-! ## All or nothing -/

/-- **Operations on packets happen as a whole or not at all.** Let packets be in any state that they can come to, with any
sharing of storage, and formats be any functions on cursors, also such as write before they fail. An operation that is
refused leaves the bytes, number, byte tags and packet tags of every packet and the number of the next one as they were.
One that puts a header or trailer on a packet makes it longer by the size that the value reports, and one that takes a
header or trailer off always has an answer and makes it shorter by the size that the value reports, or is refused because
the format fails or consumes another number of bytes than it reports; bytes to be removed are missing only in an answer of
the format itself. -/
theorem all_or_nothing {before : List (PacketTrial τ)} {answers : List PacketAnswer}
    (hw : exec attempt empty before = .ok (answers, w)) :
    (∀ a e w', w.attempt a = .ok (.error e, w') → Unchanged w w') ∧
      ∀ i p, w.packets[i]? = some (some p) →
        (∀ n f x w', w.attempt (.fillStart i n f) = .ok (.ok x, w') ∨ w.attempt (.fillEnd i n f) = .ok (.ok x, w') →
          Sized w' i (p.size w.store + n)) ∧
        ∀ (β : Type) (c : Codec β),
          (∀ value x w', w.act (.operation (.addHeader i c value)) = .ok (.ok x, w') ∨
            w.act (.operation (.addTrailer i c value)) = .ok (.ok x, w') → Sized w' i (p.size w.store + c.size value)) ∧
          (∃ z, w.act (.operation (.removeHeader i c)) = .ok z ∧
            Taken w i (p.size w.store) c (Reader.atStart (p.bytes w.store)) Reader.consumedFromStart z ∧
            ∀ k n, z.1 = .error (.buffer (.underflow k n)) →
              c.decode (Reader.atStart (p.bytes w.store)) = .error (.buffer (.underflow k n))) ∧
          ∃ z, w.act (.operation (.removeTrailer i c)) = .ok z ∧
            Taken w i (p.size w.store) c (Reader.atEnd (p.bytes w.store)) Reader.consumedFromEnd z ∧
            ∀ k n, z.1 = .error (.buffer (.underflow k n)) →
              c.decode (Reader.atEnd (p.bytes w.store)) = .error (.buffer (.underflow k n)) := by
  have hvalid := valid_empty.exec_attempt hw
  refine ⟨fun a e w' ha => (hvalid.attempt_ok ha).2 e rfl, fun i p hi => ?_⟩
  have hfill : ∀ n f x w', w.attempt (.fillStart i n f) = .ok (.ok x, w') ∨
      w.attempt (.fillEnd i n f) = .ok (.ok x, w') → Sized w' i (p.size w.store + n) := by
    rintro n f x w' (ha | ha)
    · exact (hvalid.filled_start hi ha).sized hi
    · exact (hvalid.filled_end hi ha).sized hi
  refine ⟨hfill, fun β c => ⟨?_, ?_, ?_⟩⟩
  · intro value x w' ha
    rw [← attempt_addHeader, ← attempt_addTrailer] at ha
    exact hfill _ _ x w' ha
  · obtain ⟨z, hz, htaken⟩ := hvalid.taken_start hi c
    exact ⟨z, hz, htaken, htaken.own_of_underflow⟩
  · obtain ⟨z, hz, htaken⟩ := hvalid.taken_end hi c
    exact ⟨z, hz, htaken, htaken.own_of_underflow⟩

/-- Writes a byte and leaves the rest of its window empty. -/
def shortWriting : Filling := .ofWriting "Short" fun w =>
  match w.bytes [0xff] with
  | .ok w => (.ok (), w)
  | .error e => (.error e, w)

/-- A packet that shares its bytes with a copy gets a header that is too short, of which a byte remains in the storage; then
it loses a header of one byte. -/
theorem all_or_nothing_shortWriting :
    ∃ w p, exec attempt (empty : Packets Nat) [.act (.operation (.ofBytes [1, 2, 3])), .act (.operation (.copy 0))] =
        .ok ([.ok none, .ok none], w) ∧
      w.packets[0]? = some (some p) ∧
      (∃ w', w.attempt (.fillStart 0 4 shortWriting) = .ok (.error (.sizeMismatch "Short" 4 1), w') ∧
        w'.store.pool.storages[0]?.bind (·.bytes[60]?) = some 0xff ∧ Unchanged w w') ∧
      ∃ z, w.act (.operation (.removeHeader 0 (Codec.ofSteps "Byte" 1 [] [.bytes 1]))) = .ok z ∧
        Taken w 0 (p.size w.store) (Codec.ofSteps "Byte" 1 [] [.bytes 1]) (Reader.atStart (p.bytes w.store))
          Reader.consumedFromStart z := by
  refine ⟨_, _, rfl, rfl, ?_⟩
  have hwhole := all_or_nothing (τ := Nat) (w := _)
    (show exec attempt empty [.act (.operation (.ofBytes [1, 2, 3])), .act (.operation (.copy 0))] = .ok (_, _) from rfl)
  refine ⟨⟨_, rfl, rfl, hwhole.1 (.fillStart 0 4 shortWriting) _ _ rfl⟩, ?_⟩
  obtain ⟨z, hz, htaken, -⟩ := ((hwhole.2 0 _ rfl).2 _ (Codec.ofSteps "Byte" 1 [] [.bytes 1])).2.1
  exact ⟨z, hz, htaken⟩

end Packets

end SimKernel
