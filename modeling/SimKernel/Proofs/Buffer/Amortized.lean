import Mathlib.Algebra.Ring.Nat
import SimKernel.Proofs.Buffer.Values
import SimKernel.Proofs.Outcome

/-!
# Growing at one end copies linearly

A buffer that shares its storage with none grows into the room at its end as far as that goes, and beyond it into a new
storage with room for half as many bytes again (`Pool.Sole.addAt`). So the bytes that were moved so far are paid for by twice
the size of the buffer together with the room that is left (`Place.Paid`): while it grows in place their sum stays the same,
and when it moves the room that is new pays for the bytes that move (`Place.Paid.grown`). Whatever the numbers of bytes that
are added at one end, at most three times as many bytes are moved as the buffer has in the end (`Handles.moved_le`).
-/

namespace SimKernel

/-- An end of a buffer. -/
inductive BufferEnd where
  | start
  | stop
deriving DecidableEq, Repr

namespace BufferEnd

def other : BufferEnd → BufferEnd
  | start => stop
  | stop => start

/-- The least room at the end in a new storage. -/
def room : BufferEnd → Nat
  | start => Pool.startRoom
  | stop => Pool.stopRoom

end BufferEnd

/-! ## Places -/

/-- Where a buffer is: its storage, the room before it, its size and the room after it. -/
structure Place where
  storage : Nat
  before : Nat
  size : Nat
  after : Nat
deriving DecidableEq, Repr

namespace Place

variable {l : Place} {e : BufferEnd} {n fresh moved : Nat}

/-- The room at an end. -/
def margin (l : Place) : BufferEnd → Nat
  | .start => l.before
  | .stop => l.after

/-- The place of a buffer that grew into the room at its end. -/
def within (l : Place) (n : Nat) : BufferEnd → Place
  | .start => { l with before := l.before - n, size := l.size + n }
  | .stop => { l with size := l.size + n, after := l.after - n }

/-- The place of a buffer that grew and moved to a new storage. -/
def anew (l : Place) (n fresh : Nat) : BufferEnd → Place
  | .start => ⟨fresh, max Pool.startRoom (l.size / 2), l.size + n, Pool.stopRoom⟩
  | .stop => ⟨fresh, Pool.startRoom, l.size + n, max Pool.stopRoom (l.size / 2)⟩

/-- The place of a buffer that grew. -/
def grown (l : Place) (e : BufferEnd) (n fresh : Nat) : Place :=
  if n ≤ l.margin e then l.within n e else l.anew n fresh e

theorem size_within (l : Place) (e : BufferEnd) (n : Nat) : (l.within n e).size = l.size + n := by
  cases e <;> rfl

theorem size_anew (l : Place) (e : BufferEnd) (n fresh : Nat) : (l.anew n fresh e).size = l.size + n := by
  cases e <;> rfl

@[simp] theorem size_grown (l : Place) (e : BufferEnd) (n fresh : Nat) : (l.grown e n fresh).size = l.size + n := by
  unfold grown
  split
  · exact size_within l e n
  · exact size_anew l e n fresh

/-- Growing takes from the margin at its end. -/
theorem margin_within (l : Place) (e : BufferEnd) (n : Nat) : (l.within n e).margin e = l.margin e - n := by
  cases e <;> rfl

theorem margin_other_within (l : Place) (e : BufferEnd) (n : Nat) :
    (l.within n e).margin e.other = l.margin e.other := by
  cases e <;> rfl

theorem storage_within (l : Place) (e : BufferEnd) (n : Nat) : (l.within n e).storage = l.storage := by
  cases e <;> rfl

/-- A new storage leaves half of the size as the margin at its end, if that is more than the least. -/
theorem margin_anew (l : Place) (e : BufferEnd) (n fresh : Nat) :
    (l.anew n fresh e).margin e = max e.room (l.size / 2) := by
  cases e <;> rfl

theorem storage_anew (l : Place) (e : BufferEnd) (n fresh : Nat) : (l.anew n fresh e).storage = fresh := by
  cases e <;> rfl

/-- The bytes that move when the buffer grows. -/
def cost (l : Place) (e : BufferEnd) (n : Nat) : Nat := if l.margin e < n then l.size else 0

/-- The size of the buffer pays for the bytes that were moved, also together with the room that is left. -/
structure Paid (l : Place) (e : BufferEnd) (moved : Nat) : Prop where
  size : moved ≤ 3 * l.size
  reach : moved ≤ 2 * (l.size + l.margin e)

/-- Before anything moved, nothing is owed. -/
theorem paid_zero (l : Place) (e : BufferEnd) : l.Paid e 0 := ⟨Nat.zero_le _, Nat.zero_le _⟩

/-- The step of the induction: what moves now is paid for by the room that was used up before and the room that is new. -/
theorem Paid.grown (h : l.Paid e moved) (n fresh : Nat) : (l.grown e n fresh).Paid e (moved + l.cost e n) := by
  have hsize := h.size
  have hreach := h.reach
  unfold Place.grown cost
  by_cases hn : n ≤ l.margin e
  · rw [if_pos hn, if_neg (Nat.not_lt.2 hn)]
    have hgrown := size_within l e n
    refine ⟨by omega, ?_⟩
    rw [margin_within]
    omega
  · rw [if_neg hn, if_pos (Nat.lt_of_not_le hn)]
    have hgrown := size_anew l e n fresh
    refine ⟨by omega, ?_⟩
    rw [margin_anew]
    omega

end Place

namespace Pool

variable {p q : Pool} {b : Buffer} {l : Place} {e : BufferEnd} {v v' : View} {s t : Storage} {n : Nat}

/-- Where a live buffer is. -/
def place? (p : Pool) (b : Buffer) : Option Place :=
  (p.find? b).map fun (v, s) => ⟨v.storage, v.start, v.stop - v.start, s.bytes.length - v.stop⟩

/-- The room at an end of the buffer. -/
def margin (p : Pool) (b : Buffer) : BufferEnd → Nat
  | .start => p.startMargin b
  | .stop => p.stopMargin b

/-- Adds `n` zero bytes at an end of the buffer. -/
def addAt (p : Pool) (e : BufferEnd) (b : Buffer) (n : Nat) : Except Fault Pool :=
  match e with
  | .start => p.addAtStart b n
  | .stop => p.addAtEnd b n

theorem size_of_place? (h : p.place? b = some l) : p.size b = l.size := by
  obtain ⟨⟨v, s⟩, hf, rfl⟩ := Option.map_eq_some_iff.1 h
  simp only [size, (find?_eq_some_iff.1 hf).1]

theorem margin_of_place? (h : p.place? b = some l) (e : BufferEnd) : p.margin b e = l.margin e := by
  obtain ⟨⟨v, s⟩, hf, rfl⟩ := Option.map_eq_some_iff.1 h
  cases e
  · simp only [margin, startMargin, (find?_eq_some_iff.1 hf).1, Place.margin]
  · simp only [margin, stopMargin, hf, Place.margin]

theorem storage_of_place? (h : p.place? b = some l) : (p.view? b).map View.storage = some l.storage := by
  obtain ⟨⟨v, s⟩, hf, rfl⟩ := Option.map_eq_some_iff.1 h
  rw [(find?_eq_some_iff.1 hf).1, Option.map_some]

/-- A buffer that nobody shares its storage with grows in place. -/
theorem not_isShared_of_alone (h : p.Alone b) : ¬ p.isShared b := by
  intro hs
  unfold isShared at hs
  split at hs
  case h_1 v hv =>
    obtain ⟨⟨id, w⟩, hmem, hw⟩ := List.any_eq_true.1 hs
    simp only [Bool.and_eq_true, bne_iff_ne, beq_iff_eq] at hw
    exact h v ⟨id⟩ w hv (fun he => hw.1 (congrArg Buffer.id he)) (mem_views_iff.1 hmem) hw.2
  case h_2 => cases hs

/-- A live buffer that shares its storage with none, and where it is. -/
structure Sole (p : Pool) (b : Buffer) (l : Place) : Prop where
  valid : p.Valid
  unshared : ¬ p.isShared b
  place : p.place? b = some l

/-- A buffer that gets another view of its own storage. -/
theorem sole_of_insert (h : ¬ p.isShared b) (hv : p.view? b = some v) (hq : q.Valid)
    (hst : q.storages = p.storages.insert v.storage t) (hviews : q.views = p.views.insert b.id v')
    (hsame : v'.storage = v.storage) :
    q.Sole b ⟨v.storage, v'.start, v'.stop - v'.start, t.bytes.length - v'.stop⟩ := by
  have hview : ∀ c, q.view? c = if c = b then some v' else p.view? c := view?_of_insert hviews
  have hb : q.view? b = some v' := (hview b).trans (if_pos rfl)
  refine ⟨hq, not_isShared_of_alone ?_, ?_⟩
  · intro u c w hu hne hw
    rw [hb] at hu
    cases hu
    rw [hview, if_neg hne] at hw
    rw [hsame]
    exact alone_of_not_isShared h v c w hv hne hw
  · have hfind : q.find? b = some (v', t) := by
      refine find?_eq_some_iff.2 ⟨hb, ?_⟩
      rw [hst, hsame, getElem?_insert, if_pos rfl]
    rw [place?, hfind, ← hsame]
    rfl

/-- A buffer that was moved looks at the used range of its new storage. -/
theorem find?_relocate (hv : p.view? b = some v) (s : Storage) :
    (p.relocate b s).find? b = some (⟨p.next, s.usedStart, s.usedStop⟩, s) := by
  let q : Pool := ⟨p.storages.insert p.next s, p.views.insert b.id ⟨p.next, s.usedStart, s.usedStop⟩, p.next + 1⟩
  have hq : p.relocate b s = q.collect v.storage := by simp only [Pool.relocate, hv]; rfl
  have hview : q.view? b = some ⟨p.next, s.usedStart, s.usedStop⟩ := (view?_of_insert rfl b).trans (if_pos rfl)
  have hst : (q.collect v.storage).storages[p.next]? = some s :=
    (storages_collect hview v.storage).trans ((getElem?_insert p.storages p.next s p.next).trans (if_pos rfl))
  rw [hq]
  exact find?_eq_some_iff.2 ⟨(view?_collect q v.storage b).trans hview, hst⟩

/-- A buffer that moved to a new storage. -/
theorem Valid.sole_relocate (h : p.Valid) (hv : p.view? b = some v) (before : Nat) (data : Bytes) (after : Nat) :
    (p.relocate b (Storage.layout before data after)).Sole b ⟨p.next, before, data.length, after⟩ := by
  obtain ⟨hset, halone⟩ := h.relocate hv before data after
  refine ⟨hset.valid, not_isShared_of_alone halone, ?_⟩
  have hafter : (Storage.layout before data after).bytes.length - (before + data.length) = after := by
    simp only [Storage.layout, List.length_append, Bytes.length_zeros]
    omega
  rw [place?, find?_relocate hv]
  change some (Place.mk p.next before (before + data.length - before) _) = _
  rw [Nat.add_sub_cancel_left]
  exact congrArg (fun m => some (Place.mk p.next before data.length m)) hafter

/-- A buffer alone in its storage uses just what it looks at, so the margins are free. -/
theorem Sole.exists_view (h : p.Sole b l) :
    ∃ v s, p.find? b = some (v, s) ∧ p.view? b = some v ∧ s.Covers v ∧ p.contents b = some (s.slice v.start v.stop) ∧
      (s.slice v.start v.stop).length = v.stop - v.start ∧
      p.reclaimed b v s = { s with usedStart := v.start, usedStop := v.stop } ∧
      l = ⟨v.storage, v.start, v.stop - v.start, s.bytes.length - v.stop⟩ := by
  obtain ⟨⟨v, s⟩, hf, rfl⟩ := Option.map_eq_some_iff.1 h.place
  obtain ⟨hv, hs⟩ := find?_eq_some_iff.1 hf
  have hb := contents_of_view? hv hs
  obtain ⟨v', s', hf', -, -, hc, -, hlen⟩ := h.valid.exists_view hb
  rw [hf] at hf'
  cases hf'
  exact ⟨v, s, hf, hv, hc, hb, hlen, if_neg h.unshared, rfl⟩

/-- A buffer grows in its storage as far as the room before it goes. -/
theorem Sole.addAtStart (h : p.Sole b l) (hq : p.addAtStart b n = .ok q) : q.Sole b (l.grown .start n p.next) := by
  obtain ⟨v, s, hf, hv, hc, hb, hlen, hreclaimed, rfl⟩ := h.exists_view
  have hvalid := (h.valid.addAtStart hb hq).1.valid
  simp only [Pool.addAtStart, hf, hreclaimed] at hq
  by_cases hn : n = 0
  · subst hn
    cases hq
    exact h
  rw [if_neg hn] at hq
  change q.Sole b (if n ≤ v.start then ⟨v.storage, v.start - n, v.stop - v.start + n, s.bytes.length - v.stop⟩
    else ⟨p.next, max startRoom ((v.stop - v.start) / 2), v.stop - v.start + n, stopRoom⟩)
  split at hq
  case isTrue hin =>
    cases hq
    rw [if_pos hin.1]
    have := hc.le_stop
    have := hc.stop_le
    have := hc.le_length
    have hfit : v.start - n + (Bytes.zeros n).length ≤ s.bytes.length := by
      rw [Bytes.length_zeros]
      omega
    have hlength : (s.write (v.start - n) (Bytes.zeros n)).bytes.length = s.bytes.length := Storage.length_write hfit
    have hsize : v.stop - (v.start - n) = v.stop - v.start + n := by omega
    rw [← hlength, ← hsize]
    exact sole_of_insert h.unshared hv hvalid rfl rfl rfl
  case isFalse hout =>
    rw [if_neg fun hle => hout ⟨hle, trivial⟩]
    obtain ⟨-, -, hmoved⟩ := Outcome.bind_eq_ok_iff.1 hq
    cases hmoved
    have hsole := h.valid.sole_relocate hv (max startRoom ((s.slice v.start v.stop).length / 2))
      (Bytes.zeros n ++ s.slice v.start v.stop) stopRoom
    rw [List.length_append, Bytes.length_zeros, Nat.add_comm n] at hsole
    rw [← hlen]
    exact hsole

/-- A buffer grows in its storage as far as the room after it goes. -/
theorem Sole.addAtEnd (h : p.Sole b l) (hq : p.addAtEnd b n = .ok q) : q.Sole b (l.grown .stop n p.next) := by
  obtain ⟨v, s, hf, hv, hc, hb, hlen, hreclaimed, rfl⟩ := h.exists_view
  have hvalid := (h.valid.addAtEnd hb hq).1.valid
  simp only [Pool.addAtEnd, hf, hreclaimed] at hq
  by_cases hn : n = 0
  · subst hn
    cases hq
    exact h
  rw [if_neg hn] at hq
  change q.Sole b (if n ≤ s.bytes.length - v.stop then
      ⟨v.storage, v.start, v.stop - v.start + n, s.bytes.length - v.stop - n⟩
    else ⟨p.next, startRoom, v.stop - v.start + n, max stopRoom ((v.stop - v.start) / 2)⟩)
  split at hq
  case isTrue hin =>
    cases hq
    rw [if_pos hin.1]
    have := hc.le_stop
    have := hc.stop_le
    have := hc.le_length
    have hfit : v.stop + (Bytes.zeros n).length ≤ s.bytes.length := by
      rw [Bytes.length_zeros]
      omega
    have hlength : (s.write v.stop (Bytes.zeros n)).bytes.length = s.bytes.length := Storage.length_write hfit
    have hsize : v.stop + n - v.start = v.stop - v.start + n := by omega
    rw [← hlength, ← hsize, Nat.sub_sub]
    exact sole_of_insert h.unshared hv hvalid rfl rfl rfl
  case isFalse hout =>
    rw [if_neg fun hle => hout ⟨hle, trivial⟩]
    obtain ⟨-, -, hmoved⟩ := Outcome.bind_eq_ok_iff.1 hq
    cases hmoved
    have hsole := h.valid.sole_relocate hv startRoom (s.slice v.start v.stop ++ Bytes.zeros n)
      (max stopRoom ((s.slice v.start v.stop).length / 2))
    rw [List.length_append, Bytes.length_zeros] at hsole
    rw [← hlen]
    exact hsole

/-- A buffer that is alone stays so: its place grows as places do. -/
theorem Sole.addAt (h : p.Sole b l) (hq : p.addAt e b n = .ok q) : q.Sole b (l.grown e n p.next) := by
  cases e with
  | start => exact h.addAtStart hq
  | stop => exact h.addAtEnd hq

theorem Sole.addAt_ok (h : p.Sole b l) (e : BufferEnd) (hroom : needed l.size n < UInt64.size / 2) :
    ∃ q, p.addAt e b n = .ok q := by
  obtain ⟨v, s, -, -, -, hb, hlen, -, rfl⟩ := h.exists_view
  rw [← hlen] at hroom
  cases e with
  | start => exact h.valid.addAtStart_ok hb hroom
  | stop => exact h.valid.addAtEnd_ok hb hroom

/-! ## Growing many times -/

/-- The buffer grows at an end by one number of bytes after the other. In the steps that find less room at that end than
they need, the bytes of the buffer move; the answer is how many bytes move in all. -/
def addAll (p : Pool) (e : BufferEnd) (b : Buffer) : List Nat → Except Fault (Nat × Pool)
  | [] => .ok (0, p)
  | n :: ns => do
    let q ← p.addAt e b n
    let (moved, r) ← q.addAll e b ns
    return ((if p.margin b e < n then p.size b else 0) + moved, r)

variable {ns : List Nat} {moved : Nat}

/-- Bytes are moved by the first growth if the margin is too small for it, and by the others afterwards. -/
theorem addAll_cons_eq_ok_iff : p.addAll e b (n :: ns) = .ok (moved, q) ↔
    ∃ p₁ rest, p.addAt e b n = .ok p₁ ∧ p₁.addAll e b ns = .ok (rest, q) ∧
      moved = (if p.margin b e < n then p.size b else 0) + rest := by
  rw [addAll]
  constructor
  · intro h
    obtain ⟨p₁, hp₁, h⟩ := Outcome.bind_eq_ok_iff.1 h
    obtain ⟨⟨rest, r⟩, hrest, h⟩ := Outcome.bind_eq_ok_iff.1 h
    cases h
    exact ⟨p₁, rest, hp₁, hrest, rfl⟩
  · rintro ⟨p₁, rest, hp₁, hrest, rfl⟩
    exact Outcome.bind_eq_ok_iff.2 ⟨p₁, hp₁, Outcome.bind_eq_ok_iff.2 ⟨(rest, q), hrest, rfl⟩⟩

/-- A step on the way. -/
theorem exists_step_of_addAll {before after : List Nat} (h : p.addAll e b (before ++ n :: after) = .ok (moved, q)) :
    ∃ m p₁ p₂, p.addAll e b before = .ok (m, p₁) ∧ p₁.addAt e b n = .ok p₂ := by
  induction before generalizing p moved with
  | nil =>
    obtain ⟨p₁, -, hp₁, -⟩ := addAll_cons_eq_ok_iff.1 h
    exact ⟨0, p, p₁, rfl, hp₁⟩
  | cons k before ih =>
    obtain ⟨p', rest, hp', hrest, -⟩ := addAll_cons_eq_ok_iff.1 h
    obtain ⟨m, p₁, p₂, hm, hstep⟩ := ih hrest
    exact ⟨_, p₁, p₂, addAll_cons_eq_ok_iff.2 ⟨p', m, hp', hm, rfl⟩, hstep⟩

/-- By induction on the numbers: what was moved stays paid for. -/
theorem Sole.addAll (h : p.Sole b l) (hq : p.addAll e b ns = .ok (moved, q)) :
    ∃ l', q.Sole b l' ∧ l'.size = l.size + ns.sum ∧ ∀ paid, l.Paid e paid → l'.Paid e (paid + moved) := by
  induction ns generalizing p l moved with
  | nil =>
    cases hq
    exact ⟨l, h, rfl, fun _ hpaid => hpaid⟩
  | cons n ns ih =>
    obtain ⟨p₁, rest, hp₁, hrest, rfl⟩ := addAll_cons_eq_ok_iff.1 hq
    obtain ⟨l', hq, hsize, hpaid⟩ := ih (h.addAt hp₁) hrest
    refine ⟨l', hq, by rw [hsize, Place.size_grown, List.sum_cons, Nat.add_assoc], fun paid hl => ?_⟩
    rw [margin_of_place? h.place, size_of_place? h.place, ← Nat.add_assoc]
    exact hpaid _ (hl.grown n p.next)

theorem Sole.addAll_ok (h : p.Sole b l) (e : BufferEnd) (hroom : needed (l.size + ns.sum) 0 < UInt64.size / 2) :
    ∃ z, p.addAll e b ns = .ok z := by
  induction ns generalizing p l with
  | nil => exact ⟨_, rfl⟩
  | cons n ns ih =>
    rw [List.sum_cons, ← Nat.add_assoc] at hroom
    obtain ⟨p₁, hp₁⟩ := h.addAt_ok e (n := n) (by simp only [needed] at hroom ⊢; omega)
    obtain ⟨⟨rest, q⟩, hrest⟩ := ih (h.addAt hp₁) (by rw [Place.size_grown]; exact hroom)
    exact ⟨_, addAll_cons_eq_ok_iff.2 ⟨p₁, rest, hp₁, hrest, rfl⟩⟩

/-- What becomes of a buffer that grows by `n` bytes at an end and shares its storage with none: it stays in its storage if
there is room at that end, and moves to another one if not. -/
structure Grown (p : Pool) (e : BufferEnd) (b : Buffer) (n : Nat) (q : Pool) : Prop where
  size : q.size b = p.size b + n
  unshared : ¬ q.isShared b
  stays : ¬ p.margin b e < n → (q.view? b).map View.storage = (p.view? b).map View.storage ∧
    q.margin b e + n = p.margin b e ∧ q.margin b e.other = p.margin b e.other
  moves : p.margin b e < n → (q.view? b).map View.storage ≠ (p.view? b).map View.storage ∧
    q.margin b e = max e.room (p.size b / 2)

theorem Sole.grown (h : p.Sole b l) (hq : p.addAt e b n = .ok q) : p.Grown e b n q := by
  have hsole := h.addAt hq
  have hlt : l.storage < p.next := by
    obtain ⟨v, s, -, hv, -, -, -, -, rfl⟩ := h.exists_view
    exact (h.valid.lt_next hv).2
  refine ⟨?_, hsole.unshared, fun hn => ?_, fun hn => ?_⟩
  · rw [size_of_place? hsole.place, size_of_place? h.place, Place.size_grown]
  · rw [margin_of_place? h.place] at hn ⊢
    have hwithin : l.grown e n p.next = l.within n e := if_pos (Nat.not_lt.1 hn)
    rw [hwithin] at hsole
    rw [storage_of_place? hsole.place, storage_of_place? h.place, margin_of_place? hsole.place,
      margin_of_place? hsole.place, margin_of_place? h.place, Place.storage_within, Place.margin_within,
      Place.margin_other_within]
    exact ⟨rfl, Nat.sub_add_cancel (Nat.not_lt.1 hn), rfl⟩
  · rw [margin_of_place? h.place] at hn
    have hanew : l.grown e n p.next = l.anew n p.next e := if_neg (Nat.not_le.2 hn)
    rw [hanew] at hsole
    rw [storage_of_place? hsole.place, storage_of_place? h.place, margin_of_place? hsole.place,
      size_of_place? h.place, Place.storage_anew, Place.margin_anew]
    exact ⟨fun he => absurd (Option.some.inj he) (Nat.ne_of_gt hlt), rfl⟩

end Pool

namespace Handles

open Operations

variable {ρ : Type} {ops : List (BufferOp ρ)} {answers : List (BufferAnswer ρ)} {d : Handles} {i : Nat} {b : Buffer}

theorem valid_of_exec (hd : exec apply empty ops = .ok (answers, d)) : d.Valid :=
  ((keeps_exec (fun _ op hd => Valid.keeps_apply hd op) valid_empty ops).same answers d hd).1

/-- A buffer that shares its storage with none. -/
theorem Valid.exists_sole (h : d.Valid) (hi : d.buffers[i]? = some (some b)) (hs : ¬ d.pool.isShared b) :
    ∃ l, d.pool.Sole b l := by
  obtain ⟨data, hb⟩ := h.live hi
  obtain ⟨v, s, hf, -⟩ := h.valid.exists_view hb
  exact ⟨_, h.valid, hs, congrArg (Option.map _) hf⟩

/-- **Growing at one end copies linearly.** A buffer that shares its storage with none, whatever was done to buffers before,
grows at one end by one number of bytes after the other, unless no byte string can be as long as the storage that is needed.
Where there is room at that end for a number of bytes, the room becomes less by it, and the room at the other end stays.
Only otherwise the bytes of the buffer move, in all at most three times as many as the buffer has in the end. -/
theorem moved_le (hd : exec apply empty ops = .ok (answers, d)) (hi : d.buffers[i]? = some (some b))
    (hs : ¬ d.pool.isShared b) (e : BufferEnd) (ns : List Nat) :
    (Pool.needed (d.pool.size b + ns.sum) 0 < UInt64.size / 2 → ∃ z, d.pool.addAll e b ns = .ok z) ∧
      ∀ moved q, d.pool.addAll e b ns = .ok (moved, q) →
        moved ≤ 3 * q.size b ∧ q.size b = d.pool.size b + ns.sum ∧ ¬ q.isShared b ∧
          ∀ before n after, ns = before ++ n :: after →
            ∃ m p₁ p₂, d.pool.addAll e b before = .ok (m, p₁) ∧ p₁.addAt e b n = .ok p₂ ∧ p₁.Grown e b n p₂ := by
  obtain ⟨l, hl⟩ := (valid_of_exec hd).exists_sole hi hs
  rw [Pool.size_of_place? hl.place]
  refine ⟨hl.addAll_ok e, fun moved q hq => ?_⟩
  obtain ⟨l', hl', hsize, hpaid⟩ := hl.addAll hq
  have hmoved := (hpaid 0 (Place.paid_zero l e)).size
  rw [Nat.zero_add] at hmoved
  rw [Pool.size_of_place? hl'.place]
  refine ⟨hmoved, hsize, hl'.unshared, ?_⟩
  rintro before n after rfl
  obtain ⟨m, p₁, p₂, hm, hstep⟩ := Pool.exists_step_of_addAll hq
  obtain ⟨l₁, hl₁, -⟩ := hl.addAll hm
  exact ⟨m, p₁, p₂, hm, hstep, hl₁.grown hstep⟩

/-- A buffer with a copy that was dropped. -/
def onceCopied : List (BufferOp Unit) := [.ofBytes [1, 2, 3], .clone 0, .drop 1]

/-- Numbers of bytes for which there is no room. -/
theorem moved_le_onceCopied :
    ∃ d q, exec apply empty onceCopied = .ok ([.ok none, .ok none, .ok none], d) ∧
      d.pool.addAll .stop ⟨1⟩ [33, 33] = .ok (3 + 36, q) ∧ 3 + 36 ≤ 3 * q.size ⟨1⟩ := by
  refine ⟨_, _, rfl, rfl, ?_⟩
  exact ((moved_le (show exec apply empty onceCopied = .ok (_, _) from rfl) (i := 0) rfl (by decide) .stop [33, 33]).2
    _ _ rfl).1

end Handles

end SimKernel
