import SimKernel.Bytes.Basic
import SimKernel.Packet.Tags

/-!
# Tagged bytes

Byte tags and bytes together are a list of bytes, each with the tags that cover it, oldest first (`ByteTags.cover`). Moving
and clipping tags along with the bytes comes to the operation on that list: `cover_shift`, `cover_clip`,
`cover_append`, `cover_add`. At the end of the bytes this takes tags that lie inside them (`ByteTags.Within`), which all
of these operations keep.
-/

namespace SimKernel

variable {τ : Type}

/-- Bytes, each with the tags that cover it. -/
abbrev Tagged (τ : Type) := List (UInt8 × List τ)

/-- Bytes without tags. -/
def Tagged.plain (data : Bytes) : Tagged τ := data.map fun b => (b, [])

/-- The bytes with a further tag on those from `start` up to `stop`. -/
def Tagged.mark (v : Tagged τ) (tag : τ) (start stop : Nat) : Tagged τ :=
  v.mapIdx fun i x => if start ≤ i ∧ i < stop then (x.1, x.2 ++ [tag]) else x

namespace ByteTags

variable {ts us : ByteTags τ} {data more : Bytes} {start stop n i : Nat}

/-- The tags on one byte, oldest first. -/
def covering (ts : ByteTags τ) (i : Nat) : List τ :=
  ts.filterMap fun t => if t.start ≤ i ∧ i < t.stop then some t.tag else none

/-- The bytes with their tags. -/
def cover (ts : ByteTags τ) (data : Bytes) : Tagged τ :=
  data.mapIdx fun i b => (b, ts.covering i)

/-- The tags are on some of the first `n` bytes, and on no others. -/
def Within (ts : ByteTags τ) (n : Nat) : Prop :=
  ∀ t ∈ ts, t.start < t.stop ∧ t.stop ≤ n

/-! ## Single bytes -/

theorem covering_append (ts us : ByteTags τ) (i : Nat) : covering (ts ++ us) i = ts.covering i ++ us.covering i :=
  List.filterMap_append

/-- Tags that were moved by `n` are on the byte `n` places further on. -/
theorem covering_shift (ts : ByteTags τ) (n i : Nat) :
    (ts.shift n).covering i = if n ≤ i then ts.covering (i - n) else [] := by
  unfold covering shift
  rw [List.filterMap_map]
  split
  case isTrue hle =>
    congr 1
    funext t
    have : t.start + n ≤ i ∧ i < t.stop + n ↔ t.start ≤ i - n ∧ i - n < t.stop := by omega
    simp only [Function.comp_apply, this]
  case isFalse hlt =>
    refine List.filterMap_eq_nil_iff.2 fun t _ => if_neg ?_
    dsimp only
    omega

/-- A part of the bytes has the tags that it had in the whole. -/
theorem covering_clip (hi : i < stop - start) : (ts.clip start stop).covering i = ts.covering (start + i) := by
  unfold covering clip
  rw [List.filterMap_filterMap]
  congr 1
  funext t
  unfold clipOne
  dsimp only
  split
  case isTrue h =>
    have : max t.start start - start ≤ i ∧ i < min t.stop stop - start ↔ t.start ≤ start + i ∧ start + i < t.stop := by
      omega
    simp only [Option.bind_some, this]
  case isFalse h =>
    rw [if_neg (by omega)]
    rfl

/-- Beyond the bytes there are no tags. -/
theorem Within.covering_eq_nil (h : ts.Within n) (hi : n ≤ i) : ts.covering i = [] := by
  refine List.filterMap_eq_nil_iff.2 fun t ht => if_neg ?_
  have := h t ht
  omega

/-! ## Tags inside the bytes -/

theorem within_nil (n : Nat) : Within ([] : ByteTags τ) n := fun _ h => absurd h List.not_mem_nil

/-- With more bytes the tags are still on bytes. -/
theorem Within.mono {m : Nat} (h : ts.Within n) (hle : n ≤ m) : ts.Within m :=
  fun t ht => ⟨(h t ht).1, Nat.le_trans (h t ht).2 hle⟩

theorem Within.append (h : ts.Within n) (h' : us.Within n) : Within (ts ++ us) n :=
  fun t ht => (List.mem_append.1 ht).elim (h t) (h' t)

/-- Tags that move along with `m` bytes lie inside them and what was put before them. -/
theorem Within.shift {m : Nat} (h : ts.Within m) (n : Nat) : (ts.shift n).Within (n + m) := by
  intro t ht
  obtain ⟨t', ht', rfl⟩ := List.mem_map.1 ht
  have := h t' ht'
  dsimp only
  omega

/-- A tag of which nothing is left by clipping is gone, so none is empty. -/
theorem within_clip (ts : ByteTags τ) (h : stop - start ≤ n) : (ts.clip start stop).Within n := by
  intro t ht
  obtain ⟨t', -, he⟩ := List.mem_filterMap.1 ht
  unfold clipOne at he
  dsimp only at he
  split at he
  · cases he
    dsimp only
    omega
  · cases he

theorem within_singleton (tag : τ) (h : start < stop) (hle : stop ≤ n) : Within [⟨tag, start, stop⟩] n := by
  intro t ht
  cases List.mem_singleton.1 ht
  exact ⟨h, hle⟩

/-! ## Lists of bytes -/

theorem getElem?_cover (ts : ByteTags τ) (data : Bytes) (i : Nat) :
    (ts.cover data)[i]? = data[i]?.map fun b => (b, ts.covering i) :=
  List.getElem?_mapIdx

theorem length_cover (ts : ByteTags τ) (data : Bytes) : (ts.cover data).length = data.length :=
  List.length_mapIdx

/-- Without the tags they are the bytes again. -/
theorem map_fst_cover (ts : ByteTags τ) (data : Bytes) : (ts.cover data).map Prod.fst = data := by
  apply List.ext_getElem?
  intro i
  rw [List.getElem?_map, getElem?_cover, Option.map_map]
  cases data[i]? <;> rfl

theorem cover_nil_tags (data : Bytes) : cover ([] : ByteTags τ) data = Tagged.plain data := by
  apply List.ext_getElem?
  intro i
  rw [getElem?_cover, Tagged.plain, List.getElem?_map]
  rfl

/-- Bytes without tags before the others. -/
theorem cover_shift (ts : ByteTags τ) (new data : Bytes) :
    (ts.shift new.length).cover (new ++ data) = Tagged.plain new ++ ts.cover data := by
  apply List.ext_getElem?
  intro i
  have hlen : (Tagged.plain new : Tagged τ).length = new.length := List.length_map _
  rw [getElem?_cover, covering_shift]
  by_cases hi : i < new.length
  · rw [List.getElem?_append_left hi, List.getElem?_append_left (by omega), if_neg (by omega), Tagged.plain,
      List.getElem?_map]
  · rw [List.getElem?_append_right (by omega), List.getElem?_append_right (by omega), if_pos (by omega), hlen,
      getElem?_cover]

/-- A part of the bytes, with the parts of the tags on it. -/
theorem cover_clip (ts : ByteTags τ) (data : Bytes) (start length : Nat) :
    (ts.clip start (start + length)).cover ((data.drop start).take length) =
      ((ts.cover data).drop start).take length := by
  apply List.ext_getElem?
  intro i
  rw [getElem?_cover, List.getElem?_take, List.getElem?_take]
  split
  case isTrue hi => rw [covering_clip (by omega), List.getElem?_drop, List.getElem?_drop, getElem?_cover]
  case isFalse => rfl

/-- Taking bytes off the start. -/
theorem cover_clip_drop (ts : ByteTags τ) (data : Bytes) (n : Nat) :
    (ts.clip n (n + (data.length - n))).cover (data.drop n) = (ts.cover data).drop n := by
  have hclip := cover_clip ts data n (data.length - n)
  have hlen : ((ts.cover data).drop n).length = data.length - n := by rw [List.length_drop, length_cover]
  rwa [List.take_of_length_le (Nat.le_of_eq List.length_drop), List.take_of_length_le (Nat.le_of_eq hlen)] at hclip

/-- Taking bytes off the end. -/
theorem cover_clip_take (ts : ByteTags τ) (data : Bytes) (n : Nat) :
    (ts.clip 0 n).cover (data.take n) = (ts.cover data).take n := by
  have hclip := cover_clip ts data 0 n
  rwa [Nat.zero_add, List.drop_zero, List.drop_zero] at hclip

/-- The bytes of another list after those of the first, with the tags on them. -/
theorem cover_append (h : ts.Within data.length) (us : ByteTags τ) (more : Bytes) :
    cover (ts ++ us.shift data.length) (data ++ more) = ts.cover data ++ us.cover more := by
  apply List.ext_getElem?
  intro i
  rw [getElem?_cover, covering_append, covering_shift]
  by_cases hi : i < data.length
  · rw [List.getElem?_append_left hi, List.getElem?_append_left (by rwa [length_cover]), if_neg (by omega),
      List.append_nil, getElem?_cover]
  · rw [List.getElem?_append_right (by omega), List.getElem?_append_right (by rw [length_cover]; omega),
      if_pos (by omega), h.covering_eq_nil (by omega), List.nil_append, length_cover, getElem?_cover]

/-- Bytes without tags after the others: no tag reaches beyond the end, so none gets on them. -/
theorem cover_append_plain (h : ts.Within data.length) (more : Bytes) :
    ts.cover (data ++ more) = ts.cover data ++ Tagged.plain more := by
  have happ := cover_append h [] more
  rwa [show shift ([] : ByteTags τ) data.length = [] from rfl, List.append_nil, cover_nil_tags] at happ

/-- A further tag on a range. -/
theorem cover_add (ts : ByteTags τ) (tag : τ) (start stop : Nat) (data : Bytes) :
    cover (ts ++ [⟨tag, start, stop⟩]) data = (ts.cover data).mark tag start stop := by
  apply List.ext_getElem?
  intro i
  rw [getElem?_cover, Tagged.mark, List.getElem?_mapIdx, getElem?_cover, covering_append, Option.map_map]
  congr 1
  funext b
  simp only [Function.comp_apply]
  split
  case isTrue h => simp [covering, h]
  case isFalse h => simp [covering, h]

end ByteTags

end SimKernel
