import SimKernel.Proofs.Buffer.Owners
import SimKernel.Proofs.Operations
import SimKernel.Proofs.Packet.Cover
import SimKernel.Proofs.Packet.Headers

/-!
# Packets are lists of tagged bytes

Operations on any number of packets (`Packets.apply`), and the same operations on lists of bytes with their tags, of which
each packet has one of its own (`TaggedValues.apply`). Packets show the tagged bytes that the independent lists do, and
every operation has the same answer; at every time all tags lie inside their packets, and packets get ever greater
numbers (`exec_eq_tagged`).
-/

namespace SimKernel

variable {τ : Type}

/-- The bytes of the packet with the tags on them. -/
def Packet.tagged (p : Packet τ) (s : PacketStore) : Tagged τ := p.byteTags.cover (p.bytes s)

/-- Operations on packets, which are named by their places in the order in which they were made. -/
inductive PacketOp (τ : Type) : Type 1 where
  | ofBytes (data : Bytes)
  | ofSize (n : Nat)
  | copy (i : Nat)
  | fragment (i start length : Nat)
  | addHeader {β : Type} (i : Nat) (c : Codec β) (header : β)
  | removeHeader {β : Type} (i : Nat) (c : Codec β)
  | addTrailer {β : Type} (i : Nat) (c : Codec β) (trailer : β)
  | removeTrailer {β : Type} (i : Nat) (c : Codec β)
  | removeAtStart (i n : Nat)
  | removeAtEnd (i n : Nat)
  | addPadding (i n : Nat)
  | append (i j : Nat)
  | addByteTag (i : Nat) (tag : τ)
  | addByteTagRange (i : Nat) (tag : τ) (start stop : Nat)
  | clearByteTags (i : Nat)
  | drop (i : Nat)
  | resetUids

/-- The answer of an operation, which is the header or trailer that was removed if there is one. -/
abbrev PacketAnswer : Type 1 := Except PacketError (Option (Σ β : Type, β))

/-! ## Tagged bytes of their own -/

/-- The tagged bytes of every packet, and none for packets that were dropped. -/
abbrev TaggedValues (τ : Type) := List (Option (Tagged τ))

namespace TaggedValues

open Operations

/-- One operation on independent lists; an operation on a packet that was dropped changes nothing. -/
def apply (vs : TaggedValues τ) : PacketOp τ → PacketAnswer × TaggedValues τ
  | .ofBytes data => (.ok none, vs ++ [some (Tagged.plain data)])
  | .ofSize n => (.ok none, vs ++ [some (Tagged.plain (Bytes.zeros n))])
  | .copy i => onEntry vs i (.ok none, vs) fun v => (.ok none, vs ++ [some v])
  | .fragment i start length => onEntry vs i (.ok none, vs) fun v =>
    if start + length ≤ v.length then (.ok none, vs ++ [some ((v.drop start).take length)])
    else (.error (.buffer (.outOfBounds start length v.length)), vs)
  | .addHeader i c header => onEntry vs i (.ok none, vs) fun v =>
    match c.fill header (Bytes.zeros (c.size header)) with
    | .ok new => (.ok none, vs.set i (some (Tagged.plain new ++ v)))
    | .error e => (.error e, vs)
  | .removeHeader i c => onEntry vs i (.ok none, vs) fun v =>
    match c.readStart (v.map Prod.fst) with
    | .ok (header, n) => (.ok (some ⟨_, header⟩), vs.set i (some (v.drop n)))
    | .error e => (.error e, vs)
  | .addTrailer i c trailer => onEntry vs i (.ok none, vs) fun v =>
    match c.fill trailer (Bytes.zeros (c.size trailer)) with
    | .ok new => (.ok none, vs.set i (some (v ++ Tagged.plain new)))
    | .error e => (.error e, vs)
  | .removeTrailer i c => onEntry vs i (.ok none, vs) fun v =>
    match c.readEnd (v.map Prod.fst) with
    | .ok (trailer, n) => (.ok (some ⟨_, trailer⟩), vs.set i (some (v.take (v.length - n))))
    | .error e => (.error e, vs)
  | .removeAtStart i n => onEntry vs i (.ok none, vs) fun v =>
    if n ≤ v.length then (.ok none, vs.set i (some (v.drop n))) else (.error (.buffer (.underflow n v.length)), vs)
  | .removeAtEnd i n => onEntry vs i (.ok none, vs) fun v =>
    if n ≤ v.length then (.ok none, vs.set i (some (v.take (v.length - n))))
    else (.error (.buffer (.underflow n v.length)), vs)
  | .addPadding i n => onEntry vs i (.ok none, vs) fun v =>
    (.ok none, vs.set i (some (v ++ Tagged.plain (Bytes.zeros n))))
  | .append i j => onEntry vs i (.ok none, vs) fun v => onEntry vs j (.ok none, vs) fun w =>
    (.ok none, vs.set i (some (v ++ w)))
  | .addByteTag i tag => onEntry vs i (.ok none, vs) fun v =>
    if 0 < v.length then (.ok none, vs.set i (some (v.mark tag 0 v.length)))
    else (.error (.tagRangeOutOfBounds 0 v.length v.length), vs)
  | .addByteTagRange i tag start stop => onEntry vs i (.ok none, vs) fun v =>
    if start < stop ∧ stop ≤ v.length then (.ok none, vs.set i (some (v.mark tag start stop)))
    else (.error (.tagRangeOutOfBounds start stop v.length), vs)
  | .clearByteTags i => onEntry vs i (.ok none, vs) fun v =>
    (.ok none, vs.set i (some (Tagged.plain (v.map Prod.fst))))
  | .drop i => onEntry vs i (.ok none, vs) fun _ => (.ok none, vs.set i none)
  | .resetUids => (.ok none, vs)

/-- The storage that the operation needs at most is no longer than a byte string can be. -/
def Fits (vs : TaggedValues τ) : PacketOp τ → Prop
  | .ofSize n => n < UInt64.size / 2
  | .addHeader i c value | .addTrailer i c value =>
    ∀ v, vs[i]?.join = some v → Pool.needed v.length (c.size value) < UInt64.size / 2
  | .addPadding i n => ∀ v, vs[i]?.join = some v → Pool.needed v.length n < UInt64.size / 2
  | .append i j =>
    ∀ v w, vs[i]?.join = some v → vs[j]?.join = some w → Pool.needed v.length w.length < UInt64.size / 2
  | _ => True

end TaggedValues

/-! ## Packets in a store -/

/-- A store with the packets made in it, and none for those that were dropped. -/
structure Packets (τ : Type) where
  store : PacketStore
  packets : List (Option (Packet τ))
  /-- The numbers of the packets made since numbering last began anew. -/
  issued : List Nat

namespace Packets

open Operations

def empty : Packets τ := ⟨PacketStore.empty, [], []⟩

/-- The tagged bytes of every packet. -/
def values (w : Packets τ) : TaggedValues τ := w.packets.map (Option.map fun p => p.tagged w.store)

/-- A packet and the store after an operation on it. -/
def put (w : Packets τ) (i : Nat) (p : Packet τ) (s : PacketStore) : Packets τ :=
  { w with store := s, packets := w.packets.set i (some p) }

/-- A further packet. -/
def make (w : Packets τ) (made : Packet τ × PacketStore) : Packets τ :=
  ⟨made.2, w.packets ++ [some made.1], w.issued ++ [made.1.uid]⟩

/-- The packets after an operation that may have been refused. -/
def settle {σ : Type} (w : Packets τ) (x : Except PacketError σ) (f : σ → Packets τ) : PacketAnswer × Packets τ :=
  match x with
  | .ok y => (.ok none, f y)
  | .error e => (.error e, w)

/-- The packets after a value was removed from one of them. -/
def settleRemoved {β : Type} (w : Packets τ) (i : Nat) (x : Except PacketError (β × Packet τ × PacketStore)) :
    PacketAnswer × Packets τ :=
  match x with
  | .ok (value, p, s) => (.ok (some ⟨_, value⟩), w.put i p s)
  | .error e => (.error e, w)

/-- What is done with a packet; an operation on a packet that was dropped changes nothing. -/
def on (w : Packets τ) (i : Nat) (f : Packet τ → Except Fault (PacketAnswer × Packets τ)) :
    Except Fault (PacketAnswer × Packets τ) :=
  onEntry w.packets i (.ok (.ok none, w)) f

/-- One operation on packets. -/
def apply (w : Packets τ) : PacketOp τ → Except Fault (PacketAnswer × Packets τ)
  | .ofBytes data => .ok (.ok none, w.make (Packet.ofBytes w.store data))
  | .ofSize n => (Packet.ofSize w.store n).map fun made => (.ok none, w.make made)
  | .copy i => w.on i fun p => .ok (.ok none, w.make (p.copy w.store))
  | .fragment i start length => w.on i fun p => .ok (w.settle (p.fragment w.store start length) w.make)
  | .addHeader i c header => w.on i fun p =>
    (p.addHeader w.store c header).map fun x => (w.put i p x.2).settle x.1 fun p' => w.put i p' x.2
  | .removeHeader i c => w.on i fun p => .ok (w.settleRemoved i (p.removeHeader w.store c))
  | .addTrailer i c trailer => w.on i fun p =>
    (p.addTrailer w.store c trailer).map fun x => (w.put i p x.2).settle x.1 fun _ => w.put i p x.2
  | .removeTrailer i c => w.on i fun p => .ok (w.settleRemoved i (p.removeTrailer w.store c))
  | .removeAtStart i n => w.on i fun p => .ok (w.settle (p.removeAtStart w.store n) fun x => w.put i x.1 x.2)
  | .removeAtEnd i n => w.on i fun p => .ok (w.settle (p.removeAtEnd w.store n) fun x => w.put i x.1 x.2)
  | .addPadding i n => w.on i fun p => (p.addPadding w.store n).map fun s => (.ok none, w.put i p s)
  | .append i j => w.on i fun p => w.on j fun other =>
    (p.append other w.store).map fun x => (.ok none, w.put i x.1 x.2)
  | .addByteTag i tag => w.on i fun p => .ok (w.settle (p.addByteTag w.store tag) fun p' => w.put i p' w.store)
  | .addByteTagRange i tag start stop => w.on i fun p =>
    .ok (w.settle (p.addByteTagRange w.store tag start stop) fun p' => w.put i p' w.store)
  | .clearByteTags i => w.on i fun p => .ok (.ok none, w.put i p.clearByteTags w.store)
  | .drop i => w.on i fun p => .ok (.ok none, { w with store := p.drop w.store, packets := w.packets.set i none })
  | .resetUids => .ok (.ok none, { w with store := w.store.resetUids, issued := [] })

/-- Packets have live buffers of their own and tags inside their bytes, and further numbers are greater. -/
structure Valid (w : Packets τ) : Prop where
  holds : w.store.pool.Holds Packet.buffer w.packets
  within : ∀ {i : Nat} {p data}, w.packets[i]? = some (some p) → w.store.pool.contents p.buffer = some data →
    p.byteTags.Within data.length
  increasing : w.issued.Pairwise (· < ·)
  lt_next : ∀ u ∈ w.issued, u < w.store.nextUid

theorem valid_empty : (empty : Packets τ).Valid where
  holds := Pool.holds_nil Pool.valid_empty
  within h := by simp [empty] at h
  increasing := .nil
  lt_next _ h := absurd h List.not_mem_nil

/-! ## Changes of one packet -/

variable {w : Packets τ} {i : Nat} {p p' : Packet τ} {data : Bytes} {pool : Pool}

theorem tagged_eq {s : PacketStore} (hb : s.pool.contents p.buffer = some data) : p.tagged s = p.byteTags.cover data :=
  congrArg p.byteTags.cover (Pool.bytes_eq hb)

theorem tagged_congr {s s' : PacketStore} (hb : s'.pool.contents p.buffer = s.pool.contents p.buffer) :
    p.tagged s' = p.tagged s :=
  congrArg p.byteTags.cover (Pool.bytes_congr hb)

theorem Valid.sets (h : w.Valid) (hi : w.packets[i]? = some (some p)) (hbuffer : p'.buffer = p.buffer)
    (hset : w.store.pool.Sets p.buffer (some data) pool) (hwithin : p'.byteTags.Within data.length) :
    (w.put i p' { w.store with pool }).Valid ∧
      (w.put i p' { w.store with pool }).values = w.values.set i (some (p'.byteTags.cover data)) := by
  have hothers := h.holds.others hi hset
  have hp' : pool.contents p'.buffer = some data := by rw [hbuffer, hset.self]
  constructor
  · refine ⟨h.holds.sets hi hbuffer hset, ?_, h.increasing, h.lt_next⟩
    intro j q bytes hj hb
    dsimp only [put] at hj hb
    rcases getElem?_set_cases hj with ⟨-, ⟨⟩⟩ | ⟨hne, hj⟩
    · cases hp'.symm.trans hb
      exact hwithin
    · exact h.within hj ((hothers j q hne hj).symm.trans hb)
  · have hvalues := map_set_of_agree (i := i) (fun q : Packet τ => q.tagged w.store)
      (fun q : Packet τ => q.tagged { w.store with pool }) (some p') fun j q hne hj => tagged_congr (hothers j q hne hj)
    refine hvalues.trans ?_
    rw [Option.map_some, tagged_eq (s := { w.store with pool }) hp']
    rfl

/-- A change of tags only. -/
theorem Valid.retag (h : w.Valid) (hi : w.packets[i]? = some (some p)) (hb : w.store.pool.contents p.buffer = some data)
    (hbuffer : p'.buffer = p.buffer) (hwithin : p'.byteTags.Within data.length) :
    (w.put i p' w.store).Valid ∧ (w.put i p' w.store).values = w.values.set i (some (p'.byteTags.cover data)) :=
  h.sets hi hbuffer (hb ▸ h.holds.valid.sets_self p.buffer) hwithin

/-- A new packet, whose number is greater than those of the others. -/
theorem Valid.makes (h : w.Valid) {made : Buffer × Pool} (hm : w.store.pool.Makes made data) (hbuffer : p'.buffer = made.1)
    (huid : p'.uid = w.store.nextUid) (hwithin : p'.byteTags.Within data.length) :
    (w.make (p', ⟨made.2, w.store.nextUid + 1⟩)).Valid ∧
      (w.make (p', ⟨made.2, w.store.nextUid + 1⟩)).values = w.values ++ [some (p'.byteTags.cover data)] := by
  have hothers := h.holds.others_of_makes hm
  have hp' : made.2.contents p'.buffer = some data := by rw [hbuffer, hm.self]
  refine ⟨⟨h.holds.makes hm hbuffer, ?_, ?_, ?_⟩, ?_⟩
  · intro j q bytes hj hb
    dsimp only [make] at hj hb
    rcases getElem?_append_cases hj with ⟨-, rfl⟩ | hj
    · cases hp'.symm.trans hb
      exact hwithin
    · exact h.within hj ((hothers j q hj).2.symm.trans hb)
  · refine List.pairwise_append.2 ⟨h.increasing, List.pairwise_singleton _ _, ?_⟩
    intro u hu u' hu'
    rw [List.mem_singleton.1 hu', huid]
    exact h.lt_next u hu
  · intro u hu
    rcases List.mem_append.1 hu with hu | hu
    · exact Nat.lt_succ_of_lt (h.lt_next u hu)
    · rw [List.mem_singleton.1 hu, huid]
      exact Nat.lt_succ_self _
  · have hvalues := map_append_of_agree (fun q : Packet τ => q.tagged w.store)
      (fun q : Packet τ => q.tagged ⟨made.2, w.store.nextUid + 1⟩) p' fun j q hj => tagged_congr (hothers j q hj).2
    refine hvalues.trans ?_
    rw [tagged_eq (s := ⟨made.2, w.store.nextUid + 1⟩) hp']
    rfl

theorem Valid.drops (h : w.Valid) (hi : w.packets[i]? = some (some p))
    (hset : w.store.pool.Sets p.buffer none pool) :
    ({ w with store := { w.store with pool }, packets := w.packets.set i none } : Packets τ).Valid ∧
      ({ w with store := { w.store with pool }, packets := w.packets.set i none } : Packets τ).values =
        w.values.set i none := by
  have hothers := h.holds.others hi hset
  constructor
  · refine ⟨h.holds.drops hi hset, ?_, h.increasing, h.lt_next⟩
    intro j q bytes hj hb
    dsimp only at hj hb
    rcases getElem?_set_cases hj with ⟨-, ⟨⟩⟩ | ⟨hne, hj⟩
    exact h.within hj ((hothers j q hne hj).symm.trans hb)
  · refine map_set_of_agree _ _ none ?_
    intro j q hne hj
    exact tagged_congr (hothers j q hne hj)

/-! ## Single operations -/

/-- An operation on a packet is one on a live buffer, with tags inside its bytes that the packet shows. -/
theorem Valid.keeps_on (h : w.Valid) {fits : Prop} {f : Packet τ → Except Fault (PacketAnswer × Packets τ)}
    {g : Tagged τ → PacketAnswer × TaggedValues τ}
    (hf : ∀ p data, w.packets[i]? = some (some p) → w.store.pool.contents p.buffer = some data →
      p.byteTags.Within data.length → w.values[i]?.join = some (p.byteTags.cover data) →
      Keeps Valid values (f p) (g (p.byteTags.cover data)) fits) :
    Keeps Valid values (w.on i f) (onEntry w.values i (.ok none, w.values) g) fits :=
  keeps_onEntry ⟨h, rfl⟩ rfl fun p hi hv => by
    obtain ⟨data, hb⟩ := h.holds.live hi
    rw [tagged_eq hb] at hv ⊢
    exact hf p data hi hb (h.within hi hb) hv

/-- An operation that was refused left everything as it was. -/
theorem Valid.unchanged (h : w.Valid) (hi : w.packets[i]? = some (some p))
    (hset : w.store.pool.Sets p.buffer (some data) pool) (hwithin : p.byteTags.Within data.length)
    (hv : w.values[i]?.join = some (p.byteTags.cover data)) :
    (w.put i p { w.store with pool }).Valid ∧ (w.put i p { w.store with pool }).values = w.values := by
  have hsets := h.sets hi rfl hset hwithin
  rwa [set_eq_self (Option.join_eq_some_iff.1 hv)] at hsets

theorem Valid.removeAtStart (h : w.Valid) (hi : w.packets[i]? = some (some p))
    (hb : w.store.pool.contents p.buffer = some data) {n : Nat} (hle : n ≤ data.length) :
    ∃ x, p.removeAtStart w.store n = .ok x ∧ (w.put i x.1 x.2).Valid ∧
      (w.put i x.1 x.2).values = w.values.set i (some ((p.byteTags.cover data).drop n)) := by
  obtain ⟨pool, hx, hset⟩ := Packet.removeAtStart_eq h.holds.valid hb hle
  refine ⟨_, hx, ?_⟩
  rw [← ByteTags.cover_clip_drop]
  exact h.sets hi rfl hset (p.byteTags.within_clip (by rw [List.length_drop]; omega))

theorem Valid.removeAtEnd (h : w.Valid) (hi : w.packets[i]? = some (some p))
    (hb : w.store.pool.contents p.buffer = some data) {n : Nat} (hle : n ≤ data.length) :
    ∃ x, p.removeAtEnd w.store n = .ok x ∧ (w.put i x.1 x.2).Valid ∧
      (w.put i x.1 x.2).values = w.values.set i (some ((p.byteTags.cover data).take (data.length - n))) := by
  obtain ⟨pool, hx, hset⟩ := Packet.removeAtEnd_eq h.holds.valid hb hle
  refine ⟨_, hx, ?_⟩
  rw [← ByteTags.cover_clip_take]
  exact h.sets hi rfl hset (p.byteTags.within_clip (by rw [List.length_take]; omega))

theorem Valid.addByteTagRange (h : w.Valid) {fits : Prop} (hi : w.packets[i]? = some (some p))
    (hb : w.store.pool.contents p.buffer = some data) (hwithin : p.byteTags.Within data.length) (tag : τ)
    (start stop : Nat) :
    Keeps Valid values (.ok (w.settle (p.addByteTagRange w.store tag start stop) fun p' => w.put i p' w.store))
      (if start < stop ∧ stop ≤ data.length then
        (.ok none, w.values.set i (some ((p.byteTags.cover data).mark tag start stop)))
      else (.error (.tagRangeOutOfBounds start stop data.length), w.values)) fits := by
  have hsize : p.size w.store = data.length := h.holds.valid.size_eq hb
  unfold Packet.addByteTagRange
  rw [hsize]
  split
  case isTrue hr =>
    rw [← ByteTags.cover_add]
    exact keeps_ok _ (h.retag hi hb rfl (hwithin.append (ByteTags.within_singleton tag hr.1 hr.2)))
  case isFalse => exact keeps_ok _ ⟨h, rfl⟩

/-- The operation on packets is the operation on the lists of tagged bytes. -/
abbrev Agrees (w : Packets τ) (op : PacketOp τ) : Prop :=
  Keeps Valid values (w.apply op) (w.values.apply op) (w.values.Fits op)

/-- A new packet has the bytes, and no tags. -/
theorem Valid.keeps_ofBytes (h : w.Valid) (data : Bytes) : w.Agrees (.ofBytes data) := by
  unfold Agrees
  rw [TaggedValues.apply, ← ByteTags.cover_nil_tags]
  exact keeps_ok _ (h.makes (h.holds.valid.ofBytes data) rfl rfl (ByteTags.within_nil _))

/-- A new packet is all zeros, and there is one unless so many bytes are no byte string. -/
theorem Valid.keeps_ofSize (h : w.Valid) (n : Nat) : w.Agrees (.ofSize n) := by
  have hp : w.store.pool.Valid := h.holds.valid
  unfold Agrees
  rw [TaggedValues.apply, ← ByteTags.cover_nil_tags]
  refine keeps_map (fun hf => ⟨_, by rw [Packet.ofSize, Pool.ofSize_eq_ok_iff.2 ⟨hf, rfl⟩]; rfl⟩) fun made hm => ?_
  cases hs : w.store.pool.ofSize n with
  | error f => rw [Packet.ofSize, hs] at hm; cases hm
  | ok x =>
    rw [Packet.ofSize, hs] at hm
    cases hm
    obtain ⟨-, rfl⟩ := Pool.ofSize_eq_ok_iff.1 hs
    exact keeps_ok _ (h.makes (hp.ofBytes (Bytes.zeros n)) rfl rfl (ByteTags.within_nil _))

/-- A fragment is a stretch of the packet with the tags on it, unless it sticks out. -/
theorem Valid.keeps_fragment (h : w.Valid) (i start length : Nat) : w.Agrees (.fragment i start length) := by
  have hp : w.store.pool.Valid := h.holds.valid
  refine h.keeps_on ?_
  intro p data hi hb hw _
  rw [ByteTags.length_cover]
  by_cases hle : start + length ≤ data.length
  · obtain ⟨made, hm, hmakes⟩ := hp.fragment hb hle
    rw [Packet.fragment, hm, if_pos hle, ← ByteTags.cover_clip]
    refine keeps_ok _ (h.makes hmakes rfl rfl (p.byteTags.within_clip ?_))
    rw [List.length_take, List.length_drop]
    omega
  · rw [Packet.fragment, hp.fragment_of_lt hb hle, if_neg hle]
    exact keeps_ok _ ⟨h, rfl⟩

/-- The bytes that the codec writes come before the packet, and move its tags. A header that the codec refuses leaves the
packet as it was. -/
theorem Valid.keeps_addHeader (h : w.Valid) {β : Type} (i : Nat) (c : Codec β) (header : β) :
    w.Agrees (.addHeader i c header) := by
  have hp : w.store.pool.Valid := h.holds.valid
  refine h.keeps_on fun p data hi hb hw hv => keeps_map (fun hf => ?_) fun x hx => ?_
  · have hroom := hf _ hv
    rw [ByteTags.length_cover] at hroom
    exact Packet.addHeader_ok hp hb c header hroom
  cases hf : c.fill header (Bytes.zeros (c.size header)) with
  | ok new =>
    obtain ⟨pool, rfl, hset⟩ := Packet.addHeader_of_fill_ok hp hb hf hx
    have hlen : new.length = c.size header := (Codec.length_fill hf).trans (Bytes.length_zeros _)
    dsimp only
    rw [← ByteTags.cover_shift, hlen]
    refine keeps_ok _ (h.sets hi rfl hset ?_)
    rw [List.length_append, hlen]
    exact hw.shift (c.size header)
  | error e =>
    obtain ⟨pool, rfl, hset⟩ := Packet.addHeader_of_fill_error hp hb hf hx
    exact keeps_ok _ (h.unchanged hi hset hw hv)

/-- The bytes that the codec writes come after the packet, whose tags stay where they are. -/
theorem Valid.keeps_addTrailer (h : w.Valid) {β : Type} (i : Nat) (c : Codec β) (trailer : β) :
    w.Agrees (.addTrailer i c trailer) := by
  have hp : w.store.pool.Valid := h.holds.valid
  refine h.keeps_on fun p data hi hb hw hv => keeps_map (fun hf => ?_) fun x hx => ?_
  · have hroom := hf _ hv
    rw [ByteTags.length_cover] at hroom
    exact Packet.addTrailer_ok hp hb c trailer hroom
  cases hf : c.fill trailer (Bytes.zeros (c.size trailer)) with
  | ok new =>
    obtain ⟨pool, rfl, hset⟩ := Packet.addTrailer_of_fill_ok hp hb hf hx
    dsimp only
    rw [← ByteTags.cover_append_plain hw]
    refine keeps_ok _ (h.sets hi rfl hset (hw.mono ?_))
    rw [List.length_append]
    exact Nat.le_add_right _ _
  | error e =>
    obtain ⟨pool, rfl, hset⟩ := Packet.addTrailer_of_fill_error hp hb hf hx
    exact keeps_ok _ (h.unchanged hi hset hw hv)

/-- What the codec reads at the start goes, with the tags on it. -/
theorem Valid.keeps_removeHeader (h : w.Valid) {β : Type} (i : Nat) (c : Codec β) : w.Agrees (.removeHeader i c) := by
  refine h.keeps_on ?_
  intro p data hi hb hw _
  rw [ByteTags.map_fst_cover, Packet.removeHeader, show p.bytes w.store = data from Pool.bytes_eq hb]
  cases hr : c.readStart data with
  | error e => exact keeps_ok _ ⟨h, rfl⟩
  | ok y =>
    obtain ⟨header, n⟩ := y
    obtain ⟨x, hx, hx'⟩ := h.removeAtStart hi hb (Codec.readStart_le hr)
    simp only [hx, bind, Except.bind, pure, Except.pure]
    exact keeps_ok _ hx'

/-- What the codec reads at the end goes, with the tags on it. -/
theorem Valid.keeps_removeTrailer (h : w.Valid) {β : Type} (i : Nat) (c : Codec β) : w.Agrees (.removeTrailer i c) := by
  refine h.keeps_on ?_
  intro p data hi hb hw _
  rw [ByteTags.map_fst_cover, ByteTags.length_cover, Packet.removeTrailer,
    show p.bytes w.store = data from Pool.bytes_eq hb]
  cases hr : c.readEnd data with
  | error e => exact keeps_ok _ ⟨h, rfl⟩
  | ok y =>
    obtain ⟨trailer, n⟩ := y
    obtain ⟨x, hx, hx'⟩ := h.removeAtEnd hi hb (Codec.readEnd_le hr)
    simp only [hx, bind, Except.bind, pure, Except.pure]
    exact keeps_ok _ hx'

/-- Bytes at the start go, unless there are too few. -/
theorem Valid.keeps_removeAtStart (h : w.Valid) (i n : Nat) : w.Agrees (.removeAtStart i n) := by
  have hp : w.store.pool.Valid := h.holds.valid
  refine h.keeps_on ?_
  intro p data hi hb hw _
  rw [ByteTags.length_cover]
  by_cases hle : n ≤ data.length
  · obtain ⟨x, hx, hx'⟩ := h.removeAtStart hi hb hle
    rw [hx, if_pos hle]
    exact keeps_ok _ hx'
  · rw [Packet.removeAtStart, hp.removeAtStart_of_lt hb hle, if_neg hle]
    exact keeps_ok _ ⟨h, rfl⟩

/-- Bytes at the end go, unless there are too few. -/
theorem Valid.keeps_removeAtEnd (h : w.Valid) (i n : Nat) : w.Agrees (.removeAtEnd i n) := by
  have hp : w.store.pool.Valid := h.holds.valid
  refine h.keeps_on ?_
  intro p data hi hb hw _
  rw [ByteTags.length_cover]
  by_cases hle : n ≤ data.length
  · obtain ⟨x, hx, hx'⟩ := h.removeAtEnd hi hb hle
    rw [hx, if_pos hle]
    exact keeps_ok _ hx'
  · rw [Packet.removeAtEnd, hp.removeAtEnd_of_lt hb hle, if_neg hle]
    exact keeps_ok _ ⟨h, rfl⟩

/-- Zeros without tags come after the packet. -/
theorem Valid.keeps_addPadding (h : w.Valid) (i n : Nat) : w.Agrees (.addPadding i n) := by
  have hp : w.store.pool.Valid := h.holds.valid
  refine h.keeps_on fun p data hi hb hw hv => keeps_map (fun hf => ?_) fun s hs => ?_
  · have hroom := hf _ hv
    rw [ByteTags.length_cover] at hroom
    obtain ⟨pool, hpool⟩ := hp.addAtEnd_ok hb hroom
    exact ⟨_, by rw [Packet.addPadding, hpool]; rfl⟩
  cases hpool : w.store.pool.addAtEnd p.buffer n with
  | error f => rw [Packet.addPadding, hpool] at hs; cases hs
  | ok pool =>
    rw [Packet.addPadding, hpool] at hs
    cases hs
    rw [← ByteTags.cover_append_plain hw]
    refine keeps_ok _ (h.sets hi rfl (hp.addAtEnd hb hpool).1 (hw.mono ?_))
    rw [List.length_append]
    exact Nat.le_add_right _ _

/-- The bytes of one packet come after those of another, and its tags move with them. -/
theorem Valid.keeps_append (h : w.Valid) (i j : Nat) : w.Agrees (.append i j) := by
  have hp : w.store.pool.Valid := h.holds.valid
  refine h.keeps_on fun p data hi hb hw hv => h.keeps_on fun q more hj hc hw' hv' => ?_
  refine keeps_map (fun hf => ?_) fun x hx => ?_
  · have hroom := hf _ _ hv hv'
    rw [ByteTags.length_cover, ByteTags.length_cover] at hroom
    obtain ⟨pool, hpool⟩ := hp.append_ok hb hc hroom
    exact ⟨_, by rw [Packet.append, hpool]; rfl⟩
  cases hpool : w.store.pool.append p.buffer q.buffer with
  | error f => rw [Packet.append, hpool] at hx; cases hx
  | ok pool =>
    rw [Packet.append, hpool] at hx
    cases hx
    have hsize : p.size w.store = data.length := hp.size_eq hb
    rw [← ByteTags.cover_append hw, ← hsize]
    refine keeps_ok _ (h.sets hi rfl (hp.append hb hc hpool) ?_)
    rw [List.length_append, hsize]
    exact (hw.mono (Nat.le_add_right _ _)).append (hw'.shift data.length)

/-- A tag on all bytes is one on the range of all bytes. -/
theorem Valid.keeps_addByteTag (h : w.Valid) (i : Nat) (tag : τ) : w.Agrees (.addByteTag i tag) := by
  have hp : w.store.pool.Valid := h.holds.valid
  refine h.keeps_on ?_
  intro p data hi hb hw _
  rw [ByteTags.length_cover, Packet.addByteTag, show p.size w.store = data.length from hp.size_eq hb]
  simpa only [Nat.le_refl, and_true] using h.addByteTagRange hi hb hw tag 0 data.length

/-- The bytes stay without their tags. -/
theorem Valid.keeps_clearByteTags (h : w.Valid) (i : Nat) : w.Agrees (.clearByteTags i) := by
  refine h.keeps_on ?_
  intro p data hi hb _ _
  rw [ByteTags.map_fst_cover, ← ByteTags.cover_nil_tags]
  exact keeps_ok _ (h.retag hi hb rfl (ByteTags.within_nil _))

/-- Every operation on packets is the operation on the lists of tagged bytes. -/
theorem Valid.keeps_apply (h : w.Valid) (op : PacketOp τ) : w.Agrees op := by
  cases op with
  | ofBytes data => exact h.keeps_ofBytes data
  | ofSize n => exact h.keeps_ofSize n
  | copy i => exact h.keeps_on fun p data hi hb hw _ => keeps_ok _ (h.makes (h.holds.valid.clone hb) rfl rfl hw)
  | fragment i start length => exact h.keeps_fragment i start length
  | addHeader i c header => exact h.keeps_addHeader i c header
  | addTrailer i c trailer => exact h.keeps_addTrailer i c trailer
  | removeHeader i c => exact h.keeps_removeHeader i c
  | removeTrailer i c => exact h.keeps_removeTrailer i c
  | removeAtStart i n => exact h.keeps_removeAtStart i n
  | removeAtEnd i n => exact h.keeps_removeAtEnd i n
  | addPadding i n => exact h.keeps_addPadding i n
  | append i j => exact h.keeps_append i j
  | addByteTag i tag => exact h.keeps_addByteTag i tag
  | addByteTagRange i tag start stop =>
    refine h.keeps_on ?_
    intro p data hi hb hw _
    rw [ByteTags.length_cover]
    exact h.addByteTagRange hi hb hw tag start stop
  | clearByteTags i => exact h.keeps_clearByteTags i
  | drop i => exact h.keeps_on fun p data hi hb _ _ => keeps_ok _ (h.drops hi (h.holds.valid.drop hb))
  | resetUids => exact keeps_ok _ ⟨⟨h.holds, h.within, .nil, fun _ hu => absurd hu List.not_mem_nil⟩, rfl⟩

/-! ## Histories -/

/-- **Packets are lists of tagged bytes.** Whatever is done to any number of packets, in any order, every operation has the
answer that it has on independent lists of bytes with their tags, and afterwards every packet shows its own list. The
numbers of packets increase as long as they do not begin anew, and every byte tag is on some bytes, all of them in its
packet. There is no answer only if no byte string can be as long as the storage that is needed. -/
theorem exec_eq_tagged (ops : List (PacketOp τ)) :
    (∀ answers w, exec apply empty ops = .ok (answers, w) →
      model TaggedValues.apply [] ops = (answers, w.values) ∧
        w.issued.Pairwise (· < ·) ∧
        ∀ p, some p ∈ w.packets → ∀ t ∈ p.byteTags, t.start < t.stop ∧ t.stop ≤ p.size w.store) ∧
      (AllFit TaggedValues.apply TaggedValues.Fits [] ops → ∃ z, exec apply empty ops = .ok z) := by
  have hkeeps := keeps_exec (fun w op hw => Valid.keeps_apply hw op) valid_empty ops
  refine ⟨fun answers w he => ?_, hkeeps.total⟩
  obtain ⟨hw, hsame⟩ := hkeeps.same answers w he
  refine ⟨hsame, hw.increasing, ?_⟩
  intro p hp
  obtain ⟨i, hi⟩ := List.mem_iff_getElem?.1 hp
  obtain ⟨data, hb⟩ := hw.holds.live hi
  have hsize : p.size w.store = data.length := hw.holds.valid.size_eq hb
  rw [hsize]
  exact hw.within hi hb

end Packets

end SimKernel
