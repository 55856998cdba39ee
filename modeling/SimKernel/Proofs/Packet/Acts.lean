import SimKernel.Proofs.Outcome
import SimKernel.Proofs.Packet.Denotation

/-!
# What one packet has to do with others

Besides the operations there are looks at the ends of a packet and changes of packet tags (`PacketAct`). An act changes one
packet at most (`PacketAct.target?`); every other packet keeps its number, bytes and tags, whatever storage they have in
common (`Valid.act_spares`). Looks leave everything as it was (`exec_act_filter_looks`).
-/

namespace SimKernel

namespace Operations

variable {β : Type} {target : Option Nat} {l l' : List (Option β)}

/-- What becomes of a list by an operation on the entry in one place of it, if on any. -/
inductive Touches (target : Option Nat) (l : List (Option β)) : List (Option β) → Prop
  | same : Touches target l l
  | append (x : Option β) : Touches target l (l ++ [x])
  | set {i : Nat} (x : Option β) : target = some i → Touches target l (l.set i x)

theorem Touches.getElem? (h : Touches target l l') {i : Nat} (hne : target ≠ some i) {x : Option β}
    (hi : l[i]? = some x) : l'[i]? = some x := by
  cases h with
  | same => exact hi
  | append y => rw [List.getElem?_append_left (List.getElem?_eq_some_iff.1 hi).1, hi]
  | set y hj => rw [List.getElem?_set_ne (fun he => hne (hj.trans (congrArg some he))), hi]

end Operations

open Operations

variable {τ : Type}

/-- The packet that the operation changes. -/
def PacketOp.target? : PacketOp τ → Option Nat
  | .addHeader i _ _ | .removeHeader i _ | .addTrailer i _ _ | .removeTrailer i _ | .removeAtStart i _ | .removeAtEnd i _
  | .addPadding i _ | .append i _ | .addByteTag i _ | .addByteTagRange i _ _ _ | .clearByteTags i | .drop i => some i
  | .ofBytes _ | .ofSize _ | .copy _ | .fragment _ _ _ | .resetUids => none

/-- Operations on packets, looks at their ends and changes of their packet tags. -/
inductive PacketAct (τ : Type) : Type 1 where
  | operation (op : PacketOp τ)
  | peekHeader {β : Type} (i : Nat) (c : Codec β)
  | peekTrailer {β : Type} (i : Nat) (c : Codec β)
  | retag (i : Nat) (change : PacketTags τ → PacketTags τ)

/-- The packet that the act changes. -/
def PacketAct.target? : PacketAct τ → Option Nat
  | .operation op => op.target?
  | .peekHeader _ _ | .peekTrailer _ _ => none
  | .retag i _ => some i

/-- The act only looks at a packet. -/
def PacketAct.looks : PacketAct τ → Bool
  | .peekHeader _ _ | .peekTrailer _ _ => true
  | .operation _ | .retag _ _ => false

/-- The answer of a look, which is the value that was seen if there is one. -/
def PacketAnswer.ofPeek {β : Type} (x : Except PacketError (Option β)) : PacketAnswer :=
  x.map (Option.map fun value => ⟨β, value⟩)

namespace TaggedValues

variable {vs : TaggedValues τ}

/-- One act on independent lists, which do not show packet tags. -/
def act (vs : TaggedValues τ) : PacketAct τ → PacketAnswer × TaggedValues τ
  | .operation op => vs.apply op
  | .peekHeader i c => onEntry vs i (.ok none, vs) fun v =>
    (.ofPeek (if v.length = 0 then .ok none else (c.readStart (v.map Prod.fst)).map fun (header, _) => some header), vs)
  | .peekTrailer i c => onEntry vs i (.ok none, vs) fun v =>
    (.ofPeek (if v.length = 0 then .ok none else (c.readEnd (v.map Prod.fst)).map fun (trailer, _) => some trailer), vs)
  | .retag _ _ => (.ok none, vs)

/-- The storage that the act needs at most is no longer than a byte string can be. -/
def FitsAct (vs : TaggedValues τ) : PacketAct τ → Prop
  | .operation op => vs.Fits op
  | _ => True

theorem touches_onEntry {target : Option Nat} {i : Nat} {answer : PacketAnswer} {f : Tagged τ → PacketAnswer × TaggedValues τ}
    (hf : ∀ v, Touches target vs (f v).2) : Touches target vs (onEntry vs i (answer, vs) f).2 := by
  unfold onEntry
  split
  · exact hf _
  · exact .same

theorem touches_ite {target : Option Nat} {c : Prop} [Decidable c] {x y : PacketAnswer × TaggedValues τ}
    (hx : Touches target vs x.2) (hy : Touches target vs y.2) : Touches target vs (if c then x else y).2 := by
  split
  · exact hx
  · exact hy

/-- An operation changes the list of one packet at most. -/
theorem touches_apply (vs : TaggedValues τ) (op : PacketOp τ) : Touches op.target? vs (vs.apply op).2 := by
  cases op with
  | ofBytes data => exact .append _
  | ofSize n => exact .append _
  | copy i => exact touches_onEntry fun v => .append _
  | fragment i start length => exact touches_onEntry fun v => touches_ite (.append _) .same
  | addHeader i c header =>
    refine touches_onEntry fun v => ?_
    cases c.fill header (Bytes.zeros (c.size header))
    · exact .same
    · exact .set _ rfl
  | removeHeader i c =>
    refine touches_onEntry fun v => ?_
    rcases c.readStart (v.map Prod.fst) with e | ⟨header, n⟩
    · exact .same
    · exact .set _ rfl
  | addTrailer i c trailer =>
    refine touches_onEntry fun v => ?_
    cases c.fill trailer (Bytes.zeros (c.size trailer))
    · exact .same
    · exact .set _ rfl
  | removeTrailer i c =>
    refine touches_onEntry fun v => ?_
    rcases c.readEnd (v.map Prod.fst) with e | ⟨trailer, n⟩
    · exact .same
    · exact .set _ rfl
  | removeAtStart i n => exact touches_onEntry fun v => touches_ite (.set _ rfl) .same
  | removeAtEnd i n => exact touches_onEntry fun v => touches_ite (.set _ rfl) .same
  | addPadding i n => exact touches_onEntry fun v => .set _ rfl
  | append i j => exact touches_onEntry fun v => touches_onEntry fun w => .set _ rfl
  | addByteTag i tag => exact touches_onEntry fun v => touches_ite (.set _ rfl) .same
  | addByteTagRange i tag start stop => exact touches_onEntry fun v => touches_ite (.set _ rfl) .same
  | clearByteTags i => exact touches_onEntry fun v => .set _ rfl
  | drop i => exact touches_onEntry fun _ => .set _ rfl
  | resetUids => exact .same

/-- An act touches at most the packet that it is about. -/
theorem touches_act (vs : TaggedValues τ) (a : PacketAct τ) : Touches a.target? vs (vs.act a).2 := by
  cases a with
  | operation op => exact vs.touches_apply op
  | peekHeader i c => exact touches_onEntry fun v => .same
  | peekTrailer i c => exact touches_onEntry fun v => .same
  | retag i change => exact .same

end TaggedValues

namespace Packets

variable {w : Packets τ} {i : Nat} {p : Packet τ} {a : PacketAct τ} {z : PacketAnswer × Packets τ}

/-- One act on packets; on a packet that was dropped it changes nothing. -/
def act (w : Packets τ) : PacketAct τ → Except Fault (PacketAnswer × Packets τ)
  | .operation op => w.apply op
  | .peekHeader i c => w.on i fun p => .ok (.ofPeek (p.peekHeader w.store c), w)
  | .peekTrailer i c => w.on i fun p => .ok (.ofPeek (p.peekTrailer w.store c), w)
  | .retag i change => w.on i fun p =>
    .ok (.ok none, w.put i { p with packetTags := change p.packetTags } w.store)

/-! ## Which packets an act changes -/

variable {target : Option Nat}

theorem touches_of_on {f : Packet τ → Except Fault (PacketAnswer × Packets τ)} (h : w.on i f = .ok z)
    (hf : ∀ p, f p = .ok z → Touches target w.packets z.2.packets) : Touches target w.packets z.2.packets := by
  unfold on onEntry at h
  split at h
  · exact hf _ h
  · cases h
    exact .same

/-- What is done to a packet without a fault. -/
theorem touches_of_on_ok {f : Packet τ → PacketAnswer × Packets τ} (h : (w.on i fun p => .ok (f p)) = .ok z)
    (hf : ∀ p, Touches target w.packets (f p).2.packets) : Touches target w.packets z.2.packets := by
  refine touches_of_on h fun p hp => ?_
  cases hp
  exact hf p

/-- What is done to a packet with the outcome of something that may be a fault. -/
theorem touches_of_on_map {σ : Type} {x : Packet τ → Except Fault σ} {f : Packet τ → σ → PacketAnswer × Packets τ}
    (h : (w.on i fun p => (x p).map (f p)) = .ok z) (hf : ∀ p y, Touches target w.packets (f p y).2.packets) :
    Touches target w.packets z.2.packets := by
  refine touches_of_on h fun p hp => ?_
  obtain ⟨y, -, rfl⟩ := Outcome.map_eq_ok_iff.1 hp
  exact hf p y

theorem touches_settle {σ : Type} {l : List (Option (Packet τ))} {x : Except PacketError σ} {f : σ → Packets τ}
    (hw : Touches target l w.packets) (hf : ∀ y, Touches target l (f y).packets) :
    Touches target l (w.settle x f).2.packets := by
  cases x with
  | error e => exact hw
  | ok y => exact hf y

theorem touches_settleRemoved {β : Type} (x : Except PacketError (β × Packet τ × PacketStore)) :
    Touches (some i) w.packets (w.settleRemoved i x).2.packets := by
  cases x with
  | error e => exact .same
  | ok y => exact .set _ rfl

/-- An operation changes the entry of one packet at most. -/
theorem touches_apply {op : PacketOp τ} (h : w.apply op = .ok z) : Touches op.target? w.packets z.2.packets := by
  cases op with
  | ofBytes data =>
    cases h
    exact .append _
  | ofSize n =>
    obtain ⟨made, -, rfl⟩ := Outcome.map_eq_ok_iff.1 h
    exact .append _
  | copy i => exact touches_of_on_ok h fun p => .append _
  | fragment i start length => exact touches_of_on_ok h fun p => touches_settle .same fun made => .append _
  | addHeader i c header => exact touches_of_on_map h fun p x => touches_settle (.set _ rfl) fun p' => .set _ rfl
  | addTrailer i c trailer => exact touches_of_on_map h fun p x => touches_settle (.set _ rfl) fun _ => .set _ rfl
  | removeHeader i c => exact touches_of_on_ok h fun p => touches_settleRemoved _
  | removeTrailer i c => exact touches_of_on_ok h fun p => touches_settleRemoved _
  | removeAtStart i n => exact touches_of_on_ok h fun p => touches_settle .same fun x => .set _ rfl
  | removeAtEnd i n => exact touches_of_on_ok h fun p => touches_settle .same fun x => .set _ rfl
  | addPadding i n => exact touches_of_on_map h fun p s => .set _ rfl
  | append i j =>
    refine touches_of_on h fun p hp => touches_of_on hp fun other ho => ?_
    obtain ⟨x, -, rfl⟩ := Outcome.map_eq_ok_iff.1 ho
    exact .set _ rfl
  | addByteTag i tag => exact touches_of_on_ok h fun p => touches_settle .same fun p' => .set _ rfl
  | addByteTagRange i tag start stop => exact touches_of_on_ok h fun p => touches_settle .same fun p' => .set _ rfl
  | clearByteTags i => exact touches_of_on_ok h fun p => .set _ rfl
  | drop i => exact touches_of_on_ok h fun p => .set _ rfl
  | resetUids =>
    cases h
    exact .same

theorem touches_act (h : w.act a = .ok z) : Touches a.target? w.packets z.2.packets := by
  cases a with
  | operation op => exact touches_apply h
  | peekHeader i c => exact touches_of_on_ok h fun p => .same
  | peekTrailer i c => exact touches_of_on_ok h fun p => .same
  | retag i change => exact touches_of_on_ok h fun p => .set _ rfl

/-! ## Acts on lists of tagged bytes -/

/-- Every act on packets is the act on the lists of tagged bytes. -/
theorem Valid.keeps_act (h : w.Valid) (a : PacketAct τ) :
    Keeps Valid values (w.act a) (w.values.act a) (w.values.FitsAct a) := by
  cases a with
  | operation op => exact h.keeps_apply op
  | peekHeader i c =>
    refine h.keeps_on ?_
    intro p data hi hb _ _
    rw [ByteTags.length_cover, ByteTags.map_fst_cover, Packet.peekHeader,
      show p.size w.store = data.length from h.holds.valid.size_eq hb, show p.bytes w.store = data from Pool.bytes_eq hb]
    exact keeps_ok _ ⟨h, rfl⟩
  | peekTrailer i c =>
    refine h.keeps_on ?_
    intro p data hi hb _ _
    rw [ByteTags.length_cover, ByteTags.map_fst_cover, Packet.peekTrailer,
      show p.size w.store = data.length from h.holds.valid.size_eq hb, show p.bytes w.store = data from Pool.bytes_eq hb]
    exact keeps_ok _ ⟨h, rfl⟩
  | retag i change =>
    have hgone : onEntry w.values i (.ok none, w.values) (fun _ => (.ok none, w.values)) =
        w.values.act (.retag i change) := by
      unfold onEntry
      split <;> rfl
    rw [← hgone]
    refine h.keeps_on ?_
    intro p data hi hb hw hv
    have hbuffer : ({ p with packetTags := change p.packetTags } : Packet τ).buffer = p.buffer := rfl
    obtain ⟨hvalid, hvalues⟩ := h.retag hi hb hbuffer hw
    rw [set_eq_self (Option.join_eq_some_iff.1 hv)] at hvalues
    exact keeps_ok _ ⟨hvalid, hvalues⟩

/-- **An act leaves all packets but one alone.** A packet that the act is not on keeps its number, its tags and its bytes,
also when it shares storage with the one that changes. -/
theorem Valid.act_spares (h : w.Valid) (hne : a.target? ≠ some i) (ha : w.act a = .ok z)
    (hi : w.packets[i]? = some (some p)) :
    z.2.packets[i]? = some (some p) ∧ z.2.store.pool.contents p.buffer = w.store.pool.contents p.buffer := by
  obtain ⟨hz, hsame⟩ := (h.keeps_act a).same z.1 z.2 ha
  have hi' := (touches_act ha).getElem? hne hi
  refine ⟨hi', ?_⟩
  obtain ⟨data, hb⟩ := h.holds.live hi
  obtain ⟨data', hb'⟩ := hz.holds.live hi'
  have hv : w.values[i]? = some (some (p.byteTags.cover data)) := by
    rw [values, List.getElem?_map, hi, ← tagged_eq hb]
    rfl
  have hv' : z.2.values[i]? = some (some (p.byteTags.cover data')) := by
    rw [values, List.getElem?_map, hi', ← tagged_eq hb']
    rfl
  have hcover := (w.values.touches_act a).getElem? hne hv
  rw [hsame, hv'] at hcover
  have hdata := congrArg (List.map Prod.fst) (Option.some.inj (Option.some.inj hcover))
  rw [ByteTags.map_fst_cover, ByteTags.map_fst_cover] at hdata
  rw [hb, hb', hdata]

/-! ## Looks -/

theorem on_of_looks (w : Packets τ) (i : Nat) (f : Packet τ → PacketAnswer) :
    ∃ answer, (w.on i fun p => .ok (f p, w)) = .ok (answer, w) := by
  unfold on onEntry
  cases w.packets[i]?.join <;> exact ⟨_, rfl⟩

/-- A look has an answer and changes nothing. -/
theorem act_of_looks (w : Packets τ) (ha : a.looks) : ∃ answer, w.act a = .ok (answer, w) := by
  cases a with
  | operation op => cases ha
  | retag i change => cases ha
  | peekHeader i c => exact w.on_of_looks i _
  | peekTrailer i c => exact w.on_of_looks i _

/-- Without the looks, the packets come to the same. -/
theorem exec_act_filter_looks (w : Packets τ) (acts : List (PacketAct τ)) :
    (exec act w (acts.filter (!·.looks))).map Prod.snd = (exec act w acts).map Prod.snd := by
  induction acts generalizing w with
  | nil => rfl
  | cons a acts ih =>
    cases ha : a.looks with
    | true =>
      obtain ⟨answer, hact⟩ := w.act_of_looks ha
      rw [List.filter_cons_of_neg (by rw [ha]; decide), ih, exec, hact]
      dsimp only
      cases exec act w acts <;> rfl
    | false =>
      rw [List.filter_cons_of_pos (by rw [ha]; rfl), exec, exec]
      rcases w.act a with f | ⟨answer, w'⟩
      · rfl
      · have hrest := ih w'
        dsimp only
        revert hrest
        cases exec act w' (acts.filter (!·.looks)) <;> cases exec act w' acts <;> exact id

end Packets

end SimKernel
