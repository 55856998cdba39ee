import Mathlib.Data.List.Basic
import SimKernel.Proofs.Packet.Acts
import SimKernel.Proofs.Wire.Layers
import SimKernel.Wire.Steps

/-!
# Headers and trailers are stacks

A header that a format writes as `data`, and reads back from any bytes that start with `data` (`Leading`), is a layer at the
start of a packet; a trailer (`Trailing`) is one at its end. A packet with layers is its payload between them
(`Framed`), with the tags moved by the headers. Putting on a layer and taking off the last one at an end keep that form, so
after any course of such acts in which each end is last-in-first-out (`Stacked`) the packet is what it was, and every
value came back (`exec_act_of_stacked`). Whatever is done to other packets meanwhile makes no difference.
-/

namespace SimKernel

/-! ## Tags that move forth and back -/

namespace ByteTags

variable {τ : Type} {ts : ByteTags τ} {m n : Nat}

theorem shift_zero (ts : ByteTags τ) : ts.shift 0 = ts := List.map_id' ts

/-- Tags that are moved twice are moved by both numbers of bytes. -/
theorem shift_shift (ts : ByteTags τ) (m n : Nat) : (ts.shift m).shift n = ts.shift (n + m) := by
  unfold shift
  rw [List.map_map]
  refine List.map_congr_left fun t _ => ?_
  simp only [Function.comp_apply, Nat.add_assoc, Nat.add_comm m]

/-- Taking off the bytes by which tags were moved moves them back, and taking off bytes behind them leaves them as they
are. -/
theorem Within.clip_shift (h : ts.Within m) (n k : Nat) {length : Nat} (hle : k + m ≤ length) :
    (ts.shift (n + k)).clip n (n + length) = ts.shift k := by
  unfold clip
  rw [ByteTags.shift, ByteTags.shift, List.filterMap_map, ← List.filterMap_eq_map]
  refine List.filterMap_congr fun t ht => ?_
  have ⟨hlt, hstop⟩ := h t ht
  have hfirst : t.start + (n + k) - n = t.start + k := by omega
  have hlast : t.stop + (n + k) - n = t.stop + k := by omega
  simp only [Function.comp_apply, clipOne]
  rw [Nat.max_eq_left (by omega), Nat.min_eq_left (by omega), if_pos (by omega), hfirst, hlast]

end ByteTags

/-! ## Answers -/

/-- The answer when the layer is taken off. -/
def Layer.answer (x : Layer) : PacketAnswer := .ok (some ⟨x.β, x.value⟩)

/-- The answer when the layer is looked at in a packet of `n` bytes, with its own among them: an empty packet shows none. -/
def Layer.seen (x : Layer) (n : Nat) : PacketAnswer := if n = 0 then .ok none else x.answer

theorem Layer.ofPeek_ite (x : Layer) (n k : Nat) :
    PacketAnswer.ofPeek (if n = 0 then .ok none else (Except.ok (x.value, k)).map fun y => some y.1) = x.seen n := by
  unfold seen
  split <;> rfl

open Leading Trailing Operations

variable {τ : Type}

/-! ## Packets between layers -/

/-- The packet with its tags moved by `n` bytes. -/
def Packet.shifted (p : Packet τ) (n : Nat) : Packet τ :=
  { p with byteTags := p.byteTags.shift n }

theorem Packet.shifted_zero (p : Packet τ) : p.shifted 0 = p := by
  rw [shifted, ByteTags.shift_zero]

namespace Packets

variable {w : Packets τ} {i : Nat} {p : Packet τ} {payload : Bytes} {hs : List Leading} {ts : List Trailing}
  {a : PacketAct τ} {z : PacketAnswer × Packets τ}

/-- The packet is `p` with the payload between headers and trailers. -/
structure Framed (w : Packets τ) (i : Nat) (p : Packet τ) (payload : Bytes) (hs : List Leading) (ts : List Trailing) :
    Prop where
  valid : w.Valid
  within : p.byteTags.Within payload.length
  entry : w.packets[i]? = some (some (p.shifted (front hs).length))
  contents : w.store.pool.contents p.buffer = some (front hs ++ payload ++ back ts)

theorem on_eq (hi : w.packets[i]? = some (some p)) (f : Packet τ → Except Fault (PacketAnswer × Packets τ)) :
    w.on i f = f p := by
  unfold on onEntry
  rw [Option.join_eq_some_iff.2 hi]

theorem getElem?_put {p' : Packet τ} (hi : w.packets[i]? = some (some p)) (s : PacketStore) :
    (w.put i p' s).packets[i]? = some (some p') :=
  List.getElem?_set_self (List.getElem?_eq_some_iff.1 hi).1

/-- A packet without layers is framed by none. -/
theorem framed_nil (h : w.Valid) (hi : w.packets[i]? = some (some p)) : Framed w i p (p.bytes w.store) [] [] := by
  obtain ⟨data, hb⟩ := h.holds.live hi
  rw [show p.bytes w.store = data from Pool.bytes_eq hb]
  refine ⟨h, h.within hi hb, ?_, ?_⟩
  · rw [show (front []).length = 0 from rfl, Packet.shifted_zero]
    exact hi
  · rw [hb, front, back, List.nil_append, List.append_nil]

/-- Without headers and trailers the packet is what it was. -/
theorem Framed.restored (h : Framed w i p payload [] []) : w.packets[i]? = some (some p) ∧ p.bytes w.store = payload := by
  refine ⟨?_, ?_⟩
  · have hentry := h.entry
    rwa [show (front []).length = 0 from rfl, Packet.shifted_zero] at hentry
  · have hcontents := h.contents
    rw [front, back, List.nil_append, List.append_nil] at hcontents
    exact Pool.bytes_eq hcontents

theorem Framed.valid_act (h : Framed w i p payload hs ts) (ha : w.act a = .ok z) : z.2.Valid :=
  ((h.valid.keeps_act a).same z.1 z.2 ha).1

/-- What is done to other packets. -/
theorem Framed.aside (h : Framed w i p payload hs ts) (hne : a.target? ≠ some i) (ha : w.act a = .ok z) :
    Framed z.2 i p payload hs ts := by
  obtain ⟨hentry, hcontents⟩ := h.valid.act_spares hne ha h.entry
  exact ⟨h.valid_act ha, h.within, hentry, hcontents.trans h.contents⟩

theorem Framed.size_eq (h : Framed w i p payload hs ts) :
    (p.shifted (front hs).length).size w.store = (front hs).length + payload.length + (back ts).length := by
  refine (h.valid.holds.valid.size_eq h.contents).trans ?_
  rw [List.length_append, List.length_append]

/-! ## Headers -/

/-- A header comes before all others, and the tags move by its bytes. -/
theorem Framed.pushHeader (h : Framed w i p payload hs ts) (x : Leading)
    (ha : w.act (.operation (.addHeader i x.codec x.value)) = .ok z) :
    z.1 = .ok none ∧ Framed z.2 i p payload (x :: hs) ts := by
  have hvalid := h.valid_act ha
  rw [act, apply, on_eq h.entry] at ha
  obtain ⟨y, hy, rfl⟩ := Outcome.map_eq_ok_iff.1 ha
  obtain ⟨pool, rfl, hset⟩ :=
    Packet.addHeader_of_fill_ok (p := p.shifted (front hs).length) h.valid.holds.valid h.contents x.fill_eq hy
  refine ⟨rfl, hvalid, h.within, ?_, ?_⟩
  · dsimp only [settle]
    rw [getElem?_put h.entry, Packet.shifted, Packet.shifted, ByteTags.shift_shift, front,
      List.length_append, x.length_data]
  · refine hset.self.trans ?_
    rw [front, List.append_assoc, List.append_assoc, List.append_assoc]

/-- The packet is read as the last header and what it was put before. -/
theorem Framed.readStart_eq {x : Leading} (h : Framed w i p payload (x :: hs) ts) :
    x.codec.readStart (p.bytes w.store) = .ok (x.value, x.data.length) := by
  rw [show p.bytes w.store = _ from Pool.bytes_eq h.contents, front, List.append_assoc, List.append_assoc]
  exact x.readStart_eq _

/-- The last header is read as what it is and taken off, and the tags move back. -/
theorem Framed.popHeader {x : Leading} (h : Framed w i p payload (x :: hs) ts)
    (ha : w.act (.operation (.removeHeader i x.codec)) = .ok z) :
    z.1 = x.answer ∧ Framed z.2 i p payload hs ts := by
  have hvalid := h.valid_act ha
  have hread := h.readStart_eq
  rw [show p.bytes w.store = _ from Pool.bytes_eq h.contents] at hread
  obtain ⟨pool, hx, hset⟩ :=
    Packet.removeHeader_of_read (p := p.shifted (front (x :: hs)).length) h.valid.holds.valid h.contents hread
  rw [act, apply, on_eq h.entry, hx] at ha
  cases ha
  refine ⟨rfl, hvalid, h.within, ?_, ?_⟩
  · dsimp only [settleRemoved]
    rw [getElem?_put h.entry, Packet.shifted, Packet.shifted, front, List.length_append, h.within.clip_shift]
    simp only [List.length_append]
    omega
  · refine hset.self.trans ?_
    rw [front, List.append_assoc, List.append_assoc, List.drop_left, List.append_assoc]

/-- A look at the last header reads it and changes nothing. -/
theorem Framed.peekHeader {x : Leading} (h : Framed w i p payload (x :: hs) ts)
    (ha : w.act (.peekHeader i x.codec) = .ok z) :
    z.1 = x.seen ((front (x :: hs)).length + payload.length + (back ts).length) ∧ z.2 = w := by
  rw [act, on_eq h.entry] at ha
  cases ha
  refine ⟨?_, rfl⟩
  have hread : x.codec.readStart ((p.shifted (front (x :: hs)).length).bytes w.store) = _ := h.readStart_eq
  rw [Packet.peekHeader, h.size_eq, hread]
  exact Layer.ofPeek_ite _ _ _

/-! ## Trailers -/

/-- A trailer comes after all others. -/
theorem Framed.pushTrailer (h : Framed w i p payload hs ts) (x : Trailing)
    (ha : w.act (.operation (.addTrailer i x.codec x.value)) = .ok z) :
    z.1 = .ok none ∧ Framed z.2 i p payload hs (x :: ts) := by
  have hvalid := h.valid_act ha
  rw [act, apply, on_eq h.entry] at ha
  obtain ⟨y, hy, rfl⟩ := Outcome.map_eq_ok_iff.1 ha
  obtain ⟨pool, rfl, hset⟩ :=
    Packet.addTrailer_of_fill_ok (p := p.shifted (front hs).length) h.valid.holds.valid h.contents x.fill_eq hy
  refine ⟨rfl, hvalid, h.within, ?_, ?_⟩
  · exact getElem?_put h.entry _
  · refine hset.self.trans ?_
    rw [back, List.append_assoc _ (back ts)]

/-- The packet is read as the last trailer and what it was put after. -/
theorem Framed.readEnd_eq {x : Trailing} (h : Framed w i p payload hs (x :: ts)) :
    x.codec.readEnd (p.bytes w.store) = .ok (x.value, x.data.length) := by
  rw [show p.bytes w.store = _ from Pool.bytes_eq h.contents, back, ← List.append_assoc]
  exact x.readEnd_eq _

/-- The last trailer is read as what it is and taken off; no tag is on its bytes. -/
theorem Framed.popTrailer {x : Trailing} (h : Framed w i p payload hs (x :: ts))
    (ha : w.act (.operation (.removeTrailer i x.codec)) = .ok z) :
    z.1 = x.answer ∧ Framed z.2 i p payload hs ts := by
  have hvalid := h.valid_act ha
  have hread := h.readEnd_eq
  rw [show p.bytes w.store = _ from Pool.bytes_eq h.contents] at hread
  obtain ⟨pool, hx, hset⟩ :=
    Packet.removeTrailer_of_read (p := p.shifted (front hs).length) h.valid.holds.valid h.contents hread
  rw [act, apply, on_eq h.entry, hx] at ha
  cases ha
  have hlength : (front hs ++ payload ++ back (x :: ts)).length - x.data.length = (front hs ++ payload ++ back ts).length := by
    simp only [back, List.length_append]
    omega
  refine ⟨rfl, hvalid, h.within, ?_, ?_⟩
  · dsimp only [settleRemoved]
    have hle : (front hs).length + payload.length ≤ (front hs ++ payload ++ back ts).length := by
      simp only [List.length_append]
      omega
    have hclip := h.within.clip_shift 0 (front hs).length hle
    rw [Nat.zero_add, Nat.zero_add] at hclip
    rw [getElem?_put h.entry, hlength, Packet.shifted, hclip]
  · refine hset.self.trans ?_
    rw [hlength, back, ← List.append_assoc, List.take_left]

/-- A look at the last trailer reads it and changes nothing. -/
theorem Framed.peekTrailer {x : Trailing} (h : Framed w i p payload hs (x :: ts))
    (ha : w.act (.peekTrailer i x.codec) = .ok z) :
    z.1 = x.seen ((front hs).length + payload.length + (back (x :: ts)).length) ∧ z.2 = w := by
  rw [act, on_eq h.entry] at ha
  cases ha
  refine ⟨?_, rfl⟩
  have hread : x.codec.readEnd ((p.shifted (front hs).length).bytes w.store) = _ := h.readEnd_eq
  rw [Packet.peekTrailer, h.size_eq, hread]
  exact Layer.ofPeek_ite _ _ _

/-! ## Courses of acts -/

/-- What is due to an act: an answer, or anything. -/
def Meets (answer : PacketAnswer) (due : Option PacketAnswer) : Prop := ∀ d ∈ due, answer = d

theorem meets_some {answer d : PacketAnswer} (h : answer = d) : Meets answer (some d) := by
  rintro _ ⟨⟩
  exact h

theorem meets_none (answer : PacketAnswer) : Meets answer none := by
  rintro _ ⟨⟩

/-- One act, and what is due to it, on a packet of `n` bytes between headers and trailers, with those that there are
afterwards: a layer is put on, or the last one at its end is taken off or looked at, or something is done to another packet. -/
inductive Stacks (i n : Nat) : PacketAct τ → Option PacketAnswer → List Leading → List Trailing → List Leading →
    List Trailing → Prop
  | pushHeader (x : Leading) (hs ts) :
    Stacks i n (.operation (.addHeader i x.codec x.value)) (some (.ok none)) hs ts (x :: hs) ts
  | popHeader (x : Leading) (hs ts) :
    Stacks i n (.operation (.removeHeader i x.codec)) (some x.answer) (x :: hs) ts hs ts
  | peekHeader (x : Leading) (hs ts) :
    Stacks i n (.peekHeader i x.codec) (some (x.seen ((front (x :: hs)).length + n + (back ts).length)))
      (x :: hs) ts (x :: hs) ts
  | pushTrailer (x : Trailing) (hs ts) :
    Stacks i n (.operation (.addTrailer i x.codec x.value)) (some (.ok none)) hs ts hs (x :: ts)
  | popTrailer (x : Trailing) (hs ts) :
    Stacks i n (.operation (.removeTrailer i x.codec)) (some x.answer) hs (x :: ts) hs ts
  | peekTrailer (x : Trailing) (hs ts) :
    Stacks i n (.peekTrailer i x.codec) (some (x.seen ((front hs).length + n + (back (x :: ts)).length)))
      hs (x :: ts) hs (x :: ts)
  | aside (a : PacketAct τ) (hs ts) : a.target? ≠ some i → Stacks i n a none hs ts hs ts

/-- A course of such acts after which no layer is left. -/
inductive Stacked (i n : Nat) : List (PacketAct τ) → List (Option PacketAnswer) → List Leading → List Trailing → Prop
  | done : Stacked i n [] [] [] []
  | step {a d acts due hs ts hs' ts'} : Stacks i n a d hs ts hs' ts' → Stacked i n acts due hs' ts' →
    Stacked i n (a :: acts) (d :: due) hs ts

/-- One case for each act: the packet stays between its layers, and the answer is the one that is due. -/
theorem Framed.act_of_stacks {d : Option PacketAnswer} {hs' : List Leading} {ts' : List Trailing}
    (hst : Stacks i payload.length a d hs ts hs' ts') (h : Framed w i p payload hs ts) (ha : w.act a = .ok z) :
    Meets z.1 d ∧ Framed z.2 i p payload hs' ts' := by
  cases hst with
  | pushHeader x =>
    obtain ⟨hanswer, hz⟩ := h.pushHeader x ha
    exact ⟨meets_some hanswer, hz⟩
  | popHeader x =>
    obtain ⟨hanswer, hz⟩ := h.popHeader ha
    exact ⟨meets_some hanswer, hz⟩
  | peekHeader x =>
    obtain ⟨hanswer, hz⟩ := h.peekHeader ha
    exact ⟨meets_some hanswer, hz ▸ h⟩
  | pushTrailer x =>
    obtain ⟨hanswer, hz⟩ := h.pushTrailer x ha
    exact ⟨meets_some hanswer, hz⟩
  | popTrailer x =>
    obtain ⟨hanswer, hz⟩ := h.popTrailer ha
    exact ⟨meets_some hanswer, hz⟩
  | peekTrailer x =>
    obtain ⟨hanswer, hz⟩ := h.peekTrailer ha
    exact ⟨meets_some hanswer, hz ▸ h⟩
  | aside _ _ _ hne => exact ⟨meets_none _, h.aside hne ha⟩

/-- By induction on the course, with the packet between its layers as the invariant. -/
theorem Framed.exec_of_stacked {acts : List (PacketAct τ)} {due : List (Option PacketAnswer)}
    (hst : Stacked i payload.length acts due hs ts) (h : Framed w i p payload hs ts) {answers : List PacketAnswer}
    {w' : Packets τ} (he : exec act w acts = .ok (answers, w')) :
    List.Forall₂ Meets answers due ∧ Framed w' i p payload [] [] := by
  induction hst generalizing w answers with
  | done =>
    cases he
    exact ⟨.nil, h⟩
  | step hstep _ ih =>
    obtain ⟨answer, w₁, rest, ha, hrest, rfl⟩ := exec_cons_eq_ok_iff.1 he
    obtain ⟨hanswer, hw₁⟩ := h.act_of_stacks hstep ha
    obtain ⟨hall, hw'⟩ := ih hw₁ hrest
    exact ⟨.cons hanswer hall, hw'⟩

/-- **Headers and trailers are stacks.** A packet in any state that packets can come to is given headers and trailers, and
has them taken off so that at each end the last one goes first, while anything is done to other packets, its copies and
fragments among them. Then every value comes back as it was put on, every look at a layer shows the value that taking it
off gives, unless the packet is empty, and in the end the packet has its number, bytes, byte tags and packet tags again.
The looks make no difference to any packet. There is no answer only if no byte string can be as long as the storage that
is needed. -/
theorem exec_act_of_stacked {before acts : List (PacketAct τ)} {answers₀ : List PacketAnswer}
    {due : List (Option PacketAnswer)} (hw : exec act empty before = .ok (answers₀, w)) (hi : w.packets[i]? = some (some p))
    (hst : Stacked i (p.size w.store) acts due [] []) :
    (∀ answers w', exec act w acts = .ok (answers, w') →
      List.Forall₂ Meets answers due ∧ w'.packets[i]? = some (some p) ∧ p.bytes w'.store = p.bytes w.store ∧
        (exec act w (acts.filter (!·.looks))).map Prod.snd = .ok w') ∧
      (AllFit TaggedValues.act TaggedValues.FitsAct w.values acts → ∃ z, exec act w acts = .ok z) := by
  have hvalid := ((keeps_exec (fun w a hw => Valid.keeps_act hw a) valid_empty before).same answers₀ w hw).1
  have hframed := framed_nil hvalid hi
  have hsize : p.size w.store = (p.bytes w.store).length := by
    obtain ⟨data, hb⟩ := hvalid.holds.live hi
    rw [Packet.size, Packet.bytes, hvalid.holds.valid.size_eq hb, Pool.bytes_eq hb]
  rw [hsize] at hst
  refine ⟨?_, (keeps_exec (fun w a hw => Valid.keeps_act hw a) hvalid acts).total⟩
  intro answers w' he
  obtain ⟨hall, hw'⟩ := hframed.exec_of_stacked hst he
  obtain ⟨hentry, hbytes⟩ := hw'.restored
  refine ⟨hall, hentry, hbytes, ?_⟩
  rw [exec_act_filter_looks, he]
  rfl

def portLayer : Leading :=
  PortHeader.leading ⟨1024, 80, 8, 7⟩ ⟨by decide, by decide, by decide, by decide⟩

def checkLayer : Trailing :=
  CheckTrailer.trailing ⟨0x12345678⟩ (by decide)

/-- A copy, taken between header and trailer, loses its first bytes; then the header is taken off, and the trailer after it. -/
def cutCopyActs : List (PacketAct Nat) :=
  [.operation (.addHeader 0 portLayer.codec portLayer.value), .operation (.copy 0),
    .operation (.addTrailer 0 checkLayer.codec checkLayer.value), .operation (.removeAtStart 1 2),
    .peekTrailer 0 checkLayer.codec, .operation (.removeHeader 0 portLayer.codec),
    .operation (.removeTrailer 0 checkLayer.codec)]

/-- The copy shares the storage of the bytes, and what is cut off from it does not harm the header. -/
theorem exec_act_of_stacked_cutCopyActs :
    ∃ w p, exec act (empty : Packets Nat) [.operation (.ofBytes [1, 2, 3]), .operation (.addByteTag 0 7)] =
        .ok ([.ok none, .ok none], w) ∧
      w.packets[0]? = some (some p) ∧
      ∃ answers w', exec act w cutCopyActs = .ok (answers, w') ∧
        List.Forall₂ Meets answers [some (.ok none), none, some (.ok none), none, some checkLayer.answer,
          some portLayer.answer, some checkLayer.answer] ∧
        w'.packets[0]? = some (some p) ∧ p.bytes w'.store = p.bytes w.store := by
  refine ⟨_, _, rfl, rfl, ?_⟩
  have hcourse : Stacked 0 3 cutCopyActs _ [] [] :=
    .step (.pushHeader portLayer _ _) <| .step (.aside (.operation (.copy 0)) _ _ nofun) <|
      .step (.pushTrailer checkLayer _ _) <| .step (.aside (.operation (.removeAtStart 1 2)) _ _ (by decide)) <|
      .step (.peekTrailer checkLayer _ _) <| .step (.popHeader portLayer _ _) <| .step (.popTrailer checkLayer _ _) .done
  have hstacked := exec_act_of_stacked (i := 0)
    (show exec act (empty : Packets Nat) [.operation (.ofBytes [1, 2, 3]), .operation (.addByteTag 0 7)] = .ok (_, _) from rfl)
    (show _ = some (some _) from rfl) hcourse
  obtain ⟨⟨answers, w'⟩, hrun⟩ := hstacked.2
    ⟨by rintro _ ⟨⟩; decide, trivial, by rintro _ ⟨⟩; decide, trivial, trivial, trivial, trivial, trivial⟩
  obtain ⟨hall, hentry, hbytes, -⟩ := hstacked.1 answers w' hrun
  exact ⟨answers, w', hrun, hall, hentry, hbytes⟩

/-- A header of a format that has no bytes. -/
def emptyScript : Leading where
  codec := Codec.ofSteps "Script" 0 [] []
  value := ⟨0, []⟩
  data := []
  length_data := rfl
  encodes := ⟨_, rfl, rfl, rfl⟩
  decodes _ := ⟨_, rfl, rfl⟩

/-- A header without bytes on an empty packet is not seen, although it can be taken off. -/
theorem peekHeader_emptyScript :
    ∃ w, exec act (empty : Packets Nat) [.operation (.ofBytes []),
        .operation (.addHeader 0 emptyScript.codec emptyScript.value), .peekHeader 0 emptyScript.codec,
        .operation (.removeHeader 0 emptyScript.codec)] =
      .ok ([.ok none, .ok none, .ok none, emptyScript.answer], w) ∧ (.ok none : PacketAnswer) ≠ emptyScript.answer :=
  ⟨_, rfl, nofun⟩

end Packets

end SimKernel
