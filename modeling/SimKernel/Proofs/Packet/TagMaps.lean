import Mathlib.Logic.Function.Basic
import SimKernel.Proofs.Packet.Denotation

/-!
# Packet tags are maps

A list of packet tags with at most one of each kind (`PacketTags.Unique`) is a map from kinds to tags: what is found under
a kind after a tag was attached, detached or replaced is what it is in the map (`find?_add`, `find?_remove`,
`find?_replace`). The operations keep tags unique, which the search by kind relies on.

Packets get their first tags from the packet that they are made of, and no operation on bytes changes them
(`Packets.labels_apply`). A tag is never changed where it is, only attached and detached, so that whoever else has it cannot
tell. Over any history each packet answers as a map of its own does, whichever tags it has in common with copies, fragments
and its origin (`Packets.exec_eq_tagMaps`).
-/

namespace SimKernel

variable {τ : Type}

namespace Operations

variable {β γ : Type} {κ : Type} {l : List (Option β)} {i : Nat}

theorem onEntry_of_some {x : β} (hi : l[i]? = some (some x)) (gone : κ) (g : β → κ) : onEntry l i gone g = g x := by
  rw [onEntry, hi]
  rfl

theorem apply_onEntry {δ : Type} (f : κ → δ) (l : List (Option β)) (i : Nat) (gone : κ) (g : β → κ) :
    f (onEntry l i gone g) = onEntry l i (f gone) fun x => f (g x) := by
  unfold onEntry
  cases l[i]?.join <;> rfl

theorem onEntry_map (f : β → γ) (l : List (Option β)) (i : Nat) (gone : κ) (g : γ → κ) :
    onEntry (l.map (Option.map f)) i gone g = onEntry l i gone fun x => g (f x) := by
  unfold onEntry
  rw [List.getElem?_map]
  rcases l[i]? with _ | (_ | x) <;> rfl

/-- A list with one of its entries repeated has no other entries. -/
theorem mem_of_mem_onEntry_append {x : β} (hx : some x ∈ onEntry l i l fun y => l ++ [some y]) : some x ∈ l := by
  unfold onEntry at hx
  split at hx
  case h_1 y hy =>
    rcases List.mem_append.1 hx with hx | hx
    · exact hx
    · rw [List.mem_singleton.1 hx]
      exact List.mem_of_getElem? (Option.join_eq_some_iff.1 hy)
  case h_2 => exact hx

end Operations

/-! ## One list of tags -/

/-- The tag of each kind. -/
abbrev TagMap (τ : Type) := String → Option τ

namespace PacketTags

variable [Tag τ] {ts : PacketTags τ} {t : τ} {kind : String}

/-- No two tags are of one kind. -/
def Unique (ts : PacketTags τ) : Prop := (ts.map Tag.kind).Nodup

theorem unique_nil : Unique ([] : PacketTags τ) := List.nodup_nil

theorem find?_cons (t : τ) (ts : PacketTags τ) (kind : String) :
    find? (t :: ts) kind = if Tag.kind t = kind then some t else find? ts kind := by
  rw [find?, List.find?_cons]
  by_cases h : Tag.kind t = kind
  · rw [beq_iff_eq.2 h, if_pos h]
  · rw [beq_eq_false_iff_ne.2 h, if_neg h]
    rfl

/-- No tag of a kind is found if none is there. -/
theorem find?_eq_none_iff : find? ts kind = none ↔ kind ∉ ts.map Tag.kind := by
  simp [find?]

/-- A tag of a new kind leaves one of each kind. -/
theorem Unique.attach (h : Unique ts) (hnew : find? ts (Tag.kind t) = none) : Unique (ts ++ [t]) := by
  rw [Unique, List.map_append]
  refine List.nodup_append.2 ⟨h, by simp, ?_⟩
  intro kind hkind other hother
  rw [List.mem_singleton.1 hother]
  exact fun he => find?_eq_none_iff.1 hnew (he ▸ hkind)

/-- A tag of a new kind is found from then on, and all others as before. -/
theorem find?_attach (hnew : find? ts (Tag.kind t) = none) :
    find? (ts ++ [t]) = Function.update (find? ts) (Tag.kind t) (some t) := by
  funext kind
  rw [find?, List.find?_append]
  by_cases hkind : kind = Tag.kind t
  · subst hkind
    rw [Function.update_self, show List.find? _ ts = none from hnew]
    simp
  · rw [Function.update_of_ne hkind]
    simp [find?, Ne.symm hkind]

theorem Unique.remove (h : Unique ts) (kind : String) : Unique (remove ts kind) :=
  h.sublist (List.eraseP_sublist.map _)

/-- By induction on the list: the first tag of the kind is the only one. -/
theorem find?_remove (h : Unique ts) (kind : String) : find? (remove ts kind) = Function.update (find? ts) kind none := by
  induction ts with
  | nil =>
    funext k
    simp [find?, remove, Function.update_apply]
  | cons t ts ih =>
    obtain ⟨hnew, hts⟩ := List.nodup_cons.1 (show (Tag.kind t :: ts.map Tag.kind).Nodup from h)
    funext k
    by_cases ht : Tag.kind t = kind
    · have hremove : remove (t :: ts) kind = ts := List.eraseP_cons_of_pos (by simpa using ht)
      rw [hremove]
      by_cases hk : k = kind
      · rw [hk, Function.update_self, find?_eq_none_iff, ← ht]
        exact hnew
      · rw [Function.update_of_ne hk, find?_cons, if_neg fun he => hk (he.symm.trans ht)]
    · have hremove : remove (t :: ts) kind = t :: remove ts kind := List.eraseP_cons_of_neg (by simpa using ht)
      rw [hremove, find?_cons, ih hts]
      by_cases hk : k = kind
      · rw [hk, if_neg ht, Function.update_self, Function.update_self]
      · rw [Function.update_of_ne hk, Function.update_of_ne hk, find?_cons]

/-- Where a tag was detached there is none of its kind. -/
theorem find?_remove_self (h : Unique ts) (kind : String) : find? (remove ts kind) kind = none := by
  rw [find?_remove h, Function.update_self]

/-- A tag in place of the one of its kind leaves one of each kind. -/
theorem Unique.replace (h : Unique ts) (t : τ) : Unique (replace ts t) :=
  (h.remove (Tag.kind t)).attach (find?_remove_self h _)

/-- A tag that was put in is found, and all of other kinds as before. -/
theorem find?_replace (h : Unique ts) (t : τ) :
    find? (replace ts t) = Function.update (find? ts) (Tag.kind t) (some t) := by
  rw [PacketTags.replace, find?_attach (find?_remove_self h _), find?_remove h, Function.update_idem]

end PacketTags

/-! ## Maps of their own -/

/-- The map with a further tag, and whether it was added; a tag of the same kind stays. -/
def TagMap.add [Tag τ] (m : TagMap τ) (t : τ) : Bool × TagMap τ :=
  if (m (Tag.kind t)).isSome then (false, m) else (true, Function.update m (Tag.kind t) (some t))

theorem PacketTags.Unique.add [Tag τ] {ts : PacketTags τ} (h : Unique ts) (t : τ) : Unique (PacketTags.add ts t).2 := by
  unfold PacketTags.add
  split
  case isTrue => exact h
  case isFalse hnew => exact h.attach (by simpa using hnew)

/-- Attaching a tag to a list is adding it to the map. -/
theorem PacketTags.find?_add [Tag τ] (ts : PacketTags τ) (t : τ) :
    ((PacketTags.add ts t).1, find? (PacketTags.add ts t).2) = TagMap.add (find? ts) t := by
  unfold PacketTags.add TagMap.add
  split
  case isTrue => rfl
  case isFalse hnew => rw [find?_attach (by simpa using hnew)]

/-- What is asked about packet tags, and operations on packets. -/
inductive TagRequest (τ : Type) : Type 1 where
  | operation (op : PacketOp τ)
  | add (i : Nat) (tag : τ)
  | peek (i : Nat) (kind : String)
  | remove (i : Nat) (kind : String)
  | replace (i : Nat) (tag : τ)
  | clear (i : Nat)

/-- The answer of an operation, whether a tag was attached, or the tag that was found. -/
inductive TagAnswer (τ : Type) : Type 1 where
  | done (answer : PacketAnswer)
  | added (b : Bool)
  | found (tag : Option τ)

/-- What packets show: their bytes with the tags on them, and a map of packet tags for each of them. -/
structure MarkedValues (τ : Type) where
  bytes : TaggedValues τ
  maps : List (Option (TagMap τ))

namespace MarkedValues

open Operations

/-- What packets have beside their bytes after an operation: a new packet has `new`, and a copy or fragment has what its
origin has. -/
def inherit {κ : Type} (bytes : TaggedValues τ) (new : κ) (l : List (Option κ)) : PacketOp τ → List (Option κ)
  | .ofBytes _ | .ofSize _ => l ++ [some new]
  | .copy i => onEntry l i l fun x => l ++ [some x]
  | .fragment i start length => onEntry bytes i l fun v =>
    if start + length ≤ v.length then onEntry l i l fun x => l ++ [some x] else l
  | .drop i => onEntry l i l fun _ => l.set i none
  | _ => l

/-- To look at what was inherited is to inherit what is seen. -/
theorem inherit_map {κ δ : Type} (f : κ → δ) (bytes : TaggedValues τ) (new : κ) (l : List (Option κ)) (op : PacketOp τ) :
    (inherit bytes new l op).map (Option.map f) = inherit bytes (f new) (l.map (Option.map f)) op := by
  cases op with
  | ofBytes data => exact List.map_append
  | ofSize n => exact List.map_append
  | copy i =>
    rw [inherit, inherit, apply_onEntry (List.map (Option.map f)), onEntry_map]
    simp only [List.map_append]
    rfl
  | fragment i start length =>
    rw [inherit, inherit, apply_onEntry (List.map (Option.map f))]
    congr 1
    funext v
    rw [apply_ite (List.map (Option.map f)), apply_onEntry (List.map (Option.map f)), onEntry_map]
    simp only [List.map_append]
    rfl
  | drop i =>
    rw [inherit, inherit, apply_onEntry (List.map (Option.map f)), onEntry_map]
    simp only [List.map_set]
    rfl
  | _ => rfl

/-- Nothing is inherited that was not there, or is new. -/
theorem mem_inherit {κ : Type} {bytes : TaggedValues τ} {new x : κ} {l : List (Option κ)} {op : PacketOp τ}
    (hx : some x ∈ inherit bytes new l op) : some x ∈ l ∨ x = new := by
  cases op with
  | ofBytes data | ofSize n =>
    rcases List.mem_append.1 hx with hx | hx
    · exact .inl hx
    · exact .inr (Option.some.inj (List.mem_singleton.1 hx))
  | copy i => exact .inl (mem_of_mem_onEntry_append hx)
  | fragment i start length =>
    rw [inherit, onEntry] at hx
    split at hx
    case h_1 v _ =>
      split at hx
      · exact .inl (mem_of_mem_onEntry_append hx)
      · exact .inl hx
    case h_2 => exact .inl hx
  | drop i =>
    rw [inherit, onEntry] at hx
    split at hx
    · rcases List.mem_or_eq_of_mem_set hx with hx | hx
      · exact .inl hx
      · cases hx
    · exact .inl hx
  | _ => exact .inl hx

/-- A request to the map of one packet; a request to a packet that was dropped changes nothing. -/
def onMap (vs : MarkedValues τ) (i : Nat) (f : TagMap τ → TagAnswer τ × TagMap τ) : TagAnswer τ × MarkedValues τ :=
  onEntry vs.maps i (.done (.ok none), vs) fun m => ((f m).1, { vs with maps := vs.maps.set i (some (f m).2) })

/-- One request to independent lists of tagged bytes and independent maps. -/
def apply [Tag τ] (vs : MarkedValues τ) : TagRequest τ → TagAnswer τ × MarkedValues τ
  | .operation op => (.done (vs.bytes.apply op).1, ⟨(vs.bytes.apply op).2, inherit vs.bytes (fun _ => none) vs.maps op⟩)
  | .add i t => vs.onMap i fun m => (.added (m.add t).1, (m.add t).2)
  | .peek i kind => vs.onMap i fun m => (.found (m kind), m)
  | .remove i kind => vs.onMap i fun m => (.found (m kind), Function.update m kind none)
  | .replace i t => vs.onMap i fun m => (.found (m (Tag.kind t)), Function.update m (Tag.kind t) (some t))
  | .clear i => vs.onMap i fun _ => (.done (.ok none), fun _ => none)

/-- The storage that the request needs at most is no longer than a byte string can be. -/
def Fits (vs : MarkedValues τ) : TagRequest τ → Prop
  | .operation op => vs.bytes.Fits op
  | _ => True

end MarkedValues

/-! ## Tags of packets -/

namespace Packets

open Operations MarkedValues

/-- The packet tags of every packet. -/
def labels (w : Packets τ) : List (Option (PacketTags τ)) := w.packets.map (Option.map Packet.packetTags)

/-- What packets show. -/
def marked [Tag τ] (w : Packets τ) : MarkedValues τ := ⟨w.values, w.labels.map (Option.map PacketTags.find?)⟩

/-- A request to one packet; a request to a packet that was dropped changes nothing. -/
def onTags (w : Packets τ) (i : Nat) (f : Packet τ → TagAnswer τ × Packet τ) : Except Fault (TagAnswer τ × Packets τ) :=
  onEntry w.packets i (.ok (.done (.ok none), w)) fun p => .ok ((f p).1, w.put i (f p).2 w.store)

/-- One request to packets. -/
def request [Tag τ] (w : Packets τ) : TagRequest τ → Except Fault (TagAnswer τ × Packets τ)
  | .operation op => (w.apply op).map fun x => (.done x.1, x.2)
  | .add i t => w.onTags i fun p => (.added (p.addPacketTag t).1, (p.addPacketTag t).2)
  | .peek i kind => w.onTags i fun p => (.found (p.packetTag? kind), p)
  | .remove i kind => w.onTags i fun p => (.found (p.removePacketTag kind).1, (p.removePacketTag kind).2)
  | .replace i t => w.onTags i fun p => (.found (p.replacePacketTag t).1, (p.replacePacketTag t).2)
  | .clear i => w.onTags i fun p => (.done (.ok none), p.clearPacketTags)

/-! ## Operations on bytes leave packet tags alone -/

variable {w : Packets τ} {i : Nat} {p p' : Packet τ} {s s' : PacketStore} {z : PacketAnswer × Packets τ} {β : Type}

/-- A header makes no difference to the packet tags, and so for all other operations on the bytes. -/
theorem packetTags_of_addHeader {c : Codec β} {header : β} {x : Except PacketError (Packet τ) × PacketStore}
    (hx : p.addHeader s c header = .ok x) (hp : x.1 = .ok p') : p'.packetTags = p.packetTags := by
  obtain ⟨⟨outcome, pool⟩, -, hrest⟩ := Outcome.bind_eq_ok_iff.1 hx
  rcases outcome with e | _
  · dsimp only at hrest
    split at hrest <;> cases hrest <;> cases hp
  · cases hrest
    cases hp
    rfl

theorem packetTags_of_removeAtStart {n : Nat} (h : p.removeAtStart s n = .ok (p', s')) : p'.packetTags = p.packetTags := by
  obtain ⟨pool, -, hrest⟩ := Outcome.bind_eq_ok_iff.1 h
  cases hrest
  rfl

theorem packetTags_of_removeAtEnd {n : Nat} (h : p.removeAtEnd s n = .ok (p', s')) : p'.packetTags = p.packetTags := by
  obtain ⟨pool, -, hrest⟩ := Outcome.bind_eq_ok_iff.1 h
  cases hrest
  rfl

theorem packetTags_of_removeHeader {c : Codec β} {header : β} (h : p.removeHeader s c = .ok (header, p', s')) :
    p'.packetTags = p.packetTags := by
  obtain ⟨⟨value, consumed⟩, -, hrest⟩ := Outcome.bind_eq_ok_iff.1 h
  obtain ⟨x, hx, he⟩ := Outcome.bind_eq_ok_iff.1 hrest
  cases he
  exact packetTags_of_removeAtStart hx

theorem packetTags_of_removeTrailer {c : Codec β} {trailer : β} (h : p.removeTrailer s c = .ok (trailer, p', s')) :
    p'.packetTags = p.packetTags := by
  obtain ⟨⟨value, consumed⟩, -, hrest⟩ := Outcome.bind_eq_ok_iff.1 h
  obtain ⟨x, hx, he⟩ := Outcome.bind_eq_ok_iff.1 hrest
  cases he
  exact packetTags_of_removeAtEnd hx

theorem packetTags_of_append {other : Packet τ} (h : p.append other s = .ok (p', s')) : p'.packetTags = p.packetTags := by
  obtain ⟨pool, -, hrest⟩ := Outcome.bind_eq_ok_iff.1 h
  cases hrest
  rfl

theorem packetTags_of_addByteTagRange {tag : τ} {start stop : Nat} (h : p.addByteTagRange s tag start stop = .ok p') :
    p'.packetTags = p.packetTags := by
  unfold Packet.addByteTagRange at h
  split at h
  · cases h
    rfl
  · cases h

/-! ## Labels -/

/-- An entry that gets another packet with the same tags. -/
theorem labels_put (hi : w.packets[i]? = some (some p)) (hp : p'.packetTags = p.packetTags) (s : PacketStore) :
    (w.put i p' s).labels = w.labels := by
  rw [labels, put, List.map_set, Option.map_some, hp]
  refine set_eq_self ?_
  rw [List.getElem?_map, hi]
  rfl

theorem labels_of_on {f : Packet τ → Except Fault (PacketAnswer × Packets τ)} (h : w.on i f = .ok z)
    (hf : ∀ p, w.packets[i]? = some (some p) → f p = .ok z → z.2.labels = w.labels) : z.2.labels = w.labels := by
  unfold on onEntry at h
  split at h
  case h_1 p hp => exact hf p (Option.join_eq_some_iff.1 hp) h
  case h_2 =>
    cases h
    rfl

/-- A packet that is settled has the labels that it is settled with, or those from before. -/
theorem labels_settle {σ : Type} {l : List (Option (PacketTags τ))} {x : Except PacketError σ} {f : σ → Packets τ}
    (hw : w.labels = l) (hf : ∀ y, x = .ok y → (f y).labels = l) : (w.settle x f).2.labels = l := by
  cases x with
  | error e => exact hw
  | ok y => exact hf y rfl

theorem labels_settleRemoved {x : Except PacketError (β × Packet τ × PacketStore)} (hi : w.packets[i]? = some (some p))
    (hx : ∀ value p' s', x = .ok (value, p', s') → p'.packetTags = p.packetTags) :
    (w.settleRemoved i x).2.labels = w.labels := by
  rcases x with e | ⟨value, p', s'⟩
  · rfl
  · exact labels_put hi (hx _ _ _ rfl) s'

/-- A new packet brings its labels. -/
theorem labels_make (w : Packets τ) (made : Packet τ × PacketStore) :
    (w.make made).labels = w.labels ++ [some made.1.packetTags] := by
  rw [labels, make, List.map_append]
  rfl

/-- To look at the labels of a packet is to look at the packet. -/
theorem onEntry_labels {κ : Type} (w : Packets τ) (i : Nat) (gone : κ) (g : PacketTags τ → κ) :
    onEntry w.labels i gone g = onEntry w.packets i gone fun p => g p.packetTags :=
  onEntry_map _ _ _ _ _

theorem onEntry_values {κ : Type} (w : Packets τ) (i : Nat) (gone : κ) (g : Tagged τ → κ) :
    onEntry w.values i gone g = onEntry w.packets i gone fun p => g (p.tagged w.store) :=
  onEntry_map _ _ _ _ _

/-- What becomes of the labels by an operation on a packet that is there. -/
theorem labels_of_on_ok {f : Packet τ → PacketAnswer × Packets τ} {g : Packet τ → List (Option (PacketTags τ))}
    (h : (w.on i fun p => .ok (f p)) = .ok z) (hf : ∀ p, w.packets[i]? = some (some p) → (f p).2.labels = g p) :
    z.2.labels = onEntry w.packets i w.labels g := by
  unfold on onEntry at h
  unfold onEntry
  split at h
  case h_1 p hp =>
    cases h
    exact hf p (Option.join_eq_some_iff.1 hp)
  case h_2 =>
    cases h
    rfl

/-- A fragment has the tags of its origin, if there are such bytes. -/
theorem Valid.labels_fragment (h : w.Valid) (hi : w.packets[i]? = some (some p)) (start length : Nat) :
    (w.settle (p.fragment w.store start length) w.make).2.labels =
      if start + length ≤ (p.tagged w.store).length then w.labels ++ [some p.packetTags] else w.labels := by
  obtain ⟨data, hb⟩ := h.holds.live hi
  rw [tagged_eq hb, ByteTags.length_cover]
  split
  case isTrue hle =>
    obtain ⟨made, hm, -⟩ := h.holds.valid.fragment hb hle
    rw [Packet.fragment, hm]
    exact labels_make w _
  case isFalse hlt =>
    rw [Packet.fragment, h.holds.valid.fragment_of_lt hb hlt]
    rfl

/-- No operation on packets changes the tags of one that is there, and a new one has those of its origin, if it has one. -/
theorem Valid.labels_apply (h : w.Valid) {op : PacketOp τ} (he : w.apply op = .ok z) :
    z.2.labels = inherit w.values [] w.labels op := by
  cases op with
  | ofBytes data =>
    cases he
    exact labels_make w _
  | ofSize n =>
    obtain ⟨made, hm, rfl⟩ := Outcome.map_eq_ok_iff.1 he
    obtain ⟨x, -, rfl⟩ := Outcome.map_eq_ok_iff.1 hm
    exact labels_make w _
  | copy i =>
    rw [inherit, onEntry_labels]
    exact labels_of_on_ok he fun p hi => labels_make w _
  | fragment i start length =>
    rw [inherit, onEntry_values]
    refine labels_of_on_ok he fun p hi => ?_
    rw [onEntry_labels, onEntry_of_some hi]
    exact h.labels_fragment hi start length
  | addHeader i c header =>
    refine labels_of_on he fun p hi hp => ?_
    obtain ⟨x, hx, rfl⟩ := Outcome.map_eq_ok_iff.1 hp
    exact labels_settle (labels_put hi rfl _) fun p' hp' => labels_put hi (packetTags_of_addHeader hx hp') _
  | addTrailer i c trailer =>
    refine labels_of_on he fun p hi hp => ?_
    obtain ⟨x, hx, rfl⟩ := Outcome.map_eq_ok_iff.1 hp
    exact labels_settle (labels_put hi rfl _) fun _ _ => labels_put hi rfl _
  | removeHeader i c =>
    refine labels_of_on he fun p hi hp => ?_
    cases hp
    exact labels_settleRemoved hi fun _ _ _ hx => packetTags_of_removeHeader hx
  | removeTrailer i c =>
    refine labels_of_on he fun p hi hp => ?_
    cases hp
    exact labels_settleRemoved hi fun _ _ _ hx => packetTags_of_removeTrailer hx
  | removeAtStart i n =>
    refine labels_of_on he fun p hi hp => ?_
    cases hp
    exact labels_settle rfl fun x hx => labels_put hi (packetTags_of_removeAtStart hx) _
  | removeAtEnd i n =>
    refine labels_of_on he fun p hi hp => ?_
    cases hp
    exact labels_settle rfl fun x hx => labels_put hi (packetTags_of_removeAtEnd hx) _
  | addPadding i n =>
    refine labels_of_on he fun p hi hp => ?_
    obtain ⟨s, -, rfl⟩ := Outcome.map_eq_ok_iff.1 hp
    exact labels_put hi rfl s
  | append i j =>
    refine labels_of_on he fun p hi hp => labels_of_on hp fun other _ ho => ?_
    obtain ⟨x, hx, rfl⟩ := Outcome.map_eq_ok_iff.1 ho
    exact labels_put hi (packetTags_of_append hx) _
  | addByteTag i tag =>
    refine labels_of_on he fun p hi hp => ?_
    cases hp
    exact labels_settle rfl fun x hx => labels_put hi (packetTags_of_addByteTagRange hx) _
  | addByteTagRange i tag start stop =>
    refine labels_of_on he fun p hi hp => ?_
    cases hp
    exact labels_settle rfl fun x hx => labels_put hi (packetTags_of_addByteTagRange hx) _
  | clearByteTags i =>
    refine labels_of_on he fun p hi hp => ?_
    cases hp
    exact labels_put hi (show p.clearByteTags.packetTags = p.packetTags from rfl) _
  | drop i =>
    rw [inherit, onEntry_labels]
    refine labels_of_on_ok he fun p hi => ?_
    rw [labels, List.map_set]
    rfl
  | resetUids =>
    cases he
    rfl

/-! ## Single requests -/

section Requests

variable [Tag τ]

/-- The packets are as they should be, and none has two tags of a kind. -/
structure Labelled (w : Packets τ) : Prop where
  valid : w.Valid
  unique : ∀ ts, some ts ∈ w.labels → PacketTags.Unique ts

/-- Without packets there is nothing to show. -/
theorem labelled_empty : (empty : Packets τ).Labelled where
  valid := valid_empty
  unique _ h := absurd h List.not_mem_nil

/-- A change of the packet tags of one packet is a change of its map only. -/
theorem Labelled.relabel (h : w.Labelled) (hi : w.packets[i]? = some (some p)) (hbuffer : p'.buffer = p.buffer)
    (htags : p'.byteTags = p.byteTags) (hunique : p'.packetTags.Unique) :
    (w.put i p' w.store).Labelled ∧ (w.put i p' w.store).marked =
      { w.marked with maps := w.marked.maps.set i (some (PacketTags.find? p'.packetTags)) } := by
  obtain ⟨data, hb⟩ := h.valid.holds.live hi
  obtain ⟨hvalid, hvalues⟩ := h.valid.retag hi hb hbuffer (htags ▸ h.valid.within hi hb)
  have hlabels : (w.put i p' w.store).labels = w.labels.set i (some p'.packetTags) := by
    rw [labels, put, List.map_set]
    rfl
  have hvi : w.values[i]? = some (some (p'.byteTags.cover data)) := by
    rw [values, List.getElem?_map, hi, htags, ← tagged_eq hb]
    rfl
  refine ⟨⟨hvalid, ?_⟩, ?_⟩
  · intro ts hts
    rw [hlabels] at hts
    rcases List.mem_or_eq_of_mem_set hts with hts | hts
    · exact h.unique ts hts
    · cases hts
      exact hunique
  · rw [marked, hvalues, set_eq_self hvi, hlabels, List.map_set]
    rfl

/-- A request to a packet that does to its tags what it does to the map of them. -/
theorem Labelled.keeps_onTags (h : w.Labelled) {f : Packet τ → TagAnswer τ × Packet τ}
    {g : TagMap τ → TagAnswer τ × TagMap τ} {fits : Prop}
    (hf : ∀ p : Packet τ, p.packetTags.Unique → (f p).2.buffer = p.buffer ∧ (f p).2.byteTags = p.byteTags ∧
      PacketTags.Unique (f p).2.packetTags ∧
      g (PacketTags.find? p.packetTags) = ((f p).1, PacketTags.find? (f p).2.packetTags)) :
    Keeps Labelled marked (w.onTags i f) (w.marked.onMap i g) fits := by
  have hmaps : w.marked.maps = w.packets.map (Option.map fun p => PacketTags.find? p.packetTags) := by
    rw [marked, labels, List.map_map]
    refine List.map_congr_left fun o _ => ?_
    cases o <;> rfl
  refine keeps_onEntry ⟨h, rfl⟩ hmaps fun p hi _ => ?_
  have hunique : p.packetTags.Unique := h.unique _ (List.mem_map.2 ⟨some p, List.mem_of_getElem? hi, rfl⟩)
  obtain ⟨hbuffer, htags, hnew, hg⟩ := hf p hunique
  rw [hg]
  exact keeps_ok _ (h.relabel hi hbuffer htags hnew)

/-- Every request to packets is the request to the lists of tagged bytes and the maps. -/
theorem Labelled.keeps_request (h : w.Labelled) (r : TagRequest τ) :
    Keeps Labelled marked (w.request r) (w.marked.apply r) (w.marked.Fits r) := by
  cases r with
  | operation op =>
    have hkeeps := h.valid.keeps_apply op
    constructor
    · intro answer w' he
      obtain ⟨⟨a, w'⟩, hx, hx'⟩ := Outcome.map_eq_ok_iff.1 he
      cases hx'
      obtain ⟨hvalid, hbytes⟩ := hkeeps.same _ _ hx
      have hlabels : w'.labels = inherit w.values [] w.labels op := h.valid.labels_apply hx
      refine ⟨⟨hvalid, ?_⟩, ?_⟩
      · intro ts hts
        rw [hlabels] at hts
        rcases mem_inherit hts with hts | rfl
        · exact h.unique ts hts
        · exact PacketTags.unique_nil
      · rw [MarkedValues.apply, marked, marked, hlabels, inherit_map, hbytes]
        rfl
    · intro hf
      obtain ⟨x, hx⟩ := hkeeps.total hf
      exact ⟨_, by rw [request, hx]; rfl⟩
  | add i t =>
    refine h.keeps_onTags fun p hp => ⟨rfl, rfl, hp.add t, ?_⟩
    rw [← PacketTags.find?_add]
    rfl
  | peek i kind => exact h.keeps_onTags fun p hp => ⟨rfl, rfl, hp, rfl⟩
  | remove i kind =>
    refine h.keeps_onTags fun p hp => ⟨rfl, rfl, hp.remove kind, ?_⟩
    rw [← PacketTags.find?_remove hp]
    rfl
  | replace i t =>
    refine h.keeps_onTags fun p hp => ⟨rfl, rfl, hp.replace t, ?_⟩
    rw [← PacketTags.find?_replace hp]
    rfl
  | clear i => exact h.keeps_onTags fun p _ => ⟨rfl, rfl, PacketTags.unique_nil, rfl⟩

/-! ## Histories -/

/-- **Packet tags are maps.** Whatever is done to any number of packets and asked about their tags, in any order, every
request has the answer that it has on independent lists of tagged bytes and independent maps from kinds to tags: a tag is
added only where there is none of its kind, and what is detached or replaced is what was attached. Afterwards no packet has
two tags of one kind, and every packet shows its own map, also where it is a copy, a fragment or the origin of others. There
is no answer only if no byte string can be as long as the storage that is needed. -/
theorem exec_eq_tagMaps (ops : List (TagRequest τ)) :
    (∀ answers (w : Packets τ), exec request empty ops = .ok (answers, w) →
      model MarkedValues.apply ⟨[], []⟩ ops = (answers, w.marked) ∧
        ∀ p, some p ∈ w.packets → PacketTags.Unique p.packetTags) ∧
      (AllFit MarkedValues.apply MarkedValues.Fits ⟨[], []⟩ ops → ∃ z, exec request (empty : Packets τ) ops = .ok z) := by
  have hkeeps := keeps_exec (fun (w : Packets τ) r hw => Labelled.keeps_request hw r) labelled_empty ops
  refine ⟨fun answers w he => ?_, hkeeps.total⟩
  obtain ⟨hw, hsame⟩ := hkeeps.same answers w he
  exact ⟨hsame, fun p hp => hw.unique _ (List.mem_map.2 ⟨some p, hp, rfl⟩)⟩

end Requests

/-- A tag with a kind of its own. -/
structure Label where
  kind : String
  value : Nat
deriving DecidableEq

instance : Tag Label := ⟨Label.kind⟩

/-- A packet with a tag, a copy and a fragment of it, of which one gets another tag and one loses its own. -/
def sharedLabel : List (TagRequest Label) :=
  [.operation (.ofBytes [1, 2, 3]), .add 0 ⟨"flow", 1⟩, .operation (.copy 0), .operation (.fragment 0 1 2),
    .add 1 ⟨"flow", 2⟩, .replace 1 ⟨"flow", 3⟩, .remove 2 "flow", .peek 0 "flow", .peek 1 "flow", .peek 2 "flow"]

/-- A copy and a fragment have the label of their origin, which keeps it whatever becomes of theirs. -/
theorem exec_eq_tagMaps_sharedLabel :
    ∃ w, exec request empty sharedLabel =
        .ok ([.done (.ok none), .added true, .done (.ok none), .done (.ok none), .added false,
          .found (some ⟨"flow", 1⟩), .found (some ⟨"flow", 1⟩), .found (some ⟨"flow", 1⟩), .found (some ⟨"flow", 3⟩),
          .found none], w) ∧
      ∀ p, some p ∈ w.packets → PacketTags.Unique p.packetTags := by
  obtain ⟨hsame, htotal⟩ := exec_eq_tagMaps sharedLabel
  have hfit : AllFit MarkedValues.apply MarkedValues.Fits ⟨[], []⟩ sharedLabel := by
    simp only [sharedLabel, AllFit, MarkedValues.Fits, TaggedValues.Fits, and_true]
  obtain ⟨⟨answers, w⟩, hw⟩ := htotal hfit
  obtain ⟨hmodel, hunique⟩ := hsame answers w hw
  obtain rfl : _ = answers := congrArg Prod.fst hmodel
  exact ⟨w, hw, hunique⟩

end Packets

end SimKernel
