import Mathlib.Data.List.Basic
import Mathlib.Data.List.Induction
import Mathlib.Data.List.Pairwise
import SimKernel.Proofs.Agenda.Slots

/-!
# The event slots over their history

A history lists what was asked of the slots with what came of it (`EventSlots.ask`). From it alone follows which event
lies in which slot: it was stored there, and nothing removed it since (`SlotHistory.Stores`). The invariant is
`EventSlots.Follows`, kept by each request (`Follows.apply`).

So at every time the free slots are the vacant ones, an event goes where none is, and it answers to its slot and number
as long as it is there (`ask_eq_stores`).
-/

namespace SimKernel

variable {α : Type}

/-! ## Requests and what came of them -/

/-- What is asked of the slots. -/
inductive SlotOp (α : Type) where
  | insert (r : EventRecord α)
  | get (slot uid : Nat)
  | take (slot uid : Nat)
  | clear

/-- The number of the event that a request brings. -/
def SlotOp.uid? : SlotOp α → Option Nat
  | insert r => some r.uid
  | _ => none

/-- A request with its answer. -/
inductive SlotDeed (α : Type) where
  | stored (r : EventRecord α) (slot : Nat)
  | looked (slot uid : Nat) (found : Option (EventRecord α))
  | taken (slot uid : Nat) (found : Option (EventRecord α))
  | cleared

namespace SlotDeed

/-- The number of the event that was stored. -/
def uid? : SlotDeed α → Option Nat
  | stored r _ => some r.uid
  | _ => none

/-- If the event with the number `uid` is in the slot, the deed removes it. -/
def Removes (slot uid : Nat) : SlotDeed α → Prop
  | taken slot' uid' _ => slot' = slot ∧ uid' = uid
  | cleared => True
  | _ => False

end SlotDeed

/-- Requests in the order in which they were made, each with its answer. -/
abbrev SlotHistory (α : Type) := List (SlotDeed α)

namespace SlotHistory

/-- The event was stored in the slot, and nothing removed it since. -/
def Stores (h : SlotHistory α) (slot : Nat) (r : EventRecord α) : Prop :=
  ∃ before after, h = before ++ .stored r slot :: after ∧ ∀ deed ∈ after, ¬ deed.Removes slot r.uid

variable {h : SlotHistory α} {slot slot' : Nat} {r r' : EventRecord α}

/-- Before any request nothing is stored. -/
theorem not_stores_nil : ¬ Stores ([] : SlotHistory α) slot r := by
  rintro ⟨before, after, he, -⟩
  simp at he

/-- What is in a slot after one more deed. -/
theorem stores_concat {deed : SlotDeed α} :
    Stores (h ++ [deed]) slot r ↔ deed = .stored r slot ∨ Stores h slot r ∧ ¬ deed.Removes slot r.uid := by
  constructor
  · rintro ⟨before, after, he, hafter⟩
    rcases List.eq_nil_or_concat after with rfl | ⟨after, last, rfl⟩
    · exact .inl (List.singleton_inj.1 (List.append_inj_right' he rfl))
    · rw [List.concat_eq_append] at he hafter
      rw [← List.cons_append, ← List.append_assoc] at he
      obtain ⟨rfl, hlast⟩ := List.append_inj' he rfl
      obtain rfl : deed = last := List.singleton_inj.1 hlast
      refine .inr ⟨⟨before, after, rfl, fun d hd => hafter d (List.mem_append_left _ hd)⟩, hafter deed ?_⟩
      exact List.mem_append_right _ (List.mem_singleton_self deed)
  · rintro (rfl | ⟨⟨before, after, rfl, hafter⟩, hdeed⟩)
    · exact ⟨h, [], rfl, fun _ hd => absurd hd List.not_mem_nil⟩
    · refine ⟨before, after ++ [deed], by rw [List.append_assoc, List.cons_append], fun d hd => ?_⟩
      rcases List.mem_append.1 hd with hd | hd
      · exact hafter d hd
      · rwa [List.mem_singleton.1 hd]

theorem Stores.mem (hs : Stores h slot r) : .stored r slot ∈ h := by
  obtain ⟨before, after, rfl, -⟩ := hs
  exact List.mem_append_right _ List.mem_cons_self

/-- If all events that were stored have numbers of their own, a number names one event in one slot. -/
theorem Stores.unique (hnumbers : (h.filterMap SlotDeed.uid?).Nodup) (hs : Stores h slot r) (hs' : Stores h slot' r')
    (huid : r.uid = r'.uid) : slot = slot' ∧ r = r' := by
  let Apart (d d' : SlotDeed α) : Prop := ∀ n, d.uid? = some n → ∀ n', d'.uid? = some n' → n ≠ n'
  have hapart : h.Pairwise Apart := List.pairwise_filterMap.1 hnumbers
  have : Std.Symm Apart := ⟨fun _ _ hd n hn n' hn' => (hd n' hn' n hn).symm⟩
  by_contra hne
  refine hapart.forall hs.mem hs'.mem ?_ _ rfl _ rfl huid
  rintro ⟨⟩
  exact hne ⟨rfl, rfl⟩

end SlotHistory

namespace EventSlots

open SlotHistory

/-- One request, with its answer. -/
def apply (s : EventSlots α) : SlotOp α → SlotDeed α × EventSlots α
  | .insert r => (.stored r (s.insert r).1, (s.insert r).2)
  | .get slot uid => (.looked slot uid (s.get? slot uid), s)
  | .take slot uid =>
    match s.take? slot uid with
    | some (r, rest) => (.taken slot uid (some r), rest)
    | none => (.taken slot uid none, s)
  | .clear => (.cleared, empty)

/-- The requests one after the other, on slots that are empty at first: their history, and the slots after them. -/
def ask (ops : List (SlotOp α)) : SlotHistory α × EventSlots α :=
  ops.foldl (fun x op => (x.1 ++ [(x.2.apply op).1], (x.2.apply op).2)) ([], empty)

theorem ask_concat (ops : List (SlotOp α)) (op : SlotOp α) :
    ask (ops ++ [op]) = ((ask ops).1 ++ [((ask ops).2.apply op).1], ((ask ops).2.apply op).2) :=
  List.foldl_concat _ _ _ _

theorem apply_take {s rest : EventSlots α} {slot uid : Nat} {r : EventRecord α} (ht : s.take? slot uid = some (r, rest)) :
    s.apply (.take slot uid) = (.taken slot uid (some r), rest) := by
  simp only [apply, ht]

/-- To take what is not there changes nothing. -/
theorem apply_take_of_missing {s : EventSlots α} {slot uid : Nat} (hget : s.get? slot uid = none) :
    s.apply (.take slot uid) = (.taken slot uid none, s) := by
  simp only [apply, take?_eq_none_iff.2 hget]

/-! ## What the slots hold is told by their history -/

/-- The free slots are the vacant ones, and the slots hold what was stored in them and not removed. -/
structure Follows (s : EventSlots α) (h : SlotHistory α) : Prop where
  valid : s.Valid
  record?_iff : ∀ slot r, s.record? slot = some r ↔ h.Stores slot r

variable {s rest : EventSlots α} {h : SlotHistory α} {slot uid : Nat} {r : EventRecord α}

theorem follows_empty : (empty : EventSlots α).Follows [] where
  valid := valid_empty
  record?_iff slot r := by
    rw [record?_empty]
    exact ⟨nofun, fun hs => absurd hs not_stores_nil⟩

/-- An event is found exactly if it was stored in that slot under that number, and nothing removed it since. -/
theorem Follows.get?_iff (hs : s.Follows h) : s.get? slot uid = some r ↔ r.uid = uid ∧ h.Stores slot r := by
  rw [get?_eq_some_iff, hs.record?_iff, and_comm]

/-- An event is stored where none is, so it does not hide another. -/
theorem Follows.insert (hs : s.Follows h) (r : EventRecord α) :
    (s.insert r).2.Follows (h ++ [.stored r (s.insert r).1]) where
  valid := hs.valid.insert r
  record?_iff slot r' := by
    rw [record?_insert hs.valid, insert_fst, stores_concat]
    constructor
    · intro hr
      split at hr
      case isTrue he => cases hr; exact .inl (he ▸ rfl)
      case isFalse => exact .inr ⟨(hs.record?_iff _ _).1 hr, id⟩
    · rintro (⟨⟨⟩⟩ | ⟨hstores, -⟩)
      · exact if_pos rfl
      · have hr := (hs.record?_iff _ _).2 hstores
        rw [if_neg, hr]
        rintro rfl
        -- the slot that was chosen was vacant
        rw [hs.valid.record?_nextSlot] at hr
        cases hr

theorem Follows.look (hs : s.Follows h) (found : Option (EventRecord α)) :
    s.Follows (h ++ [.looked slot uid found]) where
  valid := hs.valid
  record?_iff slot r := by
    rw [hs.record?_iff, stores_concat]
    exact ⟨fun hr => .inr ⟨hr, id⟩, fun hr => (hr.resolve_left nofun).1⟩

/-- Taking an event removes it and no other: the others lie in other slots. -/
theorem Follows.take (hs : s.Follows h) (ht : s.take? slot uid = some (r, rest)) :
    rest.Follows (h ++ [.taken slot uid (some r)]) := by
  obtain ⟨hget, hvalid, hrecord, -⟩ := take?_eq_some hs.valid ht
  refine ⟨hvalid, fun i r' => ?_⟩
  rw [hrecord, stores_concat]
  obtain ⟨hr, rfl⟩ := get?_eq_some_iff.1 hget
  constructor
  · intro hr'
    split at hr'
    case isTrue => cases hr'
    case isFalse hne => exact .inr ⟨(hs.record?_iff _ _).1 hr', fun he => hne he.1.symm⟩
  · rintro (⟨⟨⟩⟩ | ⟨hstores, hkept⟩)
    have hr' := (hs.record?_iff _ _).2 hstores
    rw [if_neg, hr']
    rintro rfl
    rw [hr] at hr'
    cases hr'
    exact hkept ⟨rfl, rfl⟩

/-- To ask for a number that is not there removes nothing. -/
theorem Follows.miss (hs : s.Follows h) (hget : s.get? slot uid = none) : s.Follows (h ++ [.taken slot uid none]) where
  valid := hs.valid
  record?_iff i r := by
    rw [stores_concat]
    constructor
    · intro hr
      refine .inr ⟨(hs.record?_iff _ _).1 hr, ?_⟩
      rintro ⟨rfl, rfl⟩
      rw [get?_eq_some_iff.2 ⟨hr, rfl⟩] at hget
      cases hget
    · rintro (⟨⟨⟩⟩ | ⟨hstores, -⟩)
      exact (hs.record?_iff _ _).2 hstores

theorem Follows.clear (h : SlotHistory α) : (empty : EventSlots α).Follows (h ++ [.cleared]) where
  valid := valid_empty
  record?_iff slot r := by
    rw [record?_empty, stores_concat]
    exact ⟨nofun, by rintro (⟨⟨⟩⟩ | ⟨-, hkept⟩); exact absurd trivial hkept⟩

/-- One case for each request. -/
theorem Follows.apply (hs : s.Follows h) (op : SlotOp α) : (s.apply op).2.Follows (h ++ [(s.apply op).1]) := by
  cases op with
  | insert r => exact hs.insert r
  | get slot uid => exact hs.look _
  | take slot uid =>
    rcases ht : s.take? slot uid with _ | ⟨r, rest⟩
    · have hget := take?_eq_none_iff.1 ht
      rw [apply_take_of_missing hget]
      exact hs.miss hget
    · rw [apply_take ht]
      exact hs.take ht
  | clear => exact .clear h

/-- By induction on the requests, the last one first. -/
theorem follows_ask (ops : List (SlotOp α)) : (ask ops).2.Follows (ask ops).1 := by
  induction ops using List.reverseRecOn with
  | nil => exact follows_empty
  | append_singleton ops op ih =>
    rw [ask_concat]
    exact ih.apply op

/-- The numbers of the events that were stored are those of the requests. -/
theorem numbers_ask (ops : List (SlotOp α)) : (ask ops).1.filterMap SlotDeed.uid? = ops.filterMap SlotOp.uid? := by
  induction ops using List.reverseRecOn with
  | nil => rfl
  | append_singleton ops op ih =>
    have hdeed : ((ask ops).2.apply op).1.uid? = op.uid? := by
      cases op with
      | take slot uid =>
        rcases ht : (ask ops).2.take? slot uid with _ | ⟨r, rest⟩
        · rw [apply_take_of_missing (take?_eq_none_iff.1 ht)]
          rfl
        · rw [apply_take ht]
          rfl
      | _ => rfl
    rw [ask_concat, List.filterMap_append, List.filterMap_append, ih]
    simp only [List.filterMap_cons, hdeed, List.filterMap_nil]

/-! ## Single requests -/

/-- The free slots are those without an event. -/
theorem Valid.mem_free_iff (hs : s.Valid) : slot ∈ s.free ↔ slot < s.slots.size ∧ s.record? slot = none := by
  rw [hs.mem_free]
  unfold record?
  constructor
  · intro hslot
    exact ⟨(Array.getElem?_eq_some_iff.1 hslot).1, by rw [hslot]; rfl⟩
  · rintro ⟨hlt, hnone⟩
    rw [Array.getElem?_eq_getElem hlt] at hnone ⊢
    rw [Option.join_some] at hnone
    rw [hnone]

/-- The number of events is that of the slots with one. -/
theorem Valid.live_eq_countP (hs : s.Valid) : s.live = s.slots.toList.countP Option.isSome := by
  rw [hs.live_eq, records, List.length_filterMap_eq_countP]
  rfl

/-- What is taken is what would have been found. -/
theorem map_fst_take? (s : EventSlots α) (slot uid : Nat) : (s.take? slot uid).map Prod.fst = s.get? slot uid := by
  unfold take?
  split
  case h_1 r hget => exact hget.symm
  case h_2 hget => exact hget.symm

/-! ## Histories -/

/-- **The slots hold what was stored in them and not removed since.** Whatever was asked of them: the free slots are the
vacant ones, each free once, and `live` counts the others. An event goes into a vacant slot, which is answered, and changes
no other. It is found and taken by its slot and number exactly as long as it is there; taking it makes its slot vacant and
changes no other, and to take what is not there changes nothing. If all events have numbers of their own, a number
names no other event, and in no other slot. -/
theorem ask_eq_stores {ops : List (SlotOp α)} {h : SlotHistory α} {s : EventSlots α} (hask : ask ops = (h, s)) :
    (s.free.Nodup ∧ ∀ slot, slot ∈ s.free ↔ slot < s.slots.size ∧ s.record? slot = none) ∧
      s.live = s.slots.toList.countP Option.isSome ∧
      (∀ slot r, s.record? slot = some r ↔ h.Stores slot r) ∧
      (∀ r, s.record? (s.insert r).1 = none ∧
        ∀ slot, (s.insert r).2.record? slot = if slot = (s.insert r).1 then some r else s.record? slot) ∧
      (∀ slot uid r, s.get? slot uid = some r ↔ r.uid = uid ∧ h.Stores slot r) ∧
      (∀ slot uid, (s.take? slot uid).map Prod.fst = s.get? slot uid) ∧
      (∀ slot uid r rest, s.take? slot uid = some (r, rest) →
        ∀ i, rest.record? i = if i = slot then none else s.record? i) ∧
      (∀ slot uid, s.get? slot uid = none → s.apply (.take slot uid) = (.taken slot uid none, s)) ∧
      ((ops.filterMap SlotOp.uid?).Nodup →
        ∀ slot slot' r r', h.Stores slot r → h.Stores slot' r' → r.uid = r'.uid → slot = slot' ∧ r = r') := by
  have hs := follows_ask ops
  have hnumbers := numbers_ask ops
  rw [hask] at hs hnumbers
  refine ⟨⟨hs.valid.nodup_free, fun slot => hs.valid.mem_free_iff⟩, hs.valid.live_eq_countP, hs.record?_iff, ?_,
    fun slot uid r => hs.get?_iff, s.map_fst_take?, ?_, fun slot uid => apply_take_of_missing, ?_⟩
  · intro r
    rw [insert_fst]
    exact ⟨hs.valid.record?_nextSlot, record?_insert hs.valid r⟩
  · intro slot uid r rest ht
    exact (take?_eq_some hs.valid ht).2.2.1
  · intro hdistinct slot slot' r r' hstores hstores'
    rw [← hnumbers] at hdistinct
    exact hstores.unique hdistinct hstores'

/-- An event of no particular time and context. -/
def numbered (uid : Nat) : EventRecord Unit := ⟨uid, .zero, .none, ()⟩

/-- A slot that is given out again, and a name of what was in it before. -/
def reusedSlot : List (SlotOp Unit) :=
  [.insert (numbered 1), .insert (numbered 2), .take 0 1, .take 0 1, .insert (numbered 3), .get 0 1]

/-- The first slot has the third event, and the name of the first event finds nothing there. -/
theorem ask_eq_stores_reusedSlot :
    ∃ h s, ask reusedSlot = (h, s) ∧ h.Stores 0 (numbered 3) ∧ ¬ h.Stores 0 (numbered 1) ∧ s.live = 2 ∧ 0 ∉ s.free ∧
      (reusedSlot.filterMap SlotOp.uid?).Nodup ∧ ∀ slot r, h.Stores slot r → r.uid = 3 → slot = 0 := by
  have hask : ask reusedSlot = ((ask reusedSlot).1, (ask reusedSlot).2) := rfl
  obtain ⟨⟨-, hfree⟩, -, hrecord, -, hget, -, -, -, hunique⟩ := ask_eq_stores hask
  have hthird : (ask reusedSlot).1.Stores 0 (numbered 3) := (hrecord 0 (numbered 3)).1 rfl
  have hdistinct : (reusedSlot.filterMap SlotOp.uid?).Nodup := by decide
  refine ⟨_, _, hask, hthird, fun hfirst => ?_, rfl, fun hmem => ?_, hdistinct, fun slot r hs huid => ?_⟩
  · cases (hget 0 1 (numbered 1)).2 ⟨rfl, hfirst⟩
  · cases ((hfree 0).1 hmem).2
  · exact (hunique hdistinct slot 0 r (numbered 3) hs hthird huid).1

end EventSlots

end SimKernel
