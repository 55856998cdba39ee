import Mathlib.Data.List.DropRight
import Mathlib.Data.List.Sort
import Mathlib.Data.Multiset.AddSub
import Mathlib.Data.Multiset.MapFold
import Mathlib.Data.Prod.Lex
import SimKernel.Proofs.Agenda.Queue

/-!
# The event queue over its history

A history lists what was asked of a queue with what it answered (`EventQueue.ask`). From it alone follows what the queue
holds: the keys scheduled since it was last cleared, without those that left it since (`QueueHistory.contents`). The
invariant is `EventQueue.Follows`, kept by each request (`Follows.apply`); a queue that is drained gives its keys in the
order of their times and sequence numbers (`Valid.drain_sorted`).

So the queue never loses or doubles a key, it answers one that is due first, and if no two keys are due alike, the order
in which they leave is told by which keys there are (`ask_eq_contents`).
-/

namespace SimKernel

/-! ## When keys are due -/

namespace EventKey

/-- The time of the key and its place among those due at the same time; the slot takes no part. -/
def due (k : EventKey) : ℤ ×ₗ ℕ := toLex (k.time.femtos, k.sequence)

theorem precedes_iff_due_lt {a b : EventKey} : a.precedes b ↔ a.due < b.due := by
  rw [precedes_iff, due, due, Prod.Lex.toLex_lt_toLex]

theorem due_le_iff {a b : EventKey} : a.due ≤ b.due ↔ ¬ b.precedes a := by
  rw [precedes_iff_due_lt, not_lt]

/-- The more urgent key is the one that is due first. -/
theorem urgency_eq (a b : EventKey) : a.urgency b = compare b.due a.due := by
  rw [Prod.Lex.compare_def]
  rfl

/-- The greatest key by urgency is the one that is due first. -/
theorem urgency_ne_gt_iff {a b : EventKey} : a.urgency b ≠ .gt ↔ b.due ≤ a.due := by
  rw [urgency_eq, compare_le_iff_le]

end EventKey

/-! ## Requests and answers -/

/-- What is asked of a queue. -/
inductive QueueOp where
  | schedule (key : EventKey)
  | pop
  | peek
  | clear
deriving DecidableEq

/-- Requests in the order in which they were made, each with the key that it was answered with, if any. -/
abbrev QueueHistory := List (QueueOp × Option EventKey)

namespace QueueHistory

/-- What came after the queue was last cleared. -/
def sinceCleared (h : QueueHistory) : QueueHistory := h.rtakeWhile (·.1 != .clear)

/-- The key that was put in by a request. -/
def scheduled? : QueueOp × Option EventKey → Option EventKey
  | (.schedule key, _) => some key
  | _ => none

/-- The key that left the queue by a request. -/
def popped? : QueueOp × Option EventKey → Option EventKey
  | (.pop, answer) => answer
  | _ => none

/-- The keys scheduled since the queue was last cleared. -/
def scheduled (h : QueueHistory) : Multiset EventKey := (sinceCleared h).filterMap scheduled?

/-- The keys that left the queue since it was last cleared. -/
def popped (h : QueueHistory) : Multiset EventKey := (sinceCleared h).filterMap popped?

/-- The keys scheduled since the queue was last cleared, without those that left it. -/
def contents (h : QueueHistory) : Multiset EventKey := scheduled h - popped h

theorem filterMap_sinceCleared_concat (f : QueueOp × Option EventKey → Option EventKey) {h : QueueHistory} {op : QueueOp}
    {answer : Option EventKey} (hop : op ≠ .clear) :
    (((sinceCleared (h ++ [(op, answer)])).filterMap f : List EventKey) : Multiset EventKey) =
      ((sinceCleared h).filterMap f : List EventKey) + ((f (op, answer)).toList : Multiset EventKey) := by
  rw [sinceCleared, List.rtakeWhile_concat_pos _ _ _ (by simpa using hop), List.filterMap_append, Multiset.coe_add]
  cases hf : f (op, answer) <;> simp [hf, sinceCleared]

theorem scheduled_concat {h : QueueHistory} {op : QueueOp} {answer : Option EventKey} (hop : op ≠ .clear) :
    scheduled (h ++ [(op, answer)]) = scheduled h + (scheduled? (op, answer)).toList :=
  filterMap_sinceCleared_concat scheduled? hop

/-- A key that was popped is added to those popped before. -/
theorem popped_concat {h : QueueHistory} {op : QueueOp} {answer : Option EventKey} (hop : op ≠ .clear) :
    popped (h ++ [(op, answer)]) = popped h + (popped? (op, answer)).toList :=
  filterMap_sinceCleared_concat popped? hop

/-- A queue that was cleared begins anew. -/
theorem sinceCleared_clear (h : QueueHistory) (answer : Option EventKey) : sinceCleared (h ++ [(.clear, answer)]) = [] :=
  List.rtakeWhile_concat_neg _ _ _ (by simp)

end QueueHistory

namespace EventQueue

open QueueHistory

/-- One request, with its answer. -/
def apply (q : EventQueue) : QueueOp → Option EventKey × EventQueue
  | .schedule key => (none, q.push key)
  | .pop => ((q.pop?).map fun (key, rest) => (some key, rest)).getD (none, q)
  | .peek => (q.peek?, q)
  | .clear => (none, empty)

/-- The requests one after the other, on a queue that is empty at first: their history, and the queue after them. -/
def ask (ops : List QueueOp) : QueueHistory × EventQueue :=
  ops.foldl (fun x op => (x.1 ++ [(op, (x.2.apply op).1)], (x.2.apply op).2)) ([], empty)

theorem ask_concat (ops : List QueueOp) (op : QueueOp) :
    ask (ops ++ [op]) = ((ask ops).1 ++ [(op, ((ask ops).2.apply op).1)], ((ask ops).2.apply op).2) :=
  List.foldl_concat _ _ _ _

/-! ## Nothing is lost or doubled -/

/-- The queue is in heap order, and what it holds and what has left it is what was scheduled. -/
structure Follows (q : EventQueue) (h : QueueHistory) : Prop where
  valid : q.Valid
  balance : (q.toList : Multiset EventKey) + popped h = scheduled h

variable {q rest : EventQueue} {h : QueueHistory} {key : EventKey}

theorem follows_empty (hs : sinceCleared h = []) : Follows empty h where
  valid := valid_empty
  balance := by simp [popped, scheduled, hs, empty, toList]

/-- A request keeps the balance if what the queue has afterwards and what it gives is what it had and what it gets. -/
theorem Follows.step (hq : Follows q h) {op : QueueOp} {answer : Option EventKey} {q' : EventQueue} (hop : op ≠ .clear)
    (hvalid : q'.Valid)
    (hkeys : (q'.toList : Multiset EventKey) + (popped? (op, answer)).toList =
      q.toList + (scheduled? (op, answer)).toList) : Follows q' (h ++ [(op, answer)]) where
  valid := hvalid
  balance := by
    rw [popped_concat hop, scheduled_concat hop, ← hq.balance, Multiset.add_comm (popped h), ← Multiset.add_assoc, hkeys,
      Multiset.add_assoc, Multiset.add_comm _ (popped h), ← Multiset.add_assoc]

/-- What a request adds to the history is what it does to the keys. -/
theorem Follows.apply (hq : Follows q h) (op : QueueOp) : Follows (q.apply op).2 (h ++ [(op, (q.apply op).1)]) := by
  cases op with
  | schedule key =>
    refine hq.step (by simp) (hq.valid.push key) ?_
    have hpush : ((q.push key).toList : Multiset EventKey) = key ::ₘ q.toList := Multiset.coe_eq_coe.2 (push_perm q key)
    change ((q.push key).toList : Multiset EventKey) + 0 = q.toList + {key}
    rw [hpush, Multiset.add_zero, Multiset.add_comm, Multiset.singleton_add]
  | pop =>
    rcases hp : q.pop? with _ | ⟨key, rest⟩
    · have happly : q.apply .pop = (none, q) := by rw [EventQueue.apply, hp]; rfl
      rw [happly]
      exact hq.step (by simp) hq.valid rfl
    · have happly : q.apply .pop = (some key, rest) := by rw [EventQueue.apply, hp]; rfl
      obtain ⟨hvalid, hperm, -⟩ := pop?_eq_some hq.valid hp
      rw [happly]
      refine hq.step (by simp) hvalid ?_
      have hkeys : (q.toList : Multiset EventKey) = key ::ₘ rest.toList := Multiset.coe_eq_coe.2 hperm
      change (rest.toList : Multiset EventKey) + {key} = q.toList + 0
      rw [hkeys, Multiset.add_zero, Multiset.add_comm, Multiset.singleton_add]
  | peek => exact hq.step (by simp) hq.valid rfl
  | clear => exact follows_empty (sinceCleared_clear h _)

/-- By induction on the requests, the last one first. -/
theorem follows_ask (ops : List QueueOp) : Follows (ask ops).2 (ask ops).1 := by
  induction ops using List.reverseRecOn with
  | nil => exact follows_empty rfl
  | append_singleton ops op ih =>
    rw [ask_concat]
    exact ih.apply op

/-- What was put in and not taken out is what the queue holds. -/
theorem Follows.toList_eq (hq : Follows q h) : (q.toList : Multiset EventKey) = contents h :=
  Multiset.eq_sub_of_add_eq hq.balance

/-! ## The key that is due first -/

theorem peek?_eq (q : EventQueue) : q.peek? = q.pop?.map Prod.fst := by
  obtain ⟨keys⟩ := q
  rcases Nat.eq_zero_or_pos keys.size with hzero | hpos
  · obtain rfl := Array.eq_empty_of_size_eq_zero hzero
    rfl
  obtain ⟨keys, last, rfl⟩ := Array.exists_push_of_size_pos hpos
  rw [pop?_push, peek?]
  split
  case isTrue h => simp [Array.getElem_push_lt h]
  case isFalse h =>
    obtain rfl : keys = #[] := by simpa using h
    rfl

/-- No key in the queue is due before the one that is shown. -/
theorem Valid.peek?_least (hq : q.Valid) (h : q.peek? = some key) : key ∈ q.toList ∧ ∀ k ∈ q.toList, key.due ≤ k.due := by
  rw [peek?_eq] at h
  obtain ⟨⟨_, rest⟩, hp, rfl⟩ := Option.map_eq_some_iff.1 h
  obtain ⟨-, hperm, hleast⟩ := pop?_eq_some hq hp
  exact ⟨hperm.mem_iff.2 List.mem_cons_self, fun k hk => EventKey.due_le_iff.2 (hleast k hk)⟩

/-! ## Draining -/

/-- By induction on the keys that are left: each one leaves before all that stay. -/
theorem Valid.drain_sorted (hq : q.Valid) : q.drain.Perm q.toList ∧ q.drain.Pairwise (·.due ≤ ·.due) := by
  fun_induction drain q with
  | case1 q key rest hp ih =>
    obtain ⟨hvalid, hperm, hleast⟩ := pop?_eq_some hq hp
    obtain ⟨hdrain, hsorted⟩ := ih hvalid
    refine ⟨(hdrain.cons key).trans hperm.symm, List.pairwise_cons.2 ⟨?_, hsorted⟩⟩
    intro k hk
    have hmem : k ∈ q.toList := hperm.mem_iff.2 (List.mem_cons_of_mem _ (hdrain.mem_iff.1 hk))
    exact EventKey.due_le_iff.2 (hleast k hmem)
  | case2 q hp => exact ⟨by rw [pop?_eq_none_iff.1 hp], .nil⟩

/-- If no two keys are due alike, each one leaves strictly before the next. -/
theorem Valid.drain_strict (hq : q.Valid) (hdistinct : (q.toList.map EventKey.due).Nodup) :
    q.drain.Pairwise (·.due < ·.due) := by
  obtain ⟨hperm, hsorted⟩ := hq.drain_sorted
  have hne : q.drain.Pairwise (·.due ≠ ·.due) := List.pairwise_map.1 ((hperm.map EventKey.due).nodup_iff.2 hdistinct)
  exact hsorted.imp₂ (fun _ _ hle hne => lt_of_le_of_ne hle hne) hne

/-- Keys of which no two are due alike leave in an order that is told by which keys there are. -/
theorem Valid.drain_eq {q' : EventQueue} (hq : q.Valid) (hq' : q'.Valid) (hd : (q.toList.map EventKey.due).Nodup)
    (hd' : (q'.toList.map EventKey.due).Nodup) (hsame : ∀ k, k ∈ q.toList ↔ k ∈ q'.toList) : q.drain = q'.drain := by
  have : Std.Irrefl fun a b : EventKey => a.due < b.due := ⟨fun _ => lt_irrefl _⟩
  refine (hq.drain_strict hd).eq_of_mem_iff (hq'.drain_strict hd') ?_
  intro k
  rw [hq.drain_sorted.1.mem_iff, hq'.drain_sorted.1.mem_iff, hsame]

/-! ## Histories -/

/-- **The event queue is a priority queue.** Whatever was asked of it, with repeated times, sequence numbers and slots: it
holds the keys scheduled since it was last cleared without those that left it since, and all of these had been scheduled.
What it answers next, to a look as well as when it gives up a key, is one of these that is due first. Drained it gives all
of them in the order in which they are due; if no two are due alike, this order is told by which keys there are, whatever
the requests that put them there. -/
theorem ask_eq_contents {ops : List QueueOp} {h : QueueHistory} {q : EventQueue} (hask : ask ops = (h, q)) :
    (q.toList : Multiset EventKey) = contents h ∧ popped h ≤ scheduled h ∧
      q.size = (contents h).card ∧ (q.isEmpty ↔ contents h = 0) ∧
      (q.apply .pop).1 = q.peek? ∧ (q.peek? = none ↔ contents h = 0) ∧
      (∀ key, q.peek? = some key → key ∈ contents h ∧ ∀ k ∈ contents h, key.due ≤ k.due ∧ k.urgency key ≠ .gt) ∧
      (q.drain : Multiset EventKey) = contents h ∧ q.drain.Pairwise (·.due ≤ ·.due) ∧
      ∀ ops' h' q', ask ops' = (h', q') → ((contents h).map EventKey.due).Nodup →
        ((contents h').map EventKey.due).Nodup → (∀ k, k ∈ contents h ↔ k ∈ contents h') → q.drain = q'.drain := by
  have hfollows : ∀ {ops h q}, ask ops = (h, q) → Follows q h := by
    rintro ops h q hask
    have := follows_ask ops
    rwa [hask] at this
  have hq := hfollows hask
  have hempty : contents h = 0 ↔ q.toList = [] := by rw [← hq.toList_eq, Multiset.coe_eq_zero]
  obtain ⟨hperm, hsorted⟩ := hq.valid.drain_sorted
  refine ⟨hq.toList_eq, ?_, ?_, ?_, ?_, ?_, ?_, ?_, hsorted, ?_⟩
  · rw [← hq.balance]
    exact Multiset.le_add_left _ _
  · rw [← hq.toList_eq, Multiset.coe_card, length_toList]
  · rw [hempty, isEmpty, Array.isEmpty_iff, toList, Array.toList_eq_nil_iff]
  · rw [peek?_eq, EventQueue.apply]
    cases q.pop? <;> rfl
  · rw [hempty, peek?_eq, Option.map_eq_none_iff, pop?_eq_none_iff]
  · intro key hkey
    obtain ⟨hmem, hleast⟩ := hq.valid.peek?_least hkey
    simp only [← hq.toList_eq, Multiset.mem_coe]
    exact ⟨hmem, fun k hk => ⟨hleast k hk, EventKey.urgency_ne_gt_iff.2 (hleast k hk)⟩⟩
  · rw [← hq.toList_eq]
    exact Multiset.coe_eq_coe.2 hperm
  · intro ops' h' q' hask' hd hd' hsame
    have hq' := hfollows hask'
    simp only [← hq.toList_eq, ← hq'.toList_eq, Multiset.mem_coe] at hd hd' hsame
    exact hq.valid.drain_eq hq'.valid hd hd' hsame

/-- A key that a clearing drops, and keys due at the same time, of which the first one leaves. -/
def tiedRequests : List QueueOp :=
  [.schedule ⟨.zero, 0, 7⟩, .clear, .schedule ⟨.max, 2, 0⟩, .schedule ⟨.max, 1, 0⟩, .pop, .schedule ⟨.max, 4, 1⟩,
    .schedule ⟨.max, 3, 1⟩, .peek]

/-- The keys that are left then, scheduled in another order. -/
def reorderedRequests : List QueueOp :=
  [.schedule ⟨.max, 3, 1⟩, .schedule ⟨.max, 4, 1⟩, .schedule ⟨.max, 2, 0⟩]

/-- Keys for one time come in the order of their sequence numbers, however the requests are ordered. -/
theorem ask_eq_contents_tiedRequests :
    ∃ h q h' q', ask tiedRequests = (h, q) ∧ ask reorderedRequests = (h', q') ∧
      contents h = {⟨.max, 2, 0⟩, ⟨.max, 3, 1⟩, ⟨.max, 4, 1⟩} ∧ popped h = {⟨.max, 1, 0⟩} ∧
      (∀ k ∈ contents h, EventKey.due ⟨.max, 2, 0⟩ ≤ k.due ∧ k.urgency ⟨.max, 2, 0⟩ ≠ .gt) ∧ q.drain = q'.drain := by
  have hask : ask tiedRequests = ((ask tiedRequests).1, (ask tiedRequests).2) := rfl
  have hask' : ask reorderedRequests = ((ask reorderedRequests).1, (ask reorderedRequests).2) := rfl
  have hsame : contents (ask tiedRequests).1 = contents (ask reorderedRequests).1 := by decide +kernel
  obtain ⟨-, -, -, -, -, -, hleast, -, -, horder⟩ := ask_eq_contents hask
  refine ⟨_, _, _, _, hask, hask', by decide +kernel, by decide +kernel, (hleast _ (by decide +kernel)).2, ?_⟩
  exact horder _ _ _ hask' (by decide +kernel) (by decide +kernel) fun k => by rw [hsame]

end EventQueue

end SimKernel
