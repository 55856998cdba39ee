import SimKernel.Time.Basic

/-!
# The event queue

The keys of scheduled events in a binary heap with the earliest key on top. Keys are ordered by time and then by
sequence number; the slot takes no part in the order, so keys that agree in both leave the heap in an order that depends
on its shape. Taking the top moves the last key to the bottom along the earlier children and then up again.
-/

namespace SimKernel

/-- When an event is due, its place among those due at the same time, and where it is stored. -/
structure EventKey where
  time : Time
  sequence : Nat
  slot : Nat
deriving DecidableEq

namespace EventKey

instance : Inhabited EventKey := ⟨⟨Time.zero, 0, 0⟩⟩

/-- The one key is due strictly before the other. -/
def precedes (a b : EventKey) : Bool :=
  a.time < b.time || (a.time == b.time && a.sequence < b.sequence)

/-- The order of urgency: the earlier key is the greater one. -/
def urgency (a b : EventKey) : Ordering :=
  (compare b.time a.time).then (compare b.sequence a.sequence)

end EventKey

/-- Keys in heap order: the children of position `i` are at `2 * i + 1` and `2 * i + 2`. -/
structure EventQueue where
  keys : Array EventKey

namespace EventQueue

def empty : EventQueue := ⟨#[]⟩

instance : Inhabited EventQueue := ⟨empty⟩

def size (q : EventQueue) : Nat := q.keys.size

def isEmpty (q : EventQueue) : Bool := q.keys.isEmpty

/-- Moves the key at position `i` up past all parents that it precedes. -/
def siftUp (keys : Array EventKey) (i : Nat) : Array EventKey :=
  if h : 0 < i ∧ i < keys.size then
    if keys[i].precedes keys[(i - 1) / 2] then siftUp (keys.swap i ((i - 1) / 2)) ((i - 1) / 2) else keys
  else keys
termination_by i
decreasing_by omega

/-- Moves the key at position `i` down to the bottom, each time past the earlier child, and answers where it ends. -/
def siftDown (keys : Array EventKey) (i : Nat) : Array EventKey × Nat :=
  if h : 2 * i + 2 < keys.size then
    if keys[2 * i + 1].precedes keys[2 * i + 2] then siftDown (keys.swap i (2 * i + 1)) (2 * i + 1)
    else siftDown (keys.swap i (2 * i + 2)) (2 * i + 2)
  else if h : 2 * i + 1 < keys.size then (keys.swap i (2 * i + 1), 2 * i + 1)
  else (keys, i)
termination_by keys.size - i
decreasing_by all_goals simp only [Array.size_swap]; omega

/-- The queue with a further key. -/
def push (q : EventQueue) (key : EventKey) : EventQueue :=
  ⟨siftUp (q.keys.push key) q.keys.size⟩

/-- The earliest key. -/
def peek? (q : EventQueue) : Option EventKey := q.keys[0]?

/-- The earliest key and the queue without it. -/
def pop? (q : EventQueue) : Option (EventKey × EventQueue) :=
  if h : 0 < q.keys.size then
    let last := q.keys[q.keys.size - 1]
    let rest := q.keys.pop
    if h' : 0 < rest.size then
      let (keys, i) := siftDown (rest.set 0 last) 0
      some (rest[0], ⟨siftUp keys i⟩)
    else some (last, ⟨rest⟩)
  else none

/-- Moving keys about makes none. -/
theorem size_siftUp (keys : Array EventKey) (i : Nat) : (siftUp keys i).size = keys.size := by
  fun_induction siftUp keys i <;> simp_all

theorem size_siftDown (keys : Array EventKey) (i : Nat) : (siftDown keys i).1.size = keys.size := by
  fun_induction siftDown keys i <;> simp_all

theorem size_push (q : EventQueue) (key : EventKey) : (q.push key).size = q.size + 1 := by
  simp [push, size, size_siftUp]

/-- A key that is popped leaves the queue. -/
theorem size_pop? {q : EventQueue} {key : EventKey} {rest : EventQueue} (h : q.pop? = some (key, rest)) :
    rest.size + 1 = q.size := by
  simp only [pop?] at h
  split at h
  · split at h <;> cases h <;> simp only [size, size_siftUp, size_siftDown, Array.size_set, Array.size_pop] <;> omega
  · cases h

/-- All keys in the order in which they leave the queue. -/
def drain (q : EventQueue) : List EventKey :=
  match _h : q.pop? with
  | some (key, rest) => key :: drain rest
  | none => []
termination_by q.size
decreasing_by have := size_pop? _h; omega

end EventQueue

end SimKernel
