import Mathlib.Data.List.Nodup
import SimKernel.Proofs.Simulator.History

/-!
# The abstract scheduler

A plan is what a simulator stands for: the pending events by number, the destroy events in the order in which they were
registered, and the clock. There are no slots and no keys. Scheduling adds an event, cancelling deletes it at once, the
event that runs next is the least one by time and then by number, and a teardown ends with nothing left (`Plan.Step`).

Names of events hold a slot, which the plan has no opinion about: a new event gets any slot, and the plan remembers the
names it gave out (`Plan.names`). What it answers depends on the numbers in them only.
-/

namespace SimKernel

/-- A finite map from numbers to pending events, a queue of destroy events, and a clock. -/
structure Plan (α : Type) where
  owner : Nat
  resolution : Resolution
  now : Time
  context : ContextId
  nextUid : Nat
  /-- The names given out so far. -/
  names : List EventId
  /-- The pending events, each with a number of its own. -/
  pending : List (EventRecord (Action α))
  destroyEvents : List (DestroyEvent α)
  nodup : (pending.map EventRecord.uid).Nodup
  lt_next : ∀ r ∈ pending, r.uid < nextUid

namespace Plan

variable {α : Type}

/-- Nothing is planned. -/
def ofConfig (owner : Nat) (config : Config) : Plan α where
  owner
  resolution := config.resolution
  now := Time.zero
  context := ContextId.none
  nextUid := 0
  names := []
  pending := []
  destroyEvents := []
  nodup := List.nodup_nil
  lt_next _ h := absurd h List.not_mem_nil

/-! ## Looking at the plan -/

/-- The pending event with a number. -/
def find? (a : Plan α) (uid : Nat) : Option (EventRecord (Action α)) :=
  a.pending.find? fun r => r.uid == uid

/-- The event waits for its turn or for the teardown. -/
def isPending (a : Plan α) (id : EventId) : Bool :=
  (a.find? id.uid).isSome || a.destroyEvents.any fun e => e.uid == id.uid

/-- The femtoseconds until the event runs; zero if it does not wait for its turn. -/
def delayLeft (a : Plan α) (id : EventId) : Int :=
  match a.find? id.uid with
  | some r => r.time.femtos - a.now.femtos
  | none => 0

/-- The number of pending events, without destroy events. -/
def count (a : Plan α) : Nat := a.pending.length

/-! ## Requests -/

/-- Adds an event with the next number, and names it. -/
def insert (a : Plan α) (slot : Nat) (time : Time) (context : ContextId) (action : Action α) : EventId × Plan α :=
  (⟨a.nextUid, a.owner, slot⟩,
    { a with
      nextUid := a.nextUid + 1
      names := ⟨a.nextUid, a.owner, slot⟩ :: a.names
      pending := ⟨a.nextUid, time, context, action⟩ :: a.pending
      nodup := by
        refine List.nodup_cons.2 ⟨fun hm => ?_, a.nodup⟩
        obtain ⟨r, hr, he⟩ := List.mem_map.1 hm
        exact absurd he (Nat.ne_of_lt (a.lt_next r hr))
      lt_next := fun r hr => by
        rcases List.mem_cons.1 hr with rfl | hr
        · exact Nat.lt_succ_self _
        · exact Nat.lt_succ_of_lt (a.lt_next r hr) })

/-- Deletes the pending event with a number. -/
def erase (a : Plan α) (uid : Nat) : Plan α :=
  { a with
    pending := a.pending.filter fun r => r.uid != uid
    nodup := a.nodup.sublist (List.filter_sublist.map _)
    lt_next := fun r hr => a.lt_next r (List.mem_of_mem_filter hr) }

/-- Adds an event after a delay, of which whole ticks count. -/
def scheduleIn (a : Plan α) (slot : Nat) (context : ContextId) (delay : Time) (action : Action α) :
    Except SimError (EventId × Plan α) :=
  if delay.isNegative then .error (.negativeDelay delay)
  else
    let delay := a.resolution.quantize delay
    match a.now.checkedAdd delay with
    | some time => .ok (a.insert slot time context action)
    | none => .error (.invalidState ("event time overflows: now " ++ a.now.render ++ " + delay " ++ delay.render))

/-- Adds an event at a time, in the current context. -/
def scheduleAt (a : Plan α) (slot : Nat) (time : Time) (action : Action α) :
    Except Fault (Except SimError (EventId × Plan α)) := do
  let delay ← time.sub a.now
  return a.scheduleIn slot a.context delay action

/-- Adds an event that runs when the simulation is torn down. -/
def scheduleDestroy (a : Plan α) (slot : Nat) (action : α) : EventId × Plan α :=
  (⟨a.nextUid, a.owner, slot⟩,
    { a with
      nextUid := a.nextUid + 1
      names := ⟨a.nextUid, a.owner, slot⟩ :: a.names
      destroyEvents := a.destroyEvents ++ [⟨a.nextUid, action⟩]
      lt_next := fun r hr => Nat.lt_succ_of_lt (a.lt_next r hr) })

/-- Deletes the event with a number and hands its action back. -/
def cancel (a : Plan α) (uid : Nat) : Option (Action α) × Plan α :=
  match a.find? uid with
  | some r => (some r.action, a.erase uid)
  | none =>
    match a.destroyEvents.find? fun e => e.uid == uid with
    | some e => (some (.perform e.action), { a with destroyEvents := a.destroyEvents.filter fun e => e.uid != uid })
    | none => (none, a)

/-- The plan after a request that it may have refused. -/
def keep {β : Type} (a : Plan α) : Except SimError (β × Plan α) → Except SimError β × Plan α
  | .ok (b, a) => (.ok b, a)
  | .error e => (.error e, a)

/-- The answer of a plan and what becomes of it, where a new event gets the slot in its name. -/
def perform (a : Plan α) (slot : Nat) : (c : Call α) → Except Fault (c.Answer × Plan α)
  | .schedule delay b => .ok (a.keep (a.scheduleIn slot a.context delay (.perform b)))
  | .scheduleIn context delay b => .ok (a.keep (a.scheduleIn slot context delay (.perform b)))
  | .scheduleAt time b => (a.scheduleAt slot time (.perform b)).map a.keep
  | .scheduleNow b => .ok (a.insert slot a.now a.context (.perform b))
  | .scheduleDestroy b => .ok (a.scheduleDestroy slot b)
  | .cancel id =>
    if id.owner = a.owner ∧ id.uid < a.nextUid then .ok (if id ∈ a.names then a.cancel id.uid else (none, a))
    else .error (.foreignEvent id.uid)
  | .stop => .ok ((), a)
  | .stopAt time => (a.scheduleAt slot time .stop).map a.keep
  | .stopAfter delay => .ok (a.keep (a.scheduleIn slot a.context delay .stop))
  | .setRng _ => .ok ((), a)

/-! ## Steps -/

/-- The plan when an event begins to run. -/
def begin (a : Plan α) (r : EventRecord (Action α)) : Plan α :=
  { a.erase r.uid with now := r.time, context := r.context }

/-- The plan of a simulation that was torn down. -/
def clear (a : Plan α) : Plan α :=
  { a with pending := [], destroyEvents := [], nodup := List.nodup_nil, lt_next := fun _ h => absurd h List.not_mem_nil }

/-- What may happen to a plan, and what becomes of it. -/
inductive Step (a : Plan α) : Deed α → Plan α → Prop
  | called {slot : Nat} {c : Call α} {answer : c.Answer} {a' : Plan α} (h : a.perform slot c = .ok (answer, a')) :
      Step a (.called c answer) a'
  | began {r : EventRecord (Action α)} (h : r ∈ a.pending) (least : ∀ r' ∈ a.pending, r' ≠ r → r.before r') :
      Step a (.began r) (a.begin r)
  | idled (h : a.pending = []) : Step a .idled a
  | tornDown {e : DestroyEvent α} {rest : List (DestroyEvent α)} (h : a.destroyEvents = e :: rest) :
      Step a (.tornDown e) { a with destroyEvents := rest }
  | cleared : Step a .cleared a.clear
  | switched : Step a .switched a

/-! ## The pending events are a finite map -/

theorem find?_eq_some_iff {a : Plan α} {uid : Nat} {r : EventRecord (Action α)} :
    a.find? uid = some r ↔ r ∈ a.pending ∧ r.uid = uid := by
  constructor
  · intro h
    exact ⟨List.mem_of_find?_eq_some h, by simpa using List.find?_some h⟩
  · rintro ⟨hr, rfl⟩
    cases h : a.find? r.uid with
    | none => exact absurd (List.find?_eq_none.1 h r hr) (by simp)
    | some r' =>
      have hu : r'.uid = r.uid := by simpa using List.find?_some h
      exact congrArg some (List.inj_on_of_nodup_map a.nodup (List.mem_of_find?_eq_some h) hr hu)

/-- The other events are what is left after one was deleted. -/
theorem erase_pending_perm {a : Plan α} {r : EventRecord (Action α)} {rest : List (EventRecord (Action α))}
    (h : a.pending.Perm (r :: rest)) : (a.erase r.uid).pending.Perm rest := by
  have hnodup := (h.map EventRecord.uid).nodup_iff.1 a.nodup
  have hrest : rest.filter (fun r' => r'.uid != r.uid) = rest := by
    refine List.filter_eq_self.2 ?_
    intro r' hr'
    have hne : r'.uid ≠ r.uid := fun he => (List.nodup_cons.1 hnodup).1 (he ▸ List.mem_map_of_mem hr')
    simpa using hne
  have hf := h.filter fun r' => r'.uid != r.uid
  rwa [List.filter_cons_of_neg (by simp), hrest] at hf

end Plan

end SimKernel
