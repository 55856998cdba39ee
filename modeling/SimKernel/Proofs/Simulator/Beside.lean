import Mathlib.Data.List.Find
import Mathlib.Data.List.Nodup
import Mathlib.Data.Set.Function
import Mathlib.Order.Interval.Set.Defs
import Mathlib.Order.Monotone.Basic
import SimKernel.Proofs.Simulator.Refinement
import SimKernel.Proofs.Simulator.Veil

/-!
# Plans with extra events

Of two plans the second one has the events of the first one, under other numbers in the same order, and extra events
(`Plan.Beside`). This stays so when the same is done to both, and when extra events are scheduled and cancelled in the second
one; questions about the common events have the same answers, and as long as no extra event is the least one, the events that
come next are the same.
-/

namespace SimKernel

/-- The event under another number. -/
def EventRecord.renumber {β : Type} (f : Nat → Nat) (r : EventRecord β) : EventRecord β := { r with uid := f r.uid }

/-- The destroy event under another number. -/
def DestroyEvent.renumber {β : Type} (f : Nat → Nat) (e : DestroyEvent β) : DestroyEvent β := { e with uid := f e.uid }

theorem Action.isExtra_iff {α : Type} {action : Action (Option α)} : action.isExtra = true ↔ action = .perform none := by
  rcases action with _ | _ | a <;> simp [isExtra]

namespace Plan

variable {α : Type}

/-- The events of the plan `a` that are no extra events. -/
def own (a : Plan (Option α)) : List (EventRecord (Action (Option α))) := a.pending.filter fun r => !r.action.isExtra

/-- The second plan has the events of the first one, whose numbers `f` maps to theirs, and extra events among the given
ones. -/
structure Beside (f : Nat → Nat) (extras : List EventId) (a a' : Plan (Option α)) : Prop where
  now : a'.now = a.now
  context : a'.context = a.context
  resolution : a'.resolution = a.resolution
  mono : StrictMonoOn f (Set.Iio a.nextUid)
  lt_next : ∀ i, i < a.nextUid → f i < a'.nextUid
  common : ∀ r ∈ a.pending, r.action.isExtra = false
  pending : a'.own.Perm (a.pending.map (EventRecord.renumber f))
  destroyEvents : a'.destroyEvents = a.destroyEvents.map (DestroyEvent.renumber f)
  torn : ∀ e ∈ a.destroyEvents, e.uid < a.nextUid ∧ e.action.isSome
  extra : ∀ r ∈ a'.pending, r.action.isExtra = true ↔ r.uid ∈ extras.map EventId.uid
  nodup : (extras.map EventId.uid).Nodup
  issued : ∀ uid ∈ extras.map EventId.uid, uid < a'.nextUid
  apart : ∀ i < a.nextUid, f i ∉ extras.map EventId.uid

variable {f : Nat → Nat} {extras : List EventId} {a a' : Plan (Option α)}

theorem beside_ofConfig (owner : Nat) (config : Config) :
    Beside id [] (ofConfig owner config : Plan (Option α)) (ofConfig owner config) where
  now := rfl
  context := rfl
  resolution := rfl
  mono := strictMono_id.strictMonoOn _
  lt_next _ h := h
  common _ h := absurd h List.not_mem_nil
  pending := .refl _
  destroyEvents := rfl
  torn _ h := absurd h List.not_mem_nil
  extra _ h := absurd h List.not_mem_nil
  nodup := List.nodup_nil
  issued _ h := absurd h List.not_mem_nil
  apart _ _ := List.not_mem_nil

namespace Beside

/-! ## Numbers -/

theorem inj (h : Beside f extras a a') {i j : Nat} (hi : i < a.nextUid) (hj : j < a.nextUid) : f i = f j ↔ i = j :=
  h.mono.injOn.eq_iff hi hj

/-- The common events come in the same order. -/
theorem before_iff (h : Beside f extras a a') {r r' : EventRecord (Action (Option α))} (hr : r ∈ a.pending)
    (hr' : r' ∈ a.pending) : (r.renumber f).before (r'.renumber f) ↔ r.before r' := by
  have hlt := h.mono.lt_iff_lt (a.lt_next r hr) (a.lt_next r' hr')
  unfold EventRecord.before EventRecord.renumber
  simp only [hlt]

theorem mem_own_iff {r : EventRecord (Action (Option α))} :
    r ∈ a.own ↔ r ∈ a.pending ∧ r.action.isExtra = false := by
  simp [own, List.mem_filter]

/-- The events of the second plan that are no extra events are those of the first one. -/
theorem mem_own_right_iff (h : Beside f extras a a') {r : EventRecord (Action (Option α))} :
    r ∈ a'.own ↔ ∃ r₀ ∈ a.pending, r₀.renumber f = r :=
  h.pending.mem_iff.trans List.mem_map

theorem mem_right (h : Beside f extras a a') {r : EventRecord (Action (Option α))} (hr : r ∈ a.pending) :
    r.renumber f ∈ a'.pending :=
  (mem_own_iff.1 (h.mem_own_right_iff.2 ⟨r, hr, rfl⟩)).1

/-! ## Looking at both -/

theorem find?_eq (h : Beside f extras a a') {uid : Nat} (hu : uid < a.nextUid) :
    a'.find? (f uid) = (a.find? uid).map (EventRecord.renumber f) := by
  apply Option.ext
  intro r'
  rw [find?_eq_some_iff, Option.map_eq_some_iff]
  constructor
  · rintro ⟨hr', hu'⟩
    have hown : r'.action.isExtra = false := by
      rw [← Bool.not_eq_true, h.extra r' hr', hu']
      exact h.apart uid hu
    obtain ⟨r, hr, rfl⟩ := h.mem_own_right_iff.1 (mem_own_iff.2 ⟨hr', hown⟩)
    exact ⟨r, find?_eq_some_iff.2 ⟨hr, (h.inj (a.lt_next r hr) hu).1 hu'⟩, rfl⟩
  · rintro ⟨r, hr, rfl⟩
    obtain ⟨hmem, rfl⟩ := find?_eq_some_iff.1 hr
    exact ⟨h.mem_right hmem, rfl⟩

theorem renumber_beq (h : Beside f extras a a') {uid uid' : Nat} (hu : uid < a.nextUid) (hu' : uid' < a.nextUid) :
    (f uid == f uid') = (uid == uid') := by
  rw [Bool.eq_iff_iff, beq_iff_eq, beq_iff_eq]
  exact h.inj hu hu'

theorem find?_destroyEvents_eq (h : Beside f extras a a') {uid : Nat} (hu : uid < a.nextUid) :
    (a'.destroyEvents.find? fun e => e.uid == f uid) =
      (a.destroyEvents.find? fun e => e.uid == uid).map (DestroyEvent.renumber f) := by
  rw [h.destroyEvents, List.find?_map]
  exact congrArg _ (List.find?_congr fun e he => h.renumber_beq (h.torn e he).1 hu)

theorem isPending_eq (h : Beside f extras a a') {id id' : EventId} (hu : id.uid < a.nextUid) (hid : id'.uid = f id.uid) :
    a'.isPending id' = a.isPending id := by
  simp only [isPending, hid, h.find?_eq hu, Option.isSome_map, ← List.isSome_find?, h.find?_destroyEvents_eq hu]

theorem delayLeft_eq (h : Beside f extras a a') {id id' : EventId} (hu : id.uid < a.nextUid) (hid : id'.uid = f id.uid) :
    a'.delayLeft id' = a.delayLeft id := by
  simp only [delayLeft, hid, h.find?_eq hu, h.now]
  cases a.find? id.uid <;> rfl

/-- Extra events do not wait for the teardown. -/
theorem find?_destroyEvents_eq_none (h : Beside f extras a a') {id : EventId} (hid : id ∈ extras) :
    (a'.destroyEvents.find? fun e => e.uid == id.uid) = none := by
  rw [h.destroyEvents, List.find?_eq_none]
  intro e he hu
  obtain ⟨e₀, he₀, rfl⟩ := List.mem_map.1 he
  have hu : f e₀.uid = id.uid := by simpa [DestroyEvent.renumber] using hu
  exact h.apart e₀.uid (h.torn e₀ he₀).1 (hu ▸ List.mem_map_of_mem hid)

theorem isPending_extra_iff (h : Beside f extras a a') {id : EventId} (hid : id ∈ extras) :
    a'.isPending id = true ↔ ∃ r ∈ a'.pending, r.uid = id.uid := by
  rw [isPending, ← List.isSome_find?, h.find?_destroyEvents_eq_none hid, Option.isSome_none, Bool.or_false,
    Option.isSome_iff_exists]
  simp only [find?_eq_some_iff]

/-- The extra events that are pending are those of the given ones that are pending. -/
theorem count_eq (h : Beside f extras a a') :
    a'.count = (extras.filter fun id => a'.isPending id).length + a.count := by
  have hextra : ((a'.pending.filter fun r => r.action.isExtra).map EventRecord.uid).Perm
      ((extras.filter fun id => a'.isPending id).map EventId.uid) := by
    have hleft := a'.nodup.sublist ((List.filter_sublist (p := fun r => r.action.isExtra)).map _)
    have hright := h.nodup.sublist ((List.filter_sublist (p := fun id => a'.isPending id)).map _)
    refine (List.perm_ext_iff_of_nodup hleft hright).2 fun uid => ?_
    simp only [List.mem_map, List.mem_filter]
    constructor
    · rintro ⟨r, ⟨hr, hx⟩, rfl⟩
      obtain ⟨id, hid, hu⟩ := List.mem_map.1 ((h.extra r hr).1 hx)
      exact ⟨id, ⟨hid, (h.isPending_extra_iff hid).2 ⟨r, hr, hu.symm⟩⟩, hu⟩
    · rintro ⟨id, ⟨hid, hp⟩, rfl⟩
      obtain ⟨r, hr, hu⟩ := (h.isPending_extra_iff hid).1 hp
      exact ⟨r, ⟨hr, (h.extra r hr).2 (hu ▸ List.mem_map_of_mem hid)⟩, hu⟩
  have hown := h.pending.length_eq
  have hlen := hextra.length_eq
  rw [List.length_map, List.length_map] at hlen
  rw [List.length_map] at hown
  change a'.pending.length = _ + a.pending.length
  rw [List.length_eq_length_filter_add fun r => r.action.isExtra, hlen, ← hown]
  rfl

/-! ## The same is done to both -/

theorem renumber_update {r : EventRecord (Action (Option α))} (hr : r ∈ a.pending) (n : Nat) :
    r.renumber (Function.update f a.nextUid n) = r.renumber f := by
  unfold EventRecord.renumber
  rw [Function.update_of_ne (Nat.ne_of_lt (a.lt_next r hr))]

/-- The next number of the first plan goes to the next number of the second one. -/
theorem mono_update (h : Beside f extras a a') :
    StrictMonoOn (Function.update f a.nextUid a'.nextUid) (Set.Iio (a.nextUid + 1)) := by
  intro i hi j hj hlt
  have hi' : i < a.nextUid := Nat.lt_of_lt_of_le hlt (Nat.le_of_lt_succ hj)
  rw [Function.update_of_ne (Nat.ne_of_lt hi')]
  rcases Nat.eq_or_lt_of_le (Nat.le_of_lt_succ hj) with rfl | hj'
  · rw [Function.update_self]
    exact h.lt_next i hi'
  · rw [Function.update_of_ne (Nat.ne_of_lt hj')]
    exact h.mono hi' hj' hlt

theorem lt_update (h : Beside f extras a a') {i : Nat} (hi : i < a.nextUid + 1) :
    Function.update f a.nextUid a'.nextUid i < a'.nextUid + 1 := by
  rcases Nat.eq_or_lt_of_le (Nat.le_of_lt_succ hi) with rfl | hi
  · rw [Function.update_self]
    exact Nat.lt_succ_self _
  · rw [Function.update_of_ne (Nat.ne_of_lt hi)]
    exact Nat.lt_succ_of_lt (h.lt_next i hi)

theorem apart_update (h : Beside f extras a a') {i : Nat} (hi : i < a.nextUid + 1) :
    Function.update f a.nextUid a'.nextUid i ∉ extras.map EventId.uid := by
  rcases Nat.eq_or_lt_of_le (Nat.le_of_lt_succ hi) with rfl | hi
  · rw [Function.update_self]
    exact fun hm => Nat.lt_irrefl _ (h.issued _ hm)
  · rw [Function.update_of_ne (Nat.ne_of_lt hi)]
    exact h.apart i hi

theorem map_renumber_update (h : Beside f extras a a') :
    a.destroyEvents.map (DestroyEvent.renumber (Function.update f a.nextUid a'.nextUid)) =
      a.destroyEvents.map (DestroyEvent.renumber f) := by
  refine List.map_congr_left fun e he => ?_
  unfold DestroyEvent.renumber
  rw [Function.update_of_ne (Nat.ne_of_lt (h.torn e he).1)]

/-- An event is scheduled in both. -/
theorem insert (h : Beside f extras a a') (slot slot' : Nat) (time : Time) (context : ContextId)
    {action : Action (Option α)} (hown : action.isExtra = false) :
    Beside (Function.update f a.nextUid a'.nextUid) extras (a.insert slot time context action).2
      (a'.insert slot' time context action).2 where
  now := h.now
  context := h.context
  resolution := h.resolution
  mono := h.mono_update
  lt_next _ := h.lt_update
  common r hr := by
    rcases List.mem_cons.1 hr with rfl | hr
    · exact hown
    · exact h.common r hr
  pending := by
    change (List.filter _ (_ :: a'.pending)).Perm (List.map _ (_ :: a.pending))
    rw [List.filter_cons_of_pos (by simp [hown]), List.map_cons]
    have hnew : EventRecord.renumber (Function.update f a.nextUid a'.nextUid) ⟨a.nextUid, time, context, action⟩ =
        ⟨a'.nextUid, time, context, action⟩ := by
      simp only [EventRecord.renumber, Function.update_self]
    rw [hnew, List.map_congr_left fun r hr => renumber_update hr _]
    exact h.pending.cons _
  destroyEvents := h.destroyEvents.trans h.map_renumber_update.symm
  torn e he := ⟨Nat.lt_succ_of_lt (h.torn e he).1, (h.torn e he).2⟩
  extra r hr := by
    rcases List.mem_cons.1 hr with rfl | hr
    · simp only [hown, Bool.false_eq_true, false_iff]
      exact fun hm => Nat.lt_irrefl _ (h.issued _ hm)
    · exact h.extra r hr
  nodup := h.nodup
  issued uid hm := Nat.lt_succ_of_lt (h.issued uid hm)
  apart _ := h.apart_update

/-- A destroy event is registered in both. -/
theorem scheduleDestroy (h : Beside f extras a a') (slot slot' : Nat) (b : α) :
    Beside (Function.update f a.nextUid a'.nextUid) extras (a.scheduleDestroy slot (some b)).2
      (a'.scheduleDestroy slot' (some b)).2 where
  now := h.now
  context := h.context
  resolution := h.resolution
  mono := h.mono_update
  lt_next _ := h.lt_update
  common := h.common
  pending := by
    change a'.own.Perm (a.pending.map _)
    rw [List.map_congr_left fun r hr => renumber_update hr _]
    exact h.pending
  destroyEvents := by
    change a'.destroyEvents ++ [⟨a'.nextUid, some b⟩] = List.map _ (a.destroyEvents ++ [⟨a.nextUid, some b⟩])
    rw [List.map_append, h.map_renumber_update, h.destroyEvents]
    simp only [List.map_cons, List.map_nil, DestroyEvent.renumber, Function.update_self]
  torn e he := by
    rcases List.mem_append.1 he with he | he
    · exact ⟨Nat.lt_succ_of_lt (h.torn e he).1, (h.torn e he).2⟩
    · rw [List.mem_singleton.1 he]
      exact ⟨Nat.lt_succ_self _, rfl⟩
  extra := h.extra
  nodup := h.nodup
  issued uid hm := Nat.lt_succ_of_lt (h.issued uid hm)
  apart _ := h.apart_update

/-- A common event is deleted in both. -/
theorem erase (h : Beside f extras a a') {uid : Nat} (hu : uid < a.nextUid) :
    Beside f extras (a.erase uid) (a'.erase (f uid)) where
  now := h.now
  context := h.context
  resolution := h.resolution
  mono := h.mono
  lt_next := h.lt_next
  common r hr := h.common r (List.mem_of_mem_filter hr)
  pending := by
    change (List.filter _ (List.filter _ a'.pending)).Perm (List.map _ (List.filter _ a.pending))
    rw [List.filter_comm]
    refine (h.pending.filter _).trans ?_
    rw [List.filter_map]
    refine .of_eq (congrArg _ (List.filter_congr fun r hr => ?_))
    exact congrArg (!·) (h.renumber_beq (a.lt_next r hr) hu)
  destroyEvents := h.destroyEvents
  torn := h.torn
  extra r hr := h.extra r (List.mem_of_mem_filter hr)
  nodup := h.nodup
  issued := h.issued
  apart := h.apart

/-- A common event begins in both. -/
theorem begin (h : Beside f extras a a') {r : EventRecord (Action (Option α))} (hr : r ∈ a.pending) :
    Beside f extras (a.begin r) (a'.begin (r.renumber f)) :=
  { h.erase (a.lt_next r hr) with now := rfl, context := rfl }

/-- A common event is cancelled in both. -/
theorem cancel (h : Beside f extras a a') {uid : Nat} (hu : uid < a.nextUid) :
    (a'.cancel (f uid)).1 = (a.cancel uid).1 ∧ Beside f extras (a.cancel uid).2 (a'.cancel (f uid)).2 := by
  unfold Plan.cancel
  rw [h.find?_eq hu, h.find?_destroyEvents_eq hu]
  cases a.find? uid with
  | some r => exact ⟨rfl, h.erase hu⟩
  | none =>
    cases a.destroyEvents.find? fun e => e.uid == uid with
    | none => exact ⟨rfl, h⟩
    | some e =>
      refine ⟨rfl, { h with destroyEvents := ?_, torn := fun e he => h.torn e (List.mem_of_mem_filter he) }⟩
      change List.filter _ a'.destroyEvents = List.map _ (List.filter _ a.destroyEvents)
      rw [h.destroyEvents, List.filter_map]
      exact congrArg _ (List.filter_congr fun e he => congrArg (!·) (h.renumber_beq (h.torn e he).1 hu))

/-- The first destroy event of both is taken off. -/
theorem tearDown (h : Beside f extras a a') {e : DestroyEvent (Option α)} {rest : List (DestroyEvent (Option α))}
    (he : a.destroyEvents = e :: rest) :
    Beside f extras { a with destroyEvents := rest } { a' with destroyEvents := rest.map (DestroyEvent.renumber f) } :=
  { h with destroyEvents := rfl, torn := fun e hm => h.torn e (he ▸ List.mem_cons_of_mem _ hm) }

theorem clear (h : Beside f extras a a') : Beside f extras a.clear a'.clear :=
  { h with
    common := fun _ hm => absurd hm List.not_mem_nil
    pending := .refl _
    destroyEvents := rfl
    torn := fun _ hm => absurd hm List.not_mem_nil
    extra := fun _ hm => absurd hm List.not_mem_nil }

/-! ## Extra events -/

/-- An extra event is scheduled in the second plan. -/
theorem insertExtra (h : Beside f extras a a') (slot : Nat) (time : Time) (context : ContextId) :
    Beside f (extras ++ [⟨a'.nextUid, a'.owner, slot⟩]) a (a'.insert slot time context (.perform none)).2 where
  now := h.now
  context := h.context
  resolution := h.resolution
  mono := h.mono
  lt_next i hi := Nat.lt_succ_of_lt (h.lt_next i hi)
  common := h.common
  pending := h.pending
  destroyEvents := h.destroyEvents
  torn := h.torn
  extra r hr := by
    rw [List.map_append, List.mem_append]
    rcases List.mem_cons.1 hr with rfl | hr
    · exact iff_of_true rfl (.inr (List.mem_singleton.2 rfl))
    · rw [h.extra r hr]
      refine (or_iff_left fun hm => ?_).symm
      exact Nat.ne_of_lt (a'.lt_next r hr) (List.mem_singleton.1 hm)
  nodup := by
    rw [List.map_append, List.nodup_append]
    refine ⟨h.nodup, List.nodup_singleton _, fun uid hm uid' hm' => ?_⟩
    rw [List.mem_singleton.1 hm']
    exact Nat.ne_of_lt (h.issued uid hm)
  issued uid hm := by
    rw [List.map_append, List.mem_append] at hm
    rcases hm with hm | hm
    · exact Nat.lt_succ_of_lt (h.issued uid hm)
    · rw [List.mem_singleton.1 hm]
      exact Nat.lt_succ_self _
  apart i hi hm := by
    rw [List.map_append, List.mem_append] at hm
    rcases hm with hm | hm
    · exact h.apart i hi hm
    · exact Nat.ne_of_lt (h.lt_next i hi) (List.mem_singleton.1 hm)

/-- An extra event is cancelled in the second plan, if it is still pending. -/
theorem cancelExtra (h : Beside f extras a a') {id : EventId} (hid : id ∈ extras) :
    ((a'.cancel id.uid).1 = none ∨ (a'.cancel id.uid).1 = some (.perform none)) ∧
      Beside f extras a (a'.cancel id.uid).2 := by
  unfold Plan.cancel
  rw [h.find?_destroyEvents_eq_none hid]
  cases hf : a'.find? id.uid with
  | none => exact ⟨.inl rfl, h⟩
  | some r =>
    obtain ⟨hr, hu⟩ := find?_eq_some_iff.1 hf
    have hx := (h.extra r hr).2 (hu ▸ List.mem_map_of_mem hid)
    refine ⟨.inr (congrArg some (Action.isExtra_iff.1 hx)),
      { h with pending := ?_, extra := fun r hr => h.extra r (List.mem_of_mem_filter hr) }⟩
    change (List.filter _ (List.filter _ a'.pending)).Perm _
    rw [List.filter_comm]
    refine .trans (.of_eq (List.filter_eq_self.2 fun r hr => ?_)) h.pending
    obtain ⟨r₀, hr₀, rfl⟩ := h.mem_own_right_iff.1 hr
    have hne : f r₀.uid ≠ id.uid := fun he => h.apart _ (a.lt_next _ hr₀) (he ▸ List.mem_map_of_mem hid)
    simpa [EventRecord.renumber] using hne

/-! ## What comes next -/

/-- If the least event of the second plan is no extra event, it is the least one of the first plan. -/
theorem least (h : Beside f extras a a') {r' : EventRecord (Action (Option α))} (hr' : r' ∈ a'.pending)
    (hown : r'.action.isExtra = false) (hleast : ∀ r ∈ a'.pending, r ≠ r' → r'.before r) :
    ∃ r ∈ a.pending, r' = r.renumber f ∧ ∀ r₀ ∈ a.pending, r₀ ≠ r → r.before r₀ := by
  obtain ⟨r, hr, rfl⟩ := h.mem_own_right_iff.1 (mem_own_iff.2 ⟨hr', hown⟩)
  refine ⟨r, hr, rfl, fun r₀ hr₀ hne => (h.before_iff hr hr₀).1 (hleast _ (h.mem_right hr₀) fun he => hne ?_)⟩
  have hu : r₀.uid = r.uid := (h.inj (a.lt_next r₀ hr₀) (a.lt_next r hr)).1 (congrArg EventRecord.uid he)
  exact List.inj_on_of_nodup_map a.nodup hr₀ hr hu

end Beside

end Plan

end SimKernel
