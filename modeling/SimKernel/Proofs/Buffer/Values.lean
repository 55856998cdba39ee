import SimKernel.Proofs.Buffer.Growth
import SimKernel.Proofs.Buffer.Owners
import SimKernel.Proofs.Operations

/-!
# Buffers are values

Operations on any number of buffers (`Handles.apply`), and the same operations on byte strings, of which each handle has
one of its own (`Values.apply`). Whatever buffers share and wherever they grow, they hold the bytes that the
independent strings do, and every operation has the same answer (`exec_eq_values`).
-/

namespace SimKernel

variable {ρ : Type}

/-- What is done to a window of bytes, with an answer; the window keeps its length. -/
structure Fill (ρ : Type) where
  run : Bytes → ρ × Bytes
  length_run : ∀ window, (run window).2.length = window.length

/-- Operations on buffers, which are named by their places in the order in which they were made. -/
inductive BufferOp (ρ : Type) where
  | ofBytes (data : Bytes)
  | ofSize (n : Nat)
  | clone (i : Nat)
  | fragment (i offset length : Nat)
  | addAtStart (i n : Nat)
  | addAtEnd (i n : Nat)
  | prependWith (i n : Nat) (fill : Fill ρ)
  | appendWith (i n : Nat) (fill : Fill ρ)
  | removeAtStart (i n : Nat)
  | removeAtEnd (i n : Nat)
  | write (i offset : Nat) (data : Bytes)
  | update (i : Nat) (change : Fill Unit)
  | append (i j : Nat)
  | drop (i : Nat)

/-- The answer of an operation, which is that of its fill if it has one. -/
abbrev BufferAnswer (ρ : Type) := Except BufferError (Option ρ)

/-! ## Byte strings of their own -/

/-- The byte string of every handle, and none for handles that were dropped. -/
abbrev Values := List (Option Bytes)

namespace Values

open Operations

/-- One operation on independent strings; an operation on a handle that was dropped changes nothing. -/
def apply (vs : Values) : BufferOp ρ → BufferAnswer ρ × Values
  | .ofBytes data => (.ok none, vs ++ [some data])
  | .ofSize n => (.ok none, vs ++ [some (Bytes.zeros n)])
  | .clone i => onEntry vs i (.ok none, vs) fun v => (.ok none, vs ++ [some v])
  | .fragment i offset length => onEntry vs i (.ok none, vs) fun v =>
    if offset + length ≤ v.length then (.ok none, vs ++ [some ((v.drop offset).take length)])
    else (.error (.outOfBounds offset length v.length), vs)
  | .addAtStart i n => onEntry vs i (.ok none, vs) fun v => (.ok none, vs.set i (some (Bytes.zeros n ++ v)))
  | .addAtEnd i n => onEntry vs i (.ok none, vs) fun v => (.ok none, vs.set i (some (v ++ Bytes.zeros n)))
  | .prependWith i n fill => onEntry vs i (.ok none, vs) fun v =>
    let filled := fill.run (Bytes.zeros n)
    (.ok (some filled.1), vs.set i (some (filled.2 ++ v)))
  | .appendWith i n fill => onEntry vs i (.ok none, vs) fun v =>
    let filled := fill.run (Bytes.zeros n)
    (.ok (some filled.1), vs.set i (some (v ++ filled.2)))
  | .removeAtStart i n => onEntry vs i (.ok none, vs) fun v =>
    if n ≤ v.length then (.ok none, vs.set i (some (v.drop n))) else (.error (.underflow n v.length), vs)
  | .removeAtEnd i n => onEntry vs i (.ok none, vs) fun v =>
    if n ≤ v.length then (.ok none, vs.set i (some (v.take (v.length - n)))) else (.error (.underflow n v.length), vs)
  | .write i offset data => onEntry vs i (.ok none, vs) fun v =>
    if offset + data.length ≤ v.length then (.ok none, vs.set i (some (v.overlay offset data)))
    else (.error (.outOfBounds offset data.length v.length), vs)
  | .update i change => onEntry vs i (.ok none, vs) fun v => (.ok none, vs.set i (some (change.run v).2))
  | .append i j => onEntry vs i (.ok none, vs) fun v => onEntry vs j (.ok none, vs) fun w =>
    (.ok none, vs.set i (some (v ++ w)))
  | .drop i => onEntry vs i (.ok none, vs) fun _ => (.ok none, vs.set i none)

/-- The storage that the operation needs at most is no longer than a byte string can be. -/
def Fits (vs : Values) : BufferOp ρ → Prop
  | .ofSize n => n < UInt64.size / 2
  | .addAtStart i n | .addAtEnd i n | .prependWith i n _ | .appendWith i n _ =>
    ∀ v, vs[i]?.join = some v → Pool.needed v.length n < UInt64.size / 2
  | .append i j =>
    ∀ v w, vs[i]?.join = some v → vs[j]?.join = some w → Pool.needed v.length w.length < UInt64.size / 2
  | _ => True

end Values

/-! ## Buffers in a pool -/

/-- A pool with the buffers made in it, and none for those that were dropped. -/
structure Handles where
  pool : Pool
  buffers : List (Option Buffer)

namespace Handles

open Operations

def empty : Handles := ⟨Pool.empty, []⟩

/-- The visible bytes of every handle. -/
def values (d : Handles) : Values := d.buffers.map (Option.map d.pool.bytes)

/-- A further handle. -/
def make (d : Handles) (made : Buffer × Pool) : Handles := ⟨made.2, d.buffers ++ [some made.1]⟩

/-- The handles after an operation that may have been refused. -/
def settle {σ : Type} (d : Handles) (x : Except BufferError σ) (f : σ → Handles) : BufferAnswer ρ × Handles :=
  match x with
  | .ok y => (.ok none, f y)
  | .error e => (.error e, d)

/-- What is done with the buffer of a handle; an operation on a handle that was dropped changes nothing. -/
def on (d : Handles) (i : Nat) (f : Buffer → Except Fault (BufferAnswer ρ × Handles)) :
    Except Fault (BufferAnswer ρ × Handles) :=
  onEntry d.buffers i (.ok (.ok none, d)) f

/-- One operation on buffers. -/
def apply (d : Handles) : BufferOp ρ → Except Fault (BufferAnswer ρ × Handles)
  | .ofBytes data => .ok (.ok none, d.make (d.pool.ofBytes data))
  | .ofSize n => (d.pool.ofSize n).map fun made => (.ok none, d.make made)
  | .clone i => d.on i fun b => .ok (.ok none, d.make (d.pool.clone b))
  | .fragment i offset length => d.on i fun b => .ok (d.settle (d.pool.fragment b offset length) d.make)
  | .addAtStart i n => d.on i fun b => (d.pool.addAtStart b n).map fun pool => (.ok none, { d with pool })
  | .addAtEnd i n => d.on i fun b => (d.pool.addAtEnd b n).map fun pool => (.ok none, { d with pool })
  | .prependWith i n fill => d.on i fun b =>
    (d.pool.prependWith b n fill.run).map fun x => (.ok (some x.1), { d with pool := x.2 })
  | .appendWith i n fill => d.on i fun b =>
    (d.pool.appendWith b n fill.run).map fun x => (.ok (some x.1), { d with pool := x.2 })
  | .removeAtStart i n => d.on i fun b => .ok (d.settle (d.pool.removeAtStart b n) fun pool => { d with pool })
  | .removeAtEnd i n => d.on i fun b => .ok (d.settle (d.pool.removeAtEnd b n) fun pool => { d with pool })
  | .write i offset data => d.on i fun b => .ok (d.settle (d.pool.write b offset data) fun pool => { d with pool })
  | .update i change => d.on i fun b =>
    .ok (.ok none, { d with pool := d.pool.update b fun bytes => (change.run bytes).2 })
  | .append i j => d.on i fun b => d.on j fun c => (d.pool.append b c).map fun pool => (.ok none, { d with pool })
  | .drop i => d.on i fun b => .ok (.ok none, ⟨d.pool.drop b, d.buffers.set i none⟩)

/-- The handles have live buffers, no two of them the same one. -/
def Valid (d : Handles) : Prop := d.pool.Holds id d.buffers

theorem valid_empty : empty.Valid := Pool.holds_nil Pool.valid_empty

/-! ## Changes of one handle -/

variable {d : Handles} {i : Nat} {b : Buffer} {v : Bytes}

/-- Other bytes in the buffer of a handle are other bytes of that handle only. -/
theorem Valid.sets (h : d.Valid) (hi : d.buffers[i]? = some (some b)) {pool : Pool} (hset : d.pool.Sets b (some v) pool) :
    ({ d with pool } : Handles).Valid ∧ ({ d with pool } : Handles).values = d.values.set i (some v) := by
  have hholds := Pool.Holds.sets h hi (show id b = id b from rfl) hset
  have hvalues := map_set_of_agree (i := i) d.pool.bytes pool.bytes (some b) fun j c hne hj =>
    Pool.bytes_congr (Pool.Holds.others h hi hset j c hne hj)
  rw [set_eq_self hi] at hholds hvalues
  rw [Option.map_some, Pool.bytes_eq hset.self] at hvalues
  exact ⟨hholds, hvalues⟩

theorem Valid.drops (h : d.Valid) (hi : d.buffers[i]? = some (some b)) {pool : Pool} (hset : d.pool.Sets b none pool) :
    (⟨pool, d.buffers.set i none⟩ : Handles).Valid ∧
      (⟨pool, d.buffers.set i none⟩ : Handles).values = d.values.set i none := by
  refine ⟨Pool.Holds.drops h hi hset, map_set_of_agree _ _ none ?_⟩
  intro j c hne hj
  exact Pool.bytes_congr (Pool.Holds.others h hi hset j c hne hj)

/-- A new buffer is a further handle. -/
theorem Valid.makes (h : d.Valid) {made : Buffer × Pool} (hm : d.pool.Makes made v) :
    (d.make made).Valid ∧ (d.make made).values = d.values ++ [some v] := by
  have hvalues := map_append_of_agree d.pool.bytes made.2.bytes made.1 fun j c hj =>
    Pool.bytes_congr (Pool.Holds.others_of_makes h hm j c hj).2
  rw [Pool.bytes_eq hm.self] at hvalues
  exact ⟨Pool.Holds.makes h (x := made.1) hm rfl, hvalues⟩

/-! ## Single operations -/

/-- An operation on a handle is one on a live buffer with the bytes that the handle shows. -/
theorem Valid.keeps_on (h : d.Valid) {fits : Prop} {f : Buffer → Except Fault (BufferAnswer ρ × Handles)}
    {g : Bytes → BufferAnswer ρ × Values}
    (hf : ∀ b v, d.buffers[i]? = some (some b) → d.pool.contents b = some v → d.values[i]?.join = some v →
      Keeps Valid values (f b) (g v) fits) :
    Keeps Valid values (d.on i f) (onEntry d.values i (.ok none, d.values) g) fits :=
  keeps_onEntry ⟨h, rfl⟩ rfl fun b hi hv => by
    obtain ⟨v, hb⟩ := h.live hi
    obtain rfl : d.pool.bytes b = v := Pool.bytes_eq hb
    exact hf b _ hi hb hv

/-- An operation on the buffer of a handle that sets its bytes, unless it is refused. -/
theorem Valid.keeps_settle (h : d.Valid) (hi : d.buffers[i]? = some (some b)) {c : Prop} [Decidable c]
    {x : Except BufferError Pool} {new : Bytes} {e : BufferError} {fits : Prop}
    (granted : c → ∃ pool, x = .ok pool ∧ d.pool.Sets b (some new) pool) (refused : ¬ c → x = .error e) :
    Keeps Valid values (.ok (d.settle x fun pool => { d with pool }))
      (if c then ((.ok none : BufferAnswer ρ), d.values.set i (some new)) else (.error e, d.values)) fits := by
  by_cases hc : c
  · obtain ⟨pool, rfl, hset⟩ := granted hc
    rw [if_pos hc]
    exact keeps_ok _ (h.sets hi hset)
  · rw [refused hc, if_neg hc]
    exact keeps_ok _ ⟨h, rfl⟩

/-- Every operation on buffers is the operation on the strings. -/
theorem Valid.keeps_apply (h : d.Valid) (op : BufferOp ρ) :
    Keeps Valid values (d.apply op) (d.values.apply op) (d.values.Fits op) := by
  have hp : d.pool.Valid := h.valid
  cases op with
  | ofBytes data => exact keeps_ok _ (h.makes (hp.ofBytes data))
  | ofSize n =>
    refine keeps_map (fun hf => ⟨_, Pool.ofSize_eq_ok_iff.2 ⟨hf, rfl⟩⟩) fun made hm => ?_
    obtain ⟨-, rfl⟩ := Pool.ofSize_eq_ok_iff.1 hm
    exact keeps_ok _ (h.makes (hp.ofBytes (Bytes.zeros n)))
  | clone i => exact h.keeps_on fun b v hi hb _ => keeps_ok _ (h.makes (hp.clone hb))
  | fragment i offset length =>
    refine h.keeps_on ?_
    intro b v hi hb _
    by_cases hle : offset + length ≤ v.length
    · obtain ⟨made, hm, hmakes⟩ := hp.fragment hb hle
      rw [hm, if_pos hle]
      exact keeps_ok _ (h.makes hmakes)
    · rw [hp.fragment_of_lt hb hle, if_neg hle]
      exact keeps_ok _ ⟨h, rfl⟩
  | addAtStart i n =>
    exact h.keeps_on fun b v hi hb hv => keeps_map (fun hf => hp.addAtStart_ok hb (hf v hv)) fun pool hpool =>
      keeps_ok _ (h.sets hi (hp.addAtStart hb hpool).1)
  | addAtEnd i n =>
    exact h.keeps_on fun b v hi hb hv => keeps_map (fun hf => hp.addAtEnd_ok hb (hf v hv)) fun pool hpool =>
      keeps_ok _ (h.sets hi (hp.addAtEnd hb hpool).1)
  | prependWith i n fill =>
    refine h.keeps_on fun b v hi hb hv => keeps_map (fun hf => hp.prependWith_ok hb fill.run (hf v hv)) fun z hz => ?_
    obtain ⟨hfst, hset⟩ := hp.prependWith hb ((fill.length_run _).trans (Bytes.length_zeros n)) hz
    rw [hfst]
    exact keeps_ok _ (h.sets hi hset)
  | appendWith i n fill =>
    refine h.keeps_on fun b v hi hb hv => keeps_map (fun hf => hp.appendWith_ok hb fill.run (hf v hv)) fun z hz => ?_
    obtain ⟨hfst, hset⟩ := hp.appendWith hb ((fill.length_run _).trans (Bytes.length_zeros n)) hz
    rw [hfst]
    exact keeps_ok _ (h.sets hi hset)
  | removeAtStart i n =>
    exact h.keeps_on fun b v hi hb _ => h.keeps_settle hi (fun hle => hp.removeAtStart hb hle) fun hlt => hp.removeAtStart_of_lt hb hlt
  | removeAtEnd i n =>
    exact h.keeps_on fun b v hi hb _ => h.keeps_settle hi (fun hle => hp.removeAtEnd hb hle) fun hlt => hp.removeAtEnd_of_lt hb hlt
  | write i offset data =>
    exact h.keeps_on fun b v hi hb _ => h.keeps_settle hi (fun hle => hp.write hb hle) fun hlt => hp.write_of_lt hb hlt
  | update i change =>
    refine h.keeps_on ?_
    intro b v hi hb _
    exact keeps_ok _ (h.sets hi (hp.update hb (fun bytes => (change.run bytes).2) (change.length_run v)))
  | append i j =>
    refine h.keeps_on fun b v hi hb hv => h.keeps_on fun c w hj hc hw => ?_
    exact keeps_map (fun hf => hp.append_ok hb hc (hf v w hv hw)) fun pool hpool =>
      keeps_ok _ (h.sets hi (hp.append hb hc hpool))
  | drop i => exact h.keeps_on fun b v hi hb _ => keeps_ok _ (h.drops hi (hp.drop hb))

/-! ## Histories -/

/-- **Buffers are values.** Whatever is done to any number of buffers, in any order and however they share their storages,
every operation has the answer that it has on independent byte strings, and afterwards every handle shows the bytes of its
own string. There is no answer only if no byte string can be as long as the storage that is needed. -/
theorem exec_eq_values (ops : List (BufferOp ρ)) :
    (∀ answers d, exec apply empty ops = .ok (answers, d) → model Values.apply [] ops = (answers, d.values)) ∧
      (AllFit Values.apply Values.Fits [] ops → ∃ z, exec apply empty ops = .ok z) := by
  have hkeeps := keeps_exec (fun d op hd => Valid.keeps_apply hd op) valid_empty ops
  exact ⟨fun answers d he => (hkeeps.same answers d he).2, hkeeps.total⟩

end Handles

end SimKernel
