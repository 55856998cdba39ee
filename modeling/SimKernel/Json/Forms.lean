import SimKernel.Config
import SimKernel.Identity
import SimKernel.Json.Reading

/-!
# JSON forms

How times, units, contexts and configurations are written as JSON. A time is a string, a unit its suffix, a context a
number. A configuration is an object: members may be left out, unknown ones are passed over, and no known one may occur
twice; a list of the settings in their order is taken as well.
-/

namespace SimKernel

open Json

/-- A string with the characters of a text. -/
def Json.ofText (s : String) : Json := string (some s.toList)

/-- A number with the digits of a natural number. -/
def Json.ofNat (n : Nat) : Json := number (Nat.toDigits 10 n)

/-- What is there, or nothing. -/
def Json.ofOption {α : Type} (form : α → Json) : Option α → Json
  | some a => form a
  | none => null

/-- Nothing, or what is read from the value. -/
def Json.option? {α : Type} (read : Json → Option α) : Json → Option (Option α)
  | null => some none
  | v => (read v).map some

/-- A natural number of 64 bits. -/
def Json.word64? (v : Json) : Option UInt64 := do
  let n ← v.nat?
  if n < UInt64.size then some (UInt64.ofNat n) else none

namespace Time

def toJson (t : Time) : Json := ofText t.render

def ofJson? (v : Json) : Option Time := do
  let s ← v.text?
  (parse (String.ofList s)).toOption

end Time

namespace TimeUnit

def toJson (unit : TimeUnit) : Json := ofText unit.suffix

/-- A suffix, alone or as the name of a member that holds nothing. -/
def ofJson? : Json → Option TimeUnit
  | string (some s) => ofSuffix? (String.ofList s)
  | object [(some s, null)] => ofSuffix? (String.ofList s)
  | _ => none

end TimeUnit

namespace Resolution

def toJson (r : Resolution) : Json := r.unit.toJson

def ofJson? (v : Json) : Option Resolution := (TimeUnit.ofJson? v).map Resolution.mk

end Resolution

namespace ContextId

def toJson (c : ContextId) : Json := ofNat c.value.toNat

def ofJson? (v : Json) : Option ContextId := do
  let n ← v.nat?
  if n < UInt32.size then some ⟨UInt32.ofNat n⟩ else none

end ContextId

namespace Config

def toJson (c : Config) : Json :=
  object [
    (some "resolution".toList, c.resolution.toJson),
    (some "seed".toList, ofNat c.seed.toNat),
    (some "stop_time".toList, ofOption Time.toJson c.stopTime),
    (some "max_events".toList, ofOption (fun n => ofNat n.toNat) c.maxEvents)]

/-- The value of the only member of the given name, or the given value if there is none. -/
def member? {α : Type} (members : List (Option (List Char) × Json)) (name : String) (read : Json → Option α)
    (absent : α) : Option α :=
  match members.filter fun m => m.1 == some name.toList with
  | [] => some absent
  | [(_, v)] => read v
  | _ => none

/-- The value of the item at the given place, or the given value if the list ends before. -/
def item? {α : Type} (items : List Json) (i : Nat) (read : Json → Option α) (absent : α) : Option α :=
  match items[i]? with
  | some v => read v
  | none => some absent

def ofJson? : Json → Option Config
  | object members => do
    if members.any fun m => m.1.isNone then none
    else
      let resolution ← member? members "resolution" Resolution.ofJson? default
      let seed ← member? members "seed" Json.word64? 0
      let stopTime ← member? members "stop_time" (Json.option? Time.ofJson?) none
      let maxEvents ← member? members "max_events" (Json.option? Json.word64?) none
      return { resolution, seed, stopTime, maxEvents }
  | array items => do
    if 4 < items.length then none
    else
      let resolution ← item? items 0 Resolution.ofJson? default
      let seed ← item? items 1 Json.word64? 0
      let stopTime ← item? items 2 (Json.option? Time.ofJson?) none
      let maxEvents ← item? items 3 (Json.option? Json.word64?) none
      return { resolution, seed, stopTime, maxEvents }
  | _ => none

end Config

end SimKernel
