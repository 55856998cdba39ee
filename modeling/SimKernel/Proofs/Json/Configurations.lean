import SimKernel.Proofs.Json.Text
import SimKernel.Proofs.Time.Reading

/-!
# Reading and writing configurations

Times, units, numbers and optional values are read back from their JSON forms. A list of members stands for a configuration
(`Config.Lists`) if it has the members of its form in any order, but for some that have the default value, and otherwise
members of unknown names only. Then it is read as that configuration (`Config.Lists.ofJson?`).

The main result is about every configuration that is not refused (`Config.read_back`).
-/

namespace SimKernel

open Json

/-! ## Forms -/

namespace Json

theorem proper_ofNat (n : Nat) : Proper (ofNat n) := .number (readNumber_toDigits n)

theorem proper_ofText (s : String) : Proper (ofText s) := .string s.toList

theorem proper_ofOption {α : Type} {form : α → Json} (h : ∀ a, Proper (form a)) (o : Option α) :
    Proper (ofOption form o) := by
  cases o with
  | none => exact .null
  | some a => exact h a

/-- A number is read back from its decimal digits. -/
theorem nat?_ofNat (n : Nat) : (ofNat n).nat? = some n := by
  have hdigits : (Nat.toDigits 10 n).all Char.isDigit = true :=
    List.all_eq_true.2 fun c => Nat.isDigit_of_mem_toDigits (by decide) (by decide)
  have hne : (Nat.toDigits 10 n).isEmpty = false := List.isEmpty_eq_false_iff.2 Nat.toDigits_ne_nil
  rw [ofNat, nat?, hdigits, hne, Text.ofDigits_toDigits]
  rfl

/-- A word is a number that is not too large for it. -/
theorem word64?_ofNat (n : UInt64) : word64? (ofNat n.toNat) = some n := by
  rw [word64?, nat?_ofNat]
  exact (if_pos n.toNat_lt).trans (congrArg some UInt64.ofNat_toNat)

/-- A value whose form is not `null` is not taken for a missing one. -/
theorem option?_ofOption {α : Type} {form : α → Json} {read : Json → Option α} {o : Option α}
    (hread : ∀ a ∈ o, read (form a) = some a) (hnull : ∀ a, form a ≠ null) : option? read (ofOption form o) = some o := by
  cases o with
  | none => rfl
  | some a =>
    have hsome : option? read (form a) = (read (form a)).map some := by
      unfold option?
      split
      case h_1 heq => exact absurd heq (hnull a)
      case h_2 => rfl
    rw [ofOption, hsome, hread a rfl]
    rfl

end Json

namespace Time

/-- A time that is not negative is read back from its text, since only the least of all times is not. -/
theorem ofJson?_toJson {t : Time} (h : 0 ≤ t.femtos) : ofJson? t.toJson = some t := by
  have hmin : t ≠ Time.min := by
    rintro rfl
    exact absurd h (by decide)
  have hfits : Text.ofDigits (Text.dropTrailingZeros t.quantity.places) * t.quantity.unit.femtos < magnitudeBound := by
    rw [show Text.dropTrailingZeros t.quantity.places = [] from rfl, Text.ofDigits_nil, Nat.zero_mul]
    decide
  have hparse : parse t.render = .ok t := by
    rw [← t.text_quantity, Quantity.parse_text_eq_ite t.value_quantity hmin, if_pos hfits]
  simp [ofJson?, toJson, ofText, text?, hparse, Except.toOption]

end Time

namespace Resolution

theorem ofJson?_toJson (r : Resolution) : ofJson? r.toJson = some r := by
  rw [ofJson?, toJson, TimeUnit.toJson, ofText, TimeUnit.ofJson?, String.ofList_toList, TimeUnit.ofSuffix?_suffix]
  rfl

end Resolution

/-! ## Members -/

namespace Config

/-- The members of the form of a configuration. -/
def members (c : Config) : List (Option (List Char) × Json) := [
  (some "resolution".toList, c.resolution.toJson),
  (some "seed".toList, ofNat c.seed.toNat),
  (some "stop_time".toList, ofOption Time.toJson c.stopTime),
  (some "max_events".toList, ofOption (fun n => ofNat n.toNat) c.maxEvents)]

theorem toJson_eq (c : Config) : c.toJson = object c.members := rfl

/-- The names of the settings. -/
def names : List (Option (List Char)) :=
  ["resolution", "seed", "stop_time", "max_events"].map fun name => some name.toList

theorem names_eq (c : Config) : c.members.map Prod.fst = names := rfl

/-- The list has the members of the configuration in any order. Of these some may be missing that have the default value,
and there may be others, of unknown names. -/
structure Lists (c : Config) (ms : List (Option (List Char) × Json)) : Prop where
  named : ∀ m ∈ ms, m.1.isSome
  known : ∃ kept, kept.Sublist c.members ∧ (∀ m ∈ c.members, m ∉ kept → m ∈ members default) ∧
    (ms.filter fun m => m.1 ∈ names).Perm kept

/-- The form itself stands for its configuration. -/
theorem lists_members (c : Config) : c.Lists c.members where
  named := by simp [members]
  known := ⟨c.members, List.Sublist.refl _, fun m hm hnot => absurd hm hnot, List.Perm.of_eq rfl⟩

variable {c : Config} {ms : List (Option (List Char) × Json)} {k : Option (List Char)} {v : Json}

/-- The form of a configuration has one member of each name. -/
theorem filter_members (h : (k, v) ∈ c.members) : (c.members.filter fun m => m.1 == k) = [(k, v)] := by
  simp only [members, List.mem_cons, Prod.mk.injEq, List.not_mem_nil, or_false] at h
  rcases h with ⟨rfl, rfl⟩ | ⟨rfl, rfl⟩ | ⟨rfl, rfl⟩ | ⟨rfl, rfl⟩ <;> rfl

/-- The list has the member of a name, or the value of that name is the default one. -/
theorem Lists.filter_name (h : c.Lists ms) (hm : (k, v) ∈ c.members) :
    (ms.filter fun m => m.1 == k) = [(k, v)] ∨ (ms.filter fun m => m.1 == k) = [] ∧ (k, v) ∈ members default := by
  obtain ⟨kept, hsub, hdefault, hperm⟩ := h.known
  have hknown : k ∈ names := names_eq c ▸ List.mem_map_of_mem hm
  have hfilter : (ms.filter fun m => m.1 == k) = (ms.filter fun m => m.1 ∈ names).filter fun m => m.1 == k := by
    rw [List.filter_filter]
    refine List.filter_congr fun m _ => ?_
    by_cases hk : m.1 = k
    · simp [hk, hknown]
    · simp [hk]
  have hperm' := hperm.filter fun m => m.1 == k
  rw [← hfilter] at hperm'
  have hkept : (kept.filter fun m => m.1 == k).Sublist [(k, v)] := filter_members hm ▸ hsub.filter _
  rcases List.sublist_singleton.1 hkept with hnone | hone
  · rw [hnone] at hperm'
    refine .inr ⟨hperm'.eq_nil, hdefault _ hm fun hmem => ?_⟩
    exact List.filter_eq_nil_iff.1 hnone _ hmem (beq_self_eq_true k)
  · rw [hone] at hperm'
    exact .inl (List.perm_singleton.1 hperm')

/-- A setting is read from the list as it is in the configuration, if that is so for its form and for the form of the
default value. -/
theorem Lists.member? {α : Type} {name : String} {read : Json → Option α} (h : c.Lists ms) (form : Config → Json)
    (value : Config → α) (hmem : ∀ c : Config, (some name.toList, form c) ∈ c.members)
    (hread : read (form c) = some (value c)) (hdefault : read (form default) = some (value default)) :
    member? ms name read (value default) = some (value c) := by
  unfold Config.member?
  rcases h.filter_name (hmem c) with hone | ⟨hnone, hsame⟩
  · rw [hone]
    exact hread
  · have heq := (filter_members hsame).symm.trans (filter_members (hmem default))
    have hform : form c = form default := (Prod.mk.inj (List.cons.inj heq).1).2
    rw [hnone]
    exact hdefault.symm.trans (hform ▸ hread)

/-- Each of the four settings is read from the list on its own. -/
theorem Lists.ofJson? (h : c.Lists ms) (hstop : ∀ t ∈ c.stopTime, 0 ≤ t.femtos) : ofJson? (object ms) = some c := by
  have hnames : (ms.any fun m => m.1.isNone) = false := by
    rw [List.any_eq_false]
    intro m hm
    simpa [Option.isSome_iff_ne_none] using h.named m hm
  have hresolution : Config.member? ms "resolution" Resolution.ofJson? default = some c.resolution :=
    h.member? (fun c => c.resolution.toJson) resolution (fun c => by simp [members])
      (Resolution.ofJson?_toJson _) (Resolution.ofJson?_toJson _)
  have hseed : Config.member? ms "seed" word64? 0 = some c.seed :=
    h.member? (fun c => ofNat c.seed.toNat) seed (fun c => by simp [members])
      (word64?_ofNat _) (word64?_ofNat _)
  have hstopTime : Config.member? ms "stop_time" (option? Time.ofJson?) none = some c.stopTime :=
    h.member? (fun c => ofOption Time.toJson c.stopTime) stopTime (fun c => by simp [members])
      (option?_ofOption (fun t ht => Time.ofJson?_toJson (hstop t ht)) fun _ => Json.noConfusion) rfl
  have hmaxEvents : Config.member? ms "max_events" (option? word64?) none = some c.maxEvents :=
    h.member? (fun c => ofOption (fun n => ofNat n.toNat) c.maxEvents) maxEvents (fun c => by simp [members])
      (option?_ofOption (fun n _ => word64?_ofNat n) fun _ => Json.noConfusion) rfl
  rw [Config.ofJson?, hnames, if_neg Bool.false_ne_true, hresolution, hseed, hstopTime, hmaxEvents]
  rfl

/-- A list with two members of a known name is refused. -/
theorem ofJson?_of_two {k : Option (List Char)} (hk : k ∈ names) (htwo : 2 ≤ (ms.filter fun m => m.1 == k).length) :
    ofJson? (object ms) = none := by
  have hmember {α : Type} (name : String) (read : Json → Option α) (absent : α) (hname : some name.toList = k) :
      Config.member? ms name read absent = none := by
    subst hname
    unfold Config.member?
    split
    case h_1 hnil => simp [hnil] at htwo
    case h_2 hone => simp [hone] at htwo
    case h_3 => rfl
  simp only [names, List.map_cons, List.map_nil, List.mem_cons, List.not_mem_nil, or_false] at hk
  rw [Config.ofJson?]
  split
  case isTrue => rfl
  case isFalse =>
    rcases hk with hk | hk | hk | hk
    · rw [hmember "resolution" _ _ hk.symm]
      rfl
    · simp [hmember "seed" _ _ hk.symm]
    · simp [hmember "stop_time" _ _ hk.symm]
    · simp [hmember "max_events" _ _ hk.symm]

/-- A configuration whose stop time is negative is refused. -/
theorem stopTime_nonneg_of_validate (h : c.validate = .ok ()) : ∀ t ∈ c.stopTime, 0 ≤ t.femtos := by
  intro t ht
  by_contra hneg
  have hnegative : t.isNegative = true := decide_eq_true (by omega)
  rw [validate, show c.stopTime = some t from ht] at h
  simp [hnegative] at h
  cases h

/-- The form of a configuration can be read back from its text. -/
theorem proper_members (c : Config) : ∀ m ∈ c.members, Proper m.2 := by
  simp only [members, List.forall_mem_cons, List.not_mem_nil, false_implies, implies_true, and_true]
  exact ⟨proper_ofText _, proper_ofNat _, proper_ofOption (fun _ => proper_ofText _) _,
    proper_ofOption (fun _ => proper_ofNat _) _⟩

/-! ## Round trips -/

/-- **Configurations are read back as they were written.** A configuration that is not refused is read from its own text. It
is read as well from every text that holds the same members in any order, with others of unknown names, or without some
that have the default value; the text of such members is one. A text with two members of one known name is refused. -/
theorem read_back (c : Config) (h : c.validate = .ok ()) :
    (parse c.toJson.write).bind ofJson? = some c ∧
    (∀ ms text, c.Lists ms → parse text = some (object ms) → (parse text).bind ofJson? = some c) ∧
    (∀ ms, c.Lists ms → (∀ m ∈ ms, Proper m.2) → (parse (object ms).write).bind ofJson? = some c) ∧
    ∀ ms text k, k ∈ names → 2 ≤ (ms.filter fun m => m.1 == k).length → parse text = some (object ms) →
      (parse text).bind ofJson? = none := by
  have hread (ms : List (Option (List Char) × Json)) (text : List Char) (hms : c.Lists ms)
      (htext : parse text = some (object ms)) : (parse text).bind ofJson? = some c := by
    rw [htext]
    exact hms.ofJson? (stopTime_nonneg_of_validate h)
  have hwritten (ms : List (Option (List Char) × Json)) (hms : c.Lists ms) (hproper : ∀ m ∈ ms, Proper m.2) :
      (parse (object ms).write).bind ofJson? = some c :=
    hread ms _ hms (Proper.object hms.named hproper).parse_write
  refine ⟨?_, hread, hwritten, ?_⟩
  · rw [toJson_eq]
    exact hwritten c.members c.lists_members c.proper_members
  · intro ms text k hk htwo htext
    rw [htext]
    exact ofJson?_of_two hk htwo

/-- Milliseconds up to one and a half seconds. -/
def untilOneAndHalf : Config where
  resolution := ⟨.millisecond⟩
  stopTime := some ⟨1_500_000_000_000_000, by decide, by decide⟩

/-- The same without the default values, in another order and with a note. -/
def notedMembers : List (Option (List Char) × Json) := [
  (some "note".toList, array [number "-1.5e3".toList, null]),
  (some "stop_time".toList, ofText "1500ms"),
  (some "resolution".toList, ofText "ms")]

/-- A text with two settings missing, the other two swapped and one unknown name between them is that configuration. -/
theorem read_back_noted :
    (untilOneAndHalf.validate = .ok () ∧ untilOneAndHalf.Lists notedMembers ∧ ∀ m ∈ notedMembers, Proper m.2) ∧
    untilOneAndHalf.toJson.write =
      "\x7b\"resolution\":\"ms\",\"seed\":0,\"stop_time\":\"1500ms\",\"max_events\":null\x7d".toList ∧
    (object notedMembers).write = "\x7b\"note\":[-1.5e3,null],\"stop_time\":\"1500ms\",\"resolution\":\"ms\"\x7d".toList ∧
    (parse untilOneAndHalf.toJson.write).bind ofJson? = some untilOneAndHalf ∧
    (parse (object notedMembers).write).bind ofJson? = some untilOneAndHalf := by
  have hvalid : untilOneAndHalf.validate = .ok () := rfl
  have hlists : untilOneAndHalf.Lists notedMembers := by
    refine ⟨by simp [notedMembers], [(some "resolution".toList, ofText "ms"), (some "stop_time".toList, ofText "1500ms")],
      .cons_cons _ (.cons _ (.cons_cons _ (.cons _ .slnil))), fun m hm hnot => ?_, .swap _ _ _⟩
    rcases hm with _ | ⟨_, _ | ⟨_, _ | ⟨_, _ | ⟨_, hm⟩⟩⟩⟩
    · exact absurd List.mem_cons_self hnot
    · exact .tail _ (.head _)
    · exact absurd (List.mem_cons_of_mem _ List.mem_cons_self) hnot
    · exact .tail _ (.tail _ (.tail _ (.head _)))
    · cases hm
  have hproper : ∀ m ∈ notedMembers, Proper m.2 := by
    simp only [notedMembers, List.forall_mem_cons, List.not_mem_nil, false_implies, implies_true, and_true]
    refine ⟨.array ?_, proper_ofText _, proper_ofText _⟩
    simp only [List.forall_mem_cons, List.not_mem_nil, false_implies, implies_true, and_true]
    exact ⟨.number rfl, .null⟩
  obtain ⟨hown, -, hwritten, -⟩ := read_back untilOneAndHalf hvalid
  exact ⟨⟨hvalid, hlists, hproper⟩, by decide +kernel, by decide +kernel, hown, hwritten notedMembers hlists hproper⟩

end Config

end SimKernel
