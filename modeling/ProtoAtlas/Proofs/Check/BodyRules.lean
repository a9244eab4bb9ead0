/-
# The rules of bodies

What a body must be like, said without the check that reports what is wrong with it:
`BodyRules` for the body of a message or a group and `EnumRules` for an enum.  The check
finds an error exactly where a rule is broken (`faultless_messageBody_iff`,
`faultless_enum_iff`), and the only numbers that its findings name are numbers of the
body (`number_of_mem_messageBody`, `number_of_mem_enum`).

The check compares each name and number with those before it.  That none of them has an
equal before it is that the list has no duplicates (`nodup_map_iff`).
-/

import Mathlib.Data.List.Nodup
import ProtoAtlas.Check.Body

namespace ProtoAtlas

/-- The number that the text of a problem names. -/
def Problem.number? : Problem → Option Int
  | .numberOutOfRange number _ => some number
  | .numberInternal number _ => some number
  | .numberRepeated number _ _ _ => some number
  | .numberReserved number _ _ => some number
  | .numberForExtensions number _ _ => some number
  | .valueNumberRepeated number _ _ _ => some number
  | _ => none

/-- A problem has a text if the number that it names has one. -/
theorem Problem.message?_isSome {p : Problem}
    (short : ∀ n, p.number? = some n → n.natAbs < Nat.pow 10 maxDecimalDigits) :
    p.message?.isSome = true := by
  have worded : ∀ n, p.number? = some n → (decimalText? n).isSome = true := by
    intro n named
    rw [decimalText?, if_pos (short n named), Option.isSome_some]
  cases p with
  | numberOutOfRange => rw [message?, Option.isSome_map, worded _ rfl]
  | numberInternal => rw [message?, Option.isSome_map, worded _ rfl]
  | numberRepeated => rw [message?, Option.isSome_map, worded _ rfl]
  | numberReserved => rw [message?, Option.isSome_map, worded _ rfl]
  | numberForExtensions => rw [message?, Option.isSome_map, worded _ rfl]
  | valueNumberRepeated => rw [message?, Option.isSome_map, worded _ rfl]
  | _ => rfl

namespace Check

/-- None of the findings is an error. -/
def Faultless (found : List Finding) : Prop := ∀ x ∈ found, x.isError = false

/-! ### The rules -/

/-- A number in a range. -/
def Within (range : NumberRange) (n : Int) : Prop := range.first ≤ n ∧ n ≤ range.last

/-- A number and a name that none of some reserved statements takes. -/
structure Unreserved (reservations : List Reserved) (name : Text) (number : Int) : Prop where
  number : ∀ r ∈ reservations, ∀ range ∈ r.ranges, ¬ Within range number
  name : ∀ r ∈ reservations, name ∉ r.names

/-- What one field, map or group of a body must be like. -/
structure SlotRules (level3 : Bool) (body : List Member) (s : Slot) : Prop where
  inRange : 1 ≤ s.number ∧ s.number ≤ 536870911
  notInternal : ¬ (19000 ≤ s.number ∧ s.number ≤ 19999)
  unreserved : Unreserved (Member.reservations body) s.name s.number
  notExtension : ∀ e ∈ Member.extensionRanges body, ∀ range ∈ e.ranges, ¬ Within range s.number
  notRequired : level3 = true → s.label ≠ some .required

/-- What a oneof must be like. -/
structure OneofRules (o : Oneof) : Prop where
  nonempty : Member.fields o.body ≠ [] ∨ Member.groups o.body ≠ []
  unlabelled : ∀ f ∈ Member.fields o.body, f.label = none

/-- What the body of a message or a group must be like. -/
structure BodyRules (level3 : Bool) (body : List Member) : Prop where
  types : ((nestedTypeNames body).map (·.text)).Nodup
  oneofs : ∀ o ∈ Member.oneofs body, OneofRules o
  numbers : ((Slot.ofBody body).map (·.number)).Nodup
  names : ((Slot.ofBody body).map (·.name)).Nodup
  slots : ∀ s ∈ Slot.ofBody body, SlotRules level3 body s
  mapKeys : ∀ m ∈ Member.maps body, m.key.text ∈ mapKeyTypes
  noGroups : level3 = true → Member.groups body = []

/-- What an enum must be like.  Two values may have one number only by `allow_alias`. -/
structure EnumRules (level3 : Bool) (e : Enum) : Prop where
  nonempty : e.values ≠ []
  firstZero : level3 = true → ∀ v, e.values.head? = some v → v.number = 0
  names : (e.values.map (·.name.text)).Nodup
  numbers : e.option? "allow_alias" ≠ some (.flag true) → (e.values.map (·.number)).Nodup
  unreserved : ∀ v ∈ e.values, Unreserved e.reservations v.name.text v.number

/-! ### What is found by the parts of a check -/

theorem nodup_map_iff {α β : Type} (key : α → β) (xs : List α) :
    (xs.map key).Nodup ↔ ∀ i (h : i < xs.length), ∀ y ∈ xs.take i, key y ≠ key xs[i] := by
  rw [List.Nodup, List.pairwise_map, List.pairwise_iff_getElem]
  constructor
  · intro distinct i h y hy
    obtain ⟨j, hj, rfl⟩ := List.mem_take_iff_getElem.1 hy
    exact distinct j i (by omega) h (by omega)
  · intro distinct j i hj hi before
    exact distinct i hi _ (List.mem_take_iff_getElem.2 ⟨j, by omega, rfl⟩)

theorem mem_withEarlier {α β : Type} {check : List α → α → List β} {xs : List α} {b : β} :
    b ∈ withEarlier check xs ↔ ∃ i, ∃ h : i < xs.length, b ∈ check (xs.take i) xs[i] := by
  rw [withEarlier, List.mem_flatMap]
  constructor
  · rintro ⟨⟨a, i⟩, ha, hb⟩
    obtain ⟨h, rfl⟩ := List.getElem?_eq_some_iff.1 (List.mk_mem_zipIdx_iff_getElem?.1 ha)
    exact ⟨i, h, hb⟩
  · rintro ⟨i, h, hb⟩
    exact ⟨(xs[i], i), List.mk_mem_zipIdx_iff_getElem?.2 (List.getElem?_eq_getElem h), hb⟩

@[simp] theorem mem_findIf {condition : Bool} {p : Problem} {span : Span} {x : Finding} :
    x ∈ findIf condition p span ↔ condition = true ∧ x = p.at span := by
  cases condition <;> simp [findIf]

theorem faultless_nil : Faultless [] := fun _ hx => nomatch hx

theorem faultless_append {found found' : List Finding} :
    Faultless (found ++ found') ↔ Faultless found ∧ Faultless found' :=
  List.forall_mem_append

theorem faultless_flatMap {α : Type} {found : α → List Finding} {xs : List α} :
    Faultless (xs.flatMap found) ↔ ∀ a ∈ xs, Faultless (found a) :=
  List.forall_mem_flatMap

theorem faultless_withEarlier {α : Type} {check : List α → α → List Finding} {xs : List α} :
    Faultless (withEarlier check xs) ↔
      ∀ i (h : i < xs.length), Faultless (check (xs.take i) xs[i]) := by
  simp only [Faultless, mem_withEarlier]
  exact ⟨fun all i h x hx => all x ⟨i, h, hx⟩, fun all x ⟨i, h, hx⟩ => all i h x hx⟩

theorem not_faultless_singleton {p : Problem} {span : Span} (error : p.severity = .error) :
    ¬ Faultless [p.at span] := by
  simp [Faultless, Finding.isError, Problem.at, error]

theorem faultless_findIf {condition : Bool} {p : Problem} {span : Span}
    (error : p.severity = .error) : Faultless (findIf condition p span) ↔ condition = false := by
  cases condition with
  | false => simp [Faultless, findIf]
  | true => simp [findIf, not_faultless_singleton error]

/-- A warning is no error. -/
theorem faultless_findIf_warning {condition : Bool} {p : Problem} {span : Span}
    (warning : p.severity = .warning) : Faultless (findIf condition p span) := by
  intro x hx
  obtain ⟨-, rfl⟩ := mem_findIf.1 hx
  simp [Finding.isError, Problem.at, warning]

/-! ### A check finds an error where a rule is broken -/

section Faultless

variable {level3 : Bool} {owner : Text}

theorem not_within_iff {ranges : List NumberRange} {n : Int} :
    ranges.any (·.contains n) = false ↔ ∀ range ∈ ranges, ¬ Within range n := by
  simp [NumberRange.contains, Within]

theorem faultless_slotNumber_iff {s : Slot} : Faultless (slotNumber s) ↔
    (1 ≤ s.number ∧ s.number ≤ 536870911) ∧ ¬ (19000 ≤ s.number ∧ s.number ≤ 19999) := by
  unfold slotNumber
  split
  · next outside =>
    rw [Bool.or_eq_true, decide_eq_true_eq, decide_eq_true_eq, minFieldNumber,
      maxFieldNumber] at outside
    refine iff_of_false (not_faultless_singleton rfl) ?_
    omega
  · next inside =>
    rw [Bool.or_eq_true, decide_eq_true_eq, decide_eq_true_eq, minFieldNumber,
      maxFieldNumber] at inside
    rw [faultless_findIf rfl, Bool.and_eq_false_iff, decide_eq_false_iff_not,
      decide_eq_false_iff_not, firstInternalNumber, lastInternalNumber]
    omega

theorem faultless_reservedUse_iff {reservations : List Reserved} {name : Text} {number : Int}
    {span : Span} : Faultless (reservedUse owner reservations name number span) ↔
      Unreserved reservations name number := by
  have free : ∀ r : Reserved, r.names.contains name = false ↔ name ∉ r.names := by simp
  simp only [reservedUse, faultless_flatMap, faultless_append,
    faultless_findIf (p := .numberReserved number owner name) rfl,
    faultless_findIf (p := .nameReserved owner name) rfl, not_within_iff, free]
  exact ⟨fun all => ⟨fun r hr => (all r hr).1, fun r hr => (all r hr).2⟩,
    fun rules r hr => ⟨rules.number r hr, rules.name r hr⟩⟩

theorem any_eq_false_iff {α β : Type} [DecidableEq β] {key : α → β} {xs : List α} {b : β} :
    xs.any (key · = b) = false ↔ ∀ y ∈ xs, key y ≠ b := by
  simp

theorem find?_eq_none_iff {α β : Type} [DecidableEq β] (key : α → β) {xs : List α} {b : β} :
    xs.find? (key · = b) = none ↔ ∀ y ∈ xs, key y ≠ b := by
  simp

theorem faultless_slot_iff {body : List Member} {earlier : List Slot} {s : Slot} :
    Faultless (slot level3 owner body earlier s) ↔
      (∀ y ∈ earlier, y.number ≠ s.number) ∧ (∀ y ∈ earlier, y.name ≠ s.name) ∧
        SlotRules level3 body s := by
  have required : (level3 && decide (s.label = some .required)) = false ↔
      (level3 = true → s.label ≠ some .required) := by
    cases level3 <;> simp
  rw [slot, faultless_append, faultless_append, faultless_append, faultless_append,
    faultless_append, faultless_slotNumber_iff, faultless_findIf rfl, any_eq_false_iff,
    faultless_reservedUse_iff, faultless_flatMap, faultless_findIf rfl, required,
    ← find?_eq_none_iff Slot.number]
  simp only [faultless_findIf (p := .numberForExtensions s.number owner s.name) rfl, not_within_iff]
  cases earlier.find? (·.number = s.number) with
  | some first =>
    refine iff_of_false (fun h => ?_) (fun h => nomatch h.1)
    exact not_faultless_singleton rfl h.1.1.1.1.2
  | none =>
    constructor
    · rintro ⟨⟨⟨⟨⟨⟨inRange, notInternal⟩, -⟩, names⟩, unreserved⟩, notExtension⟩, notRequired⟩
      exact ⟨rfl, names, inRange, notInternal, unreserved, notExtension, notRequired⟩
    · rintro ⟨-, names, rules⟩
      exact ⟨⟨⟨⟨⟨⟨rules.inRange, rules.notInternal⟩, faultless_nil⟩, names⟩, rules.unreserved⟩,
        rules.notExtension⟩, rules.notRequired⟩

theorem faultless_nestedTypes_iff {body : List Member} : Faultless (nestedTypes owner body) ↔
    ((nestedTypeNames body).map (·.text)).Nodup := by
  rw [nestedTypes, faultless_withEarlier, nodup_map_iff]
  refine forall_congr' fun i => forall_congr' fun h => ?_
  rw [faultless_findIf rfl, any_eq_false_iff]

theorem faultless_oneof_iff {o : Oneof} : Faultless (oneof owner o) ↔ OneofRules o := by
  have empty : ((Member.fields o.body).isEmpty && (Member.groups o.body).isEmpty) = false ↔
      Member.fields o.body ≠ [] ∨ Member.groups o.body ≠ [] := by
    rw [Bool.and_eq_false_iff, List.isEmpty_eq_false_iff, List.isEmpty_eq_false_iff]
  have unlabelled : ∀ f ∈ Member.fields o.body,
      Faultless (findIf f.label.isSome (.oneofLabel f.name.text) f.name.span) ↔ f.label = none := by
    intro f _
    rw [faultless_findIf rfl, Option.isSome_eq_false_iff, Option.isNone_iff_eq_none]
  rw [oneof, faultless_append, faultless_findIf rfl, empty, faultless_flatMap,
    forall₂_congr unlabelled]
  exact ⟨fun ⟨nonempty, unlabelled⟩ => ⟨nonempty, unlabelled⟩,
    fun rules => ⟨rules.nonempty, rules.unlabelled⟩⟩

theorem faultless_slots_iff {body : List Member} :
    Faultless (withEarlier (slot level3 owner body) (Slot.ofBody body)) ↔
      ((Slot.ofBody body).map (·.number)).Nodup ∧ ((Slot.ofBody body).map (·.name)).Nodup ∧
        ∀ s ∈ Slot.ofBody body, SlotRules level3 body s := by
  rw [faultless_withEarlier, nodup_map_iff, nodup_map_iff,
    List.forall_mem_iff_forall_getElem]
  simp only [faultless_slot_iff, forall_and]

theorem faultless_mapKeys_iff {body : List Member} : Faultless (mapKeys body) ↔
    ∀ m ∈ Member.maps body, m.key.text ∈ mapKeyTypes := by
  rw [mapKeys, faultless_flatMap]
  refine forall₂_congr fun m _ => ?_
  rw [faultless_findIf rfl, Bool.not_eq_false', List.contains_iff_mem]

theorem faultless_groups_iff {body : List Member} : Faultless (groups level3 body) ↔
    (level3 = true → Member.groups body = []) := by
  cases level3 with
  | false => exact iff_of_true (fun x hx => nomatch hx) (fun h => nomatch h)
  | true =>
    rw [groups, if_pos rfl]
    cases Member.groups body with
    | nil => exact iff_of_true (fun x hx => nomatch hx) (fun _ => rfl)
    | cons g rest =>
      refine iff_of_false (fun all => ?_) (fun h => nomatch h rfl)
      exact nomatch all _ List.mem_cons_self

/-- **The check of a body finds an error exactly where a rule is broken.** -/
theorem faultless_messageBody_iff {body : List Member} :
    Faultless (messageBody level3 owner body) ↔ BodyRules level3 body := by
  rw [messageBody, faultless_append, faultless_append, faultless_append, faultless_append,
    faultless_nestedTypes_iff, faultless_flatMap, faultless_slots_iff, faultless_mapKeys_iff,
    faultless_groups_iff]
  simp only [faultless_oneof_iff]
  constructor
  · rintro ⟨⟨⟨⟨types, oneofs⟩, numbers, names, slots⟩, keys⟩, noGroups⟩
    exact ⟨types, oneofs, numbers, names, slots, keys, noGroups⟩
  · intro rules
    exact ⟨⟨⟨⟨rules.types, rules.oneofs⟩, rules.numbers, rules.names, rules.slots⟩, rules.mapKeys⟩,
      rules.noGroups⟩

theorem faultless_enumValue_iff {aliases : Bool} {reservations : List Reserved}
    {earlier : List EnumValue} {v : EnumValue} :
    Faultless (enumValue owner aliases reservations earlier v) ↔
      (∀ y ∈ earlier, y.name.text ≠ v.name.text) ∧
        (aliases = false → ∀ y ∈ earlier, y.number ≠ v.number) ∧
        Unreserved reservations v.name.text v.number := by
  rw [enumValue, faultless_append, faultless_append, faultless_findIf rfl, any_eq_false_iff,
    faultless_reservedUse_iff, and_assoc, ← find?_eq_none_iff EnumValue.number]
  refine and_congr_right fun _ => and_congr_left fun _ => ?_
  cases earlier.find? (·.number = v.number) with
  | some first =>
    rw [faultless_findIf rfl]
    cases aliases <;> simp
  | none => exact iff_of_true faultless_nil fun _ => rfl

/-- **The check of an enum finds an error exactly where a rule is broken.** -/
theorem faultless_enum_iff {e : Enum} : Faultless (enum level3 owner e) ↔ EnumRules level3 e := by
  unfold enum
  split
  · next empty =>
    exact iff_of_false (not_faultless_singleton rfl) fun rules => rules.nonempty empty
  · next first rest values =>
    have zero : (level3 && decide (first.number ≠ 0)) = false ↔
        (level3 = true → ∀ v, e.values.head? = some v → v.number = 0) := by
      rw [values]
      cases level3 <;> simp
    have aliased : decide (e.option? "allow_alias" = some (.flag true)) = false ↔
        e.option? "allow_alias" ≠ some (.flag true) :=
      decide_eq_false_iff_not
    rw [← values, faultless_append, faultless_append, faultless_findIf rfl, zero,
      faultless_withEarlier]
    simp only [faultless_enumValue_iff, aliased, forall_and]
    constructor
    · rintro ⟨⟨zero, names, numbers, unreserved⟩, -⟩
      exact ⟨by simp [values], zero, (nodup_map_iff _ _).2 names,
        fun noAlias => (nodup_map_iff _ _).2 fun i h => numbers i h noAlias,
        List.forall_mem_iff_forall_getElem.2 unreserved⟩
    · intro rules
      exact ⟨⟨rules.firstZero, (nodup_map_iff _ _).1 rules.names,
        fun i h noAlias => (nodup_map_iff _ _).1 (rules.numbers noAlias) i h,
        List.forall_mem_iff_forall_getElem.1 rules.unreserved⟩, faultless_findIf_warning rfl⟩

end Faultless

/-! ### The numbers that findings name -/

section Numbers

variable {level3 : Bool} {owner : Text} {x : Finding} {n : Int}

theorem number_of_mem_reservedUse {reservations : List Reserved} {name : Text} {number : Int}
    {span : Span} (hx : x ∈ reservedUse owner reservations name number span)
    (named : x.problem.number? = some n) : n = number := by
  obtain ⟨r, -, hx⟩ := List.mem_flatMap.1 hx
  rcases List.mem_append.1 hx with hx | hx
  · obtain ⟨-, rfl⟩ := mem_findIf.1 hx
    exact (Option.some.inj named).symm
  · obtain ⟨-, rfl⟩ := mem_findIf.1 hx
    cases named

theorem number_of_mem_slotNumber {s : Slot} (hx : x ∈ slotNumber s)
    (named : x.problem.number? = some n) : n = s.number := by
  unfold slotNumber at hx
  split at hx
  · obtain rfl := List.mem_singleton.1 hx
    exact (Option.some.inj named).symm
  · obtain ⟨-, rfl⟩ := mem_findIf.1 hx
    exact (Option.some.inj named).symm

theorem number_of_mem_slot {body : List Member} {earlier : List Slot} {s : Slot}
    (hx : x ∈ slot level3 owner body earlier s) (named : x.problem.number? = some n) :
    n = s.number := by
  simp only [slot, List.mem_append, mem_findIf, List.mem_flatMap] at hx
  rcases hx with ((((range | again) | ⟨-, rfl⟩) | reserved) | ⟨e, -, -, rfl⟩) | ⟨-, rfl⟩
  · exact number_of_mem_slotNumber range named
  · split at again
    · obtain rfl := List.mem_singleton.1 again
      exact (Option.some.inj named).symm
    · cases again
  · cases named
  · exact number_of_mem_reservedUse reserved named
  · exact (Option.some.inj named).symm
  · cases named

/-- The findings of a body name only numbers of its slots. -/
theorem number_of_mem_messageBody {body : List Member} (hx : x ∈ messageBody level3 owner body)
    (named : x.problem.number? = some n) : ∃ s ∈ Slot.ofBody body, n = s.number := by
  simp only [messageBody, List.mem_append] at hx
  rcases hx with (((types | oneofs) | slots) | keys) | groups
  · obtain ⟨i, h, hx⟩ := mem_withEarlier.1 types
    obtain ⟨-, rfl⟩ := mem_findIf.1 hx
    cases named
  · obtain ⟨o, -, hx⟩ := List.mem_flatMap.1 oneofs
    simp only [oneof, List.mem_append, mem_findIf, List.mem_flatMap] at hx
    rcases hx with ⟨-, rfl⟩ | ⟨f, -, -, rfl⟩
    · cases named
    · cases named
  · obtain ⟨i, h, hx⟩ := mem_withEarlier.1 slots
    exact ⟨_, List.getElem_mem h, number_of_mem_slot hx named⟩
  · obtain ⟨m, -, hx⟩ := List.mem_flatMap.1 keys
    obtain ⟨-, rfl⟩ := mem_findIf.1 hx
    cases named
  · unfold Check.groups at groups
    split at groups
    · obtain ⟨g, -, rfl⟩ := List.mem_map.1 groups
      cases named
    · cases groups

theorem number_of_mem_enumValue {aliases : Bool} {reservations : List Reserved}
    {earlier : List EnumValue} {v : EnumValue}
    (hx : x ∈ enumValue owner aliases reservations earlier v)
    (named : x.problem.number? = some n) : n = v.number := by
  simp only [enumValue, List.mem_append, mem_findIf] at hx
  rcases hx with (⟨-, rfl⟩ | again) | reserved
  · cases named
  · split at again
    · obtain ⟨-, rfl⟩ := mem_findIf.1 again
      exact (Option.some.inj named).symm
    · cases again
  · exact number_of_mem_reservedUse reserved named

/-- The findings of an enum name only numbers of its values. -/
theorem number_of_mem_enum {e : Enum} (hx : x ∈ enum level3 owner e)
    (named : x.problem.number? = some n) : ∃ v ∈ e.values, n = v.number := by
  unfold enum at hx
  split at hx
  · obtain rfl := List.mem_singleton.1 hx
    cases named
  · next first rest values =>
    simp only [List.mem_append, mem_findIf] at hx
    rcases hx with (⟨-, rfl⟩ | each) | ⟨-, rfl⟩
    · cases named
    · obtain ⟨i, h, hx⟩ := mem_withEarlier.1 each
      refine ⟨_, ?_, number_of_mem_enumValue hx named⟩
      rw [values]
      exact List.getElem_mem h
    · cases named

end Numbers
end Check
end ProtoAtlas
