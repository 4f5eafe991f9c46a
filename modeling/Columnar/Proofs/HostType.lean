import Columnar.HostType
import Columnar.Proofs.Result

/-! Which shapes of a program's data have a descriptor. A shape is refused for the first of its parts
that stands in the way, in reading order. Where there is a descriptor, its flags say where the
options stood, and nothing else of it depends on them. -/
namespace Columnar

/-- The error of a result, if it is one. -/
def errorOf {ε α : Type} : Except ε α → Option ε
  | .ok _ => none
  | .error e => some e

section Errors

variable {ε α β γ : Type} {e : ε}

theorem errorOf_eq_some_iff {x : Except ε α} : errorOf x = some e ↔ x = .error e := by
  cases x <;> simp [errorOf]

theorem errorOf_eq_none_iff {x : Except ε α} : errorOf x = none ↔ ∃ a, x = .ok a := by
  cases x <;> simp [errorOf]

theorem errorOf_map (f : α → β) (x : Except ε α) : errorOf (x.map f) = errorOf x := by
  cases x <;> rfl

/-- Of two results that are both needed, the first error counts. -/
theorem errorOf_bind_bind (x : Except ε α) (y : Except ε β) (f : α → β → γ) :
    errorOf (do let a ← x; let b ← y; .ok (f a b)) = (errorOf x).or (errorOf y) := by
  cases x <;> cases y <;> rfl

end Errors

namespace HostType

mutual

/-- A shape and all shapes inside it, each in front of those inside it. -/
def parts : HostType → List HostType
  | optional inner => optional inner :: inner.parts
  | sequence element => sequence element :: element.parts
  | dictionary key value => dictionary key value :: (key.parts ++ value.parts)
  | record members => record members :: memberParts members
  | n => [n]

def memberParts : List (String × HostType) → List HostType
  | [] => []
  | (_, member) :: rest => member.parts ++ memberParts rest

end

/-- Why a shape has no descriptor, whatever is inside it. -/
def obstruction? : HostType → Option TypeError
  | uint32 => some (.unsupported uint32.name)
  | uint64 => some (.unsupported uint64.name)
  | char => some (.hostOnly char.name)
  | time => some (.hostOnly time.name)
  | uuid => some (.hostOnly uuid.name)
  | dictionary (optional key) value => some (.unsupported (dictionary (optional key) value).name)
  | _ => none

mutual

/-- The descriptor fits the shape, and each of its flags is set exactly where the shape has an option
directly inside the container. -/
def FlagsFit : HostType → DataType → Prop
  | optional inner, t => inner.FlagsFit t
  | sequence element, .array t containsNull =>
    (containsNull = true ↔ ∃ inner, element = optional inner) ∧ element.FlagsFit t
  | dictionary key value, .map k v containsNull =>
    (containsNull = true ↔ ∃ inner, value = optional inner) ∧ key.FlagsFit k ∧ value.FlagsFit v
  | record members, .struct fields => MembersFit members fields
  | sequence _, _ => False
  | dictionary _ _, _ => False
  | record _, _ => False
  | _, t => t.isPrimitive

def MembersFit : List (String × HostType) → List StructField → Prop
  | [], fields => fields = []
  | (name, member) :: rest, .mk fieldName type nullable :: fields =>
    fieldName = name ∧ (nullable = true ↔ ∃ inner, member = optional inner) ∧
      member.FlagsFit type ∧ MembersFit rest fields
  | _ :: _, [] => False

end

mutual

/-- The shape with all options taken away. -/
def withoutOptions : HostType → HostType
  | optional inner => inner.withoutOptions
  | sequence element => sequence element.withoutOptions
  | dictionary key value => dictionary key.withoutOptions value.withoutOptions
  | record members => record (membersWithoutOptions members)
  | n => n

def membersWithoutOptions : List (String × HostType) → List (String × HostType)
  | [] => []
  | (name, member) :: rest => (name, member.withoutOptions) :: membersWithoutOptions rest

end

end HostType

namespace DataType

mutual

/-- The descriptor with nulls allowed nowhere. -/
def withoutNulls : DataType → DataType
  | array element _ => array element.withoutNulls false
  | map key value _ => map key.withoutNulls value.withoutNulls false
  | struct fields => struct (fieldsWithoutNulls fields)
  | t => t

def fieldsWithoutNulls : List StructField → List StructField
  | [] => []
  | .mk name type _ :: rest => .mk name type.withoutNulls false :: fieldsWithoutNulls rest

end

end DataType

namespace HostType

theorem isOptional_iff {n : HostType} : n.isOptional = true ↔ ∃ inner, n = optional inner := by
  cases n <;> simp [isOptional]

theorem isOptional_withoutOptions (n : HostType) : n.withoutOptions.isOptional = false := by
  cases n with
  | optional inner => exact isOptional_withoutOptions inner
  | _ => rfl

theorem obstruction?_dictionary {key : HostType} (h : key.isOptional = false) (value : HostType) :
    (dictionary key value).obstruction? = none := by
  cases key with
  | optional inner => cases h
  | _ => rfl

theorem descriptor_dictionary {key : HostType} (h : key.isOptional = false) (value : HostType) :
    (dictionary key value).descriptor = (do
      let k ← key.descriptor
      let v ← value.descriptor
      .ok (.map k v value.isOptional)) := by
  rw [descriptor, h]
  rfl

/-! The first obstruction among the parts is the error: the parts of a container are in the order in
which they are mapped. -/

mutual

theorem errorOf_descriptor (n : HostType) :
    errorOf n.descriptor = n.parts.findSome? obstruction? := by
  cases n with
  | optional inner =>
    rw [descriptor, parts, List.findSome?_cons, errorOf_descriptor inner]
    rfl
  | sequence element =>
    rw [descriptor, errorOf_map, parts, List.findSome?_cons, errorOf_descriptor element]
    rfl
  | dictionary key value =>
    cases hkey : key.isOptional with
    | true =>
      obtain ⟨inner, rfl⟩ := isOptional_iff.mp hkey
      rfl
    | false =>
      rw [descriptor_dictionary hkey, errorOf_bind_bind, errorOf_descriptor key,
        errorOf_descriptor value, parts, List.findSome?_cons, obstruction?_dictionary hkey,
        List.findSome?_append]
  | record members =>
    rw [descriptor, errorOf_map, parts, List.findSome?_cons, errorOf_memberDescriptors members]
    rfl
  | _ => rfl

theorem errorOf_memberDescriptors (members : List (String × HostType)) :
    errorOf (memberDescriptors members) = (memberParts members).findSome? obstruction? := by
  match members with
  | [] => rfl
  | (name, member) :: rest =>
    rw [memberDescriptors, errorOf_bind_bind, errorOf_descriptor member,
      errorOf_memberDescriptors rest, memberParts, List.findSome?_append]

end

mutual

theorem flagsFit_of_descriptor (n : HostType) {t : DataType} (h : n.descriptor = .ok t) :
    n.FlagsFit t := by
  cases n with
  | optional inner => exact flagsFit_of_descriptor inner h
  | sequence element =>
    obtain ⟨u, hu, rfl⟩ := map_eq_ok_iff.mp h
    exact ⟨isOptional_iff, flagsFit_of_descriptor element hu⟩
  | dictionary key value =>
    rw [descriptor] at h
    split at h
    · cases h
    · obtain ⟨k, hk, h⟩ := bind_eq_ok_iff.mp h
      obtain ⟨v, hv, h⟩ := bind_eq_ok_iff.mp h
      obtain rfl := Except.ok.inj h
      exact ⟨isOptional_iff, flagsFit_of_descriptor key hk, flagsFit_of_descriptor value hv⟩
  | record members =>
    obtain ⟨fields, hfields, rfl⟩ := map_eq_ok_iff.mp h
    exact membersFit_of_memberDescriptors members hfields
  | uint32 | uint64 | char | time | uuid => cases h
  | _ =>
    obtain rfl := Except.ok.inj h
    rfl

theorem membersFit_of_memberDescriptors (members : List (String × HostType))
    {fields : List StructField} (h : memberDescriptors members = .ok fields) :
    MembersFit members fields := by
  match members with
  | [] => exact (Except.ok.inj h).symm
  | (name, member) :: rest =>
    rw [memberDescriptors] at h
    obtain ⟨type, htype, h⟩ := bind_eq_ok_iff.mp h
    obtain ⟨others, hothers, h⟩ := bind_eq_ok_iff.mp h
    obtain rfl := Except.ok.inj h
    exact ⟨rfl, isOptional_iff, flagsFit_of_descriptor member htype,
      membersFit_of_memberDescriptors rest hothers⟩

end

mutual

theorem descriptor_withoutOptions (n : HostType) {t : DataType} (h : n.descriptor = .ok t) :
    n.withoutOptions.descriptor = .ok t.withoutNulls := by
  cases n with
  | optional inner => exact descriptor_withoutOptions inner h
  | sequence element =>
    obtain ⟨u, hu, rfl⟩ := map_eq_ok_iff.mp h
    rw [withoutOptions, descriptor, descriptor_withoutOptions element hu,
      isOptional_withoutOptions element]
    rfl
  | dictionary key value =>
    rw [descriptor] at h
    split at h
    · cases h
    · obtain ⟨k, hk, h⟩ := bind_eq_ok_iff.mp h
      obtain ⟨v, hv, h⟩ := bind_eq_ok_iff.mp h
      obtain rfl := Except.ok.inj h
      rw [withoutOptions, descriptor_dictionary (isOptional_withoutOptions key),
        descriptor_withoutOptions key hk, descriptor_withoutOptions value hv,
        isOptional_withoutOptions value]
      rfl
  | record members =>
    obtain ⟨fields, hfields, rfl⟩ := map_eq_ok_iff.mp h
    rw [withoutOptions, descriptor, memberDescriptors_withoutOptions members hfields]
    rfl
  | uint32 | uint64 | char | time | uuid => cases h
  | _ =>
    obtain rfl := Except.ok.inj h
    rfl

theorem memberDescriptors_withoutOptions (members : List (String × HostType))
    {fields : List StructField} (h : memberDescriptors members = .ok fields) :
    memberDescriptors (membersWithoutOptions members) = .ok (DataType.fieldsWithoutNulls fields) := by
  match members with
  | [] =>
    obtain rfl := Except.ok.inj h
    rfl
  | (name, member) :: rest =>
    rw [memberDescriptors] at h
    obtain ⟨type, htype, h⟩ := bind_eq_ok_iff.mp h
    obtain ⟨others, hothers, h⟩ := bind_eq_ok_iff.mp h
    obtain rfl := Except.ok.inj h
    rw [membersWithoutOptions, memberDescriptors, descriptor_withoutOptions member htype,
      memberDescriptors_withoutOptions rest hothers, isOptional_withoutOptions member]
    rfl

end

/-- A shape has a descriptor exactly when none of its parts stands in the way; otherwise the error is
that of the first part that does. The flags of the descriptor say which elements, values and members
are options, and without the options the descriptor is the same with nulls allowed nowhere. -/
theorem descriptor_ok_iff_unobstructed (n : HostType) :
    ((∃ t, n.descriptor = .ok t) ↔ ∀ m ∈ n.parts, m.obstruction? = none) ∧
      (∀ e, n.descriptor = .error e ↔ ∃ front m rest, n.parts = front ++ m :: rest ∧
        (∀ k ∈ front, k.obstruction? = none) ∧ m.obstruction? = some e) ∧
      ∀ t, n.descriptor = .ok t →
        n.FlagsFit t ∧ n.withoutOptions.descriptor = .ok t.withoutNulls := by
  refine ⟨?_, fun e => ?_, fun t ht => ?_⟩
  · rw [← errorOf_eq_none_iff, errorOf_descriptor, List.findSome?_eq_none_iff]
  · rw [← errorOf_eq_some_iff, errorOf_descriptor, List.findSome?_eq_some_iff]
    grind
  · exact ⟨flagsFit_of_descriptor n ht, descriptor_withoutOptions n ht⟩

/-- A key that is an option counts before the shapes inside the dictionary. -/
theorem descriptor_ok_iff_unobstructed_order :
    (record [("id", int64), ("tags", optional (sequence (optional string))),
        ("fees", dictionary string (optional (optional decimal)))]).descriptor =
        .ok (.struct [.mk "id" .long false, .mk "tags" (.array .string true) true,
          .mk "fees" (.map .string .hostDecimal true) false]) ∧
      (record [("id", int64), ("tags", sequence string),
        ("fees", dictionary string decimal)]).descriptor =
        .ok (.struct [.mk "id" .long false, .mk "tags" (.array .string false) false,
          .mk "fees" (.map .string .hostDecimal false) false]) ∧
      (∀ m ∈ (sequence (optional (dictionary string bytes))).parts, m.obstruction? = none) ∧
      (sequence (dictionary (optional uuid) uint32)).descriptor =
        .error (.unsupported "Map<Option<uuid>, u32>") := by
  have hread : (record [("id", int64), ("tags", optional (sequence (optional string))),
      ("fees", dictionary string (optional (optional decimal)))]).descriptor =
      .ok (.struct [.mk "id" .long false, .mk "tags" (.array .string true) true,
        .mk "fees" (.map .string .hostDecimal true) false]) := rfl
  exact ⟨hread, ((descriptor_ok_iff_unobstructed _).2.2 _ hread).2,
    (descriptor_ok_iff_unobstructed _).1.mp ⟨_, rfl⟩,
    ((descriptor_ok_iff_unobstructed _).2.1 _).mpr
      ⟨[sequence (dictionary (optional uuid) uint32)], _, _, rfl, by simp [obstruction?], rfl⟩⟩

end HostType

end Columnar
