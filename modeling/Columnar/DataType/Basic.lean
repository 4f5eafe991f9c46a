/-! Structural type descriptors of the engine: leaves, arrays, maps and structs. A container says
whether what it holds may be null. -/
namespace Columnar

mutual

inductive DataType
  | boolean
  | byte
  | short
  | integer
  | long
  | float
  | double
  | decimal (precision scale : Nat)
  | string
  | binary
  | date
  | timestamp
  | interval
  | array (element : DataType) (containsNull : Bool)
  | map (key value : DataType) (valueContainsNull : Bool)
  | struct (fields : List StructField)

inductive StructField
  | mk (name : String) (type : DataType) (nullable : Bool)

end

namespace StructField

def name : StructField → String
  | mk name _ _ => name

def type : StructField → DataType
  | mk _ type _ => type

def nullable : StructField → Bool
  | mk _ _ nullable => nullable

end StructField

namespace DataType

def maxPrecision : Nat := 38

/-- The precision and scale that a decimal has when a program's own decimals are mapped to it. -/
def hostDecimal : DataType := decimal maxPrecision 18

/-- The precision and scale of a decimal written without arguments. -/
def plainDecimal : DataType := decimal 10 0

def isNumeric : DataType → Bool
  | byte | short | integer | long | float | double | decimal _ _ => true
  | _ => false

/-- Whether a value of the type holds no values of other types. -/
def isPrimitive : DataType → Bool
  | array _ _ | map _ _ _ | struct _ => false
  | _ => true

/-- The field names of a struct, in declaration order. -/
def fieldNames : DataType → List String
  | struct fields => fields.map StructField.name
  | _ => []

mutual

/-- Equality of descriptors, flags included. -/
def same : DataType → DataType → Bool
  | boolean, boolean | byte, byte | short, short | integer, integer | long, long => true
  | float, float | double, double | string, string | binary, binary => true
  | date, date | timestamp, timestamp | interval, interval => true
  | decimal p s, decimal q t => p == q && s == t
  | array a m, array b n => same a b && m == n
  | map j a m, map k b n => same j k && same a b && m == n
  | struct fs, struct gs => sameFields fs gs
  | _, _ => false

def sameField : StructField → StructField → Bool
  | .mk a t m, .mk b u n => a == b && same t u && m == n

def sameFields : List StructField → List StructField → Bool
  | [], [] => true
  | f :: fs, g :: gs => sameField f g && sameFields fs gs
  | _, _ => false

end

mutual

theorem eq_of_same : ∀ {a b : DataType}, same a b = true → a = b := by
  intro a b h
  cases a <;> cases b <;> simp_all only [same, Bool.and_eq_true, beq_iff_eq, Bool.false_eq_true]
  case array.array => obtain ⟨h, rfl⟩ := h; rw [eq_of_same h]
  case map.map => obtain ⟨⟨h, k⟩, rfl⟩ := h; rw [eq_of_same h, eq_of_same k]
  case struct.struct => rw [eq_of_sameFields h]

theorem eq_of_sameField : ∀ {f g : StructField}, sameField f g = true → f = g := by
  intro f g h
  cases f; cases g
  simp only [sameField, Bool.and_eq_true, beq_iff_eq] at h
  obtain ⟨⟨rfl, h⟩, rfl⟩ := h
  rw [eq_of_same h]

theorem eq_of_sameFields : ∀ {fs gs : List StructField}, sameFields fs gs = true → fs = gs := by
  intro fs gs h
  cases fs <;> cases gs <;> simp_all only [sameFields, Bool.and_eq_true, Bool.false_eq_true]
  rw [eq_of_sameField h.1, eq_of_sameFields h.2]

end

mutual

theorem same_self : ∀ a : DataType, same a a = true := by
  intro a
  cases a <;> simp only [same, Bool.and_eq_true, beq_self_eq_true, and_self]
  case array t _ => simp [same_self t]
  case map k v _ => simp [same_self k, same_self v]
  case struct fs => exact sameFields_self fs

theorem sameField_self : ∀ f : StructField, sameField f f = true := by
  intro f
  cases f with
  | mk _ t _ => simp [sameField, same_self t]

theorem sameFields_self : ∀ fs : List StructField, sameFields fs fs = true := by
  intro fs
  cases fs with
  | nil => rfl
  | cons f fs => simp [sameFields, sameField_self f, sameFields_self fs]

end

theorem same_iff {a b : DataType} : same a b = true ↔ a = b :=
  ⟨eq_of_same, fun h => h ▸ same_self a⟩

instance : DecidableEq DataType := fun _ _ => decidable_of_iff _ same_iff

end DataType

end Columnar
