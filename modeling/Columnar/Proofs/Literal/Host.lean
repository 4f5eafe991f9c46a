import Columnar.Literal.Host
import Columnar.Proofs.Result

/-! Host values and literals. The two conversions are inverse to each other, on the words of floating
numbers and not only up to their equality. A literal has no host value of a type exactly if some node
of it is of another kind than the type has at that depth. -/
namespace Columnar

/-- The kinds of literals. -/
inductive LiteralKind
  | null
  | leaf (leaf : Leaf)
  | array
  deriving DecidableEq

def Literal.kind : Literal → LiteralKind
  | null => .null
  | boolean _ => .leaf .boolean
  | byte _ => .leaf .byte
  | short _ => .leaf .short
  | integer _ => .leaf .integer
  | long _ => .leaf .long
  | float _ => .leaf .float
  | double _ => .leaf .double
  | decimal _ => .leaf .decimal
  | string _ => .leaf .string
  | binary _ => .leaf .binary
  | date _ => .leaf .date
  | timestamp _ => .leaf .timestamp
  | interval _ => .leaf .interval
  | array _ => .array

namespace Leaf

theorem ofLiteral?_toLiteral (l : Leaf) (v : l.Value) : l.ofLiteral? (l.toLiteral v) = some v := by
  cases l <;> rfl

theorem toLiteral_of_ofLiteral? {l : Leaf} {value : Literal} {v : l.Value}
    (h : l.ofLiteral? value = some v) : l.toLiteral v = value := by
  cases l <;> cases value <;> cases h <;> rfl

theorem ofLiteral?_eq_none_iff {l : Leaf} {value : Literal} :
    l.ofLiteral? value = none ↔ value.kind ≠ .leaf l := by
  cases l <;> cases value <;> simp [ofLiteral?, Literal.kind]

end Leaf

namespace LiteralType

/-- The kind of the literals that a type has; the items of arrays have kinds of their own. -/
def kind : LiteralType → LiteralKind
  | leaf l => .leaf l
  | instant => .leaf .timestamp
  | array _ => .array

/-- A literal with a node, at any depth, of another kind than the type has there. -/
inductive Departs : LiteralType → Literal → Prop
  | here {t : LiteralType} {value : Literal} : value.kind ≠ t.kind → Departs t value
  | item {element : LiteralType} {items : List Literal} {value : Literal} : value ∈ items →
      Departs element value → Departs (array element) (.array items)

theorem mapM_ofLiteral?_map {t : LiteralType}
    (ht : ∀ v, t.ofLiteral? (t.toLiteral v) = some v) (vs : List t.Value) :
    (vs.map t.toLiteral).mapM t.ofLiteral? = some vs := by
  induction vs with
  | nil => rfl
  | cons v vs ih => exact mapM_cons_eq_some_iff.mpr ⟨v, ht v, vs, ih, rfl⟩

theorem ofLiteral?_toLiteral (t : LiteralType) (v : t.Value) :
    t.ofLiteral? (t.toLiteral v) = some v := by
  induction t with
  | leaf l => exact l.ofLiteral?_toLiteral v
  | instant => rfl
  | array element ih => exact mapM_ofLiteral?_map ih v

theorem map_toLiteral_of_mapM {t : LiteralType}
    (ht : ∀ value v, t.ofLiteral? value = some v → t.toLiteral v = value) {items : List Literal}
    {vs : List t.Value} (h : items.mapM t.ofLiteral? = some vs) : vs.map t.toLiteral = items := by
  induction items generalizing vs with
  | nil =>
    obtain rfl := Option.some.inj h
    rfl
  | cons value items ih =>
    obtain ⟨v, hv, rest, hrest, rfl⟩ := mapM_cons_eq_some_iff.mp h
    rw [List.map_cons, ht value v hv, ih hrest]

theorem toLiteral_of_ofLiteral? {t : LiteralType} {value : Literal} {v : t.Value}
    (h : t.ofLiteral? value = some v) : t.toLiteral v = value := by
  induction t generalizing value with
  | leaf l => exact Leaf.toLiteral_of_ofLiteral? h
  | instant =>
    cases value with
    | timestamp moment =>
      obtain rfl := Option.some.inj h
      rfl
    | _ => cases h
  | array element ih =>
    cases value with
    | array items => exact congrArg Literal.array (map_toLiteral_of_mapM (fun _ _ => ih) h)
    | _ => cases h

/-- A literal departs from an array type where it is no array, or where one of its items departs from
the type of the elements. -/
theorem departs_array_iff {element : LiteralType} {items : List Literal} :
    Departs (array element) (.array items) ↔ ∃ value ∈ items, Departs element value := by
  constructor
  · rintro (hkind | ⟨hmem, h⟩)
    · exact absurd rfl hkind
    · exact ⟨_, hmem, h⟩
  · rintro ⟨value, hmem, h⟩
    exact .item hmem h

theorem ofLiteral?_eq_none_iff {t : LiteralType} {value : Literal} :
    t.ofLiteral? value = none ↔ Departs t value := by
  induction t generalizing value with
  | leaf l =>
    refine Leaf.ofLiteral?_eq_none_iff.trans ⟨fun hkind => .here hkind, ?_⟩
    rintro (hkind | _)
    exact hkind
  | instant =>
    cases value with
    | timestamp moment =>
      refine ⟨nofun, ?_⟩
      rintro (hkind | _)
      exact absurd rfl hkind
    | _ => exact ⟨fun _ => .here nofun, fun _ => rfl⟩
  | array element ih =>
    cases value with
    | array items =>
      rw [departs_array_iff]
      exact mapM_eq_none_iff.trans (exists_congr fun value => and_congr_right fun _ => ih)
    | _ => exact ⟨fun _ => .here nofun, fun _ => rfl⟩

end LiteralType

end Columnar
