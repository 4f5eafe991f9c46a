import Mathlib.Data.List.Infix
import Columnar.Proofs.Qualify.Insertion
import Columnar.Proofs.Record.Declared
import Columnar.Record.Definition
import Columnar.Record.Schema

/-! What the fields of a record are bound to under an alias. The reference to a field is found by
qualifying its name as a text, with all fields of the record as names: it is the column of the field
when the text is taken as a whole or when no other field is found in it. -/
namespace Columnar

/-! A field name as an expression text. -/

theorem insertByLength_perm (name : String) (names : List String) :
    (insertByLength name names).Perm (name :: names) := by
  induction names with
  | nil => exact .refl _
  | cons other rest ih =>
    rw [insertByLength]
    split
    · exact .refl _
    · exact (ih.cons other).trans (.swap ..)

theorem longestFirst_perm (names : List String) :
    (longestFirst names).Perm (names.filter (· ≠ "")) := by
  unfold longestFirst
  induction names.filter (· ≠ "") with
  | nil => exact .refl _
  | cons name names ih => exact (insertByLength_perm _ _).trans (ih.cons name)

def isFound (name : String) (text : List Char) : Bool :=
  text.tails.any (startsWithName (Text.lower name).toList)

theorem not_startsWithName_of_not_isFound {name : String} {text front back : List Char}
    (h : isFound name text = false) (heq : text = front ++ back) :
    startsWithName (Text.lower name).toList back = false := by
  refine Bool.eq_false_iff.mpr fun hs => ?_
  rw [isFound, List.any_eq_false] at h
  exact h back ((List.mem_tails ..).mpr ⟨front, heq.symm⟩) hs

theorem qualifyName_eq_self {tableAlias name : String} {text : List Char}
    (h : isFound name text = false) : qualifyName tableAlias name text = text := by
  refine qualifyFrom_eq_self (fun front back heq hs => ?_) 0
  rw [not_startsWithName_of_not_isFound h heq] at hs
  cases hs

theorem foldl_qualifyName_eq_self {tableAlias : String} {names : List String} {text : List Char}
    (h : ∀ name ∈ names, isFound name text = false) :
    names.foldl (fun body name => qualifyName tableAlias name body) text = text := by
  induction names with
  | nil => rfl
  | cons name names ih =>
    rw [List.foldl_cons, qualifyName_eq_self (h name (by simp)),
      ih fun other hother => h other (by simp [hother])]

theorem startsWithName_self (name : String) :
    startsWithName (Text.lower name).toList name.toList = true := by
  rw [startsWithName_eq, spells_lower]
  simp [Text.lower]

/-- The search for a name in the name itself puts the qualifier in front. -/
theorem qualifyName_self (tableAlias : String) {name : String} (hne : name ≠ "") :
    qualifyName tableAlias name name.toList = tableAlias.toList ++ '.' :: name.toList := by
  have hstart := startsWithName_self name
  have hlength : (Text.lower name).toList.length = name.toList.length := by simp [Text.lower]
  obtain ⟨c, rest, hname⟩ := List.exists_cons_of_ne_nil fun h => hne (String.toList_eq_nil_iff.mp h)
  rw [qualifyName]
  rw [hname] at hstart hlength ⊢
  rw [qualifyFrom, if_pos hstart]
  dsimp only
  rw [qualifyAt_plain rfl, hlength, List.drop_length, if_neg (by simp), List.length_cons,
    Nat.add_sub_cancel, qualifyFrom_rest]
  simp

/-- The name of a field is taken as one column: it has no blanks at its ends, or no other field is
found in it, qualified or not, and none is what it is without the blanks. -/
def ReadsWhole (tableAlias : String) (siblings : List String) (name : String) : Prop :=
  name ≠ "" ∧ (Text.trim name.toList = name.toList ∨
    isNamed siblings (Text.trim name.toList) = false ∧ splitAlias name.toList = none ∧
      ∀ other ∈ siblings, other ≠ "" → other ≠ name →
        isFound other (tableAlias.toList ++ '.' :: name.toList) = false)

instance (tableAlias : String) (siblings : List String) (name : String) :
    Decidable (ReadsWhole tableAlias siblings name) :=
  inferInstanceAs (Decidable (_ ∧ (_ ∨ _ ∧ _ ∧ _)))

theorem isFound_of_append {name : String} {front back : List Char}
    (h : isFound name (front ++ back) = false) : isFound name back = false := by
  rw [isFound, List.any_eq_false]
  intro tail htail
  obtain ⟨lead, rfl⟩ := (List.mem_tails ..).mp htail
  exact Bool.eq_false_iff.mp
    (not_startsWithName_of_not_isFound h (List.append_assoc front lead tail).symm)

/-- A field is looked for once, between names that are not found in it. -/
theorem foldl_longestFirst_self {tableAlias name : String} {siblings : List String}
    (hnodup : siblings.Nodup) (hmem : name ∈ siblings) (hne : name ≠ "")
    (hothers : ∀ other ∈ siblings, other ≠ "" → other ≠ name →
      isFound other (tableAlias.toList ++ '.' :: name.toList) = false) :
    (longestFirst siblings).foldl (fun body name => qualifyName tableAlias name body)
      name.toList = tableAlias.toList ++ '.' :: name.toList := by
  have hperm := longestFirst_perm siblings
  have hlongest : (longestFirst siblings).Nodup := hperm.nodup_iff.mpr (hnodup.filter _)
  obtain ⟨front, back, hsplit⟩ := List.append_of_mem (mem_longestFirst.mpr ⟨hmem, hne⟩)
  have hlooked : ∀ other ∈ front ++ back, other ≠ name ∧
      isFound other (tableAlias.toList ++ '.' :: name.toList) = false := by
    intro other hother
    have hin : other ∈ longestFirst siblings := by
      rw [hsplit]
      simp only [List.mem_append, List.mem_cons] at hother ⊢
      tauto
    obtain ⟨hin, hempty⟩ := mem_longestFirst.mp hin
    have hdiffers : other ≠ name := by
      rintro rfl
      rw [hsplit, List.nodup_middle, List.nodup_cons] at hlongest
      exact hlongest.1 hother
    exact ⟨hdiffers, hothers other hin hempty hdiffers⟩
  have hfront : front.foldl (fun body name => qualifyName tableAlias name body) name.toList =
      name.toList := by
    refine foldl_qualifyName_eq_self fun other hother => ?_
    have hfound := (hlooked other (by simp [hother])).2
    rw [← List.singleton_append, ← List.append_assoc] at hfound
    exact isFound_of_append hfound
  rw [hsplit, List.foldl_append, List.foldl_cons, hfront, qualifyName_self tableAlias hne]
  exact foldl_qualifyName_eq_self fun other hother => (hlooked other (by simp [hother])).2

/-- The name of a field that has no blanks at its ends is qualified as a whole. -/
theorem qualify_fieldName_of_trim (tableAlias : String) {name : String} {siblings : List String}
    (hmem : name ∈ siblings) (hne : name ≠ "") (htrim : Text.trim name.toList = name.toList) :
    qualify tableAlias siblings name = tableAlias ++ "." ++ name := by
  have hsame : Text.sameName name (String.ofList (Text.trim name.toList)) := by
    rw [htrim, String.ofList_toList]
    exact Text.sameName_self name
  rw [qualify_of_whole tableAlias hmem hne hsame, htrim, String.ofList_toList]

/-- A field whose name comes out behind the alias is the column of that name. -/
theorem Binding.reference_of_qualify {tableAlias name : String} {siblings : List String}
    (h : qualify tableAlias siblings name = tableAlias ++ "." ++ name) :
    (Binding.qualified tableAlias).reference siblings name = .column (some tableAlias) name := by
  rw [reference]
  exact if_pos h

/-- The reference to a field whose name is taken as one column. -/
theorem reference_of_readsWhole {tableAlias name : String} {siblings : List String}
    (hnodup : siblings.Nodup) (hmem : name ∈ siblings)
    (h : ReadsWhole tableAlias siblings name) :
    (Binding.qualified tableAlias).reference siblings name = .column (some tableAlias) name := by
  have hqualified : qualify tableAlias siblings name = tableAlias ++ "." ++ name := by
    obtain ⟨hne, htrim | ⟨hblank, hsplit, hothers⟩⟩ := h
    · exact qualify_fieldName_of_trim tableAlias hmem hne htrim
    · have hwhole : (longestFirst siblings).any
          (Text.sameName · (String.ofList (Text.trim name.toList))) = false := by
        change isNamed (longestFirst siblings) _ = false
        rw [isNamed_longestFirst_eq, hblank, Bool.false_and]
      unfold qualify
      dsimp only
      rw [hwhole, if_neg Bool.false_ne_true, hsplit, Option.getD_none]
      dsimp only
      rw [foldl_longestFirst_self hnodup hmem hne hothers]
      simp [← String.toList_inj]
  exact Binding.reference_of_qualify hqualified

/-- Under an alias, the fields of a reflected record come in the order of their declaration, and
each field whose name is taken as one column is bound to that column; where all are, no two of them
are bound to the same. A definition of the record and a schema of it are bound alike. -/
theorem bind_qualified_of_reflect {d : RecordDescriptor} {s : RecordShape} (h : reflect d = .ok s)
    (tableAlias : String) :
    s.fieldNames = d.columns.map MemberDescriptor.field ∧
    List.Forall₂ (fun f bound => bound.name = f.name ∧ bound.type = f.type ∧
        (ReadsWhole tableAlias s.fieldNames f.name →
          bound.expr = .column (some tableAlias) f.name))
      s.fields (s.bind (.qualified tableAlias)) ∧
    ((∀ name ∈ s.fieldNames, ReadsWhole tableAlias s.fieldNames name) →
      (s.bind (.qualified tableAlias)).map BoundField.expr =
          s.fieldNames.map (Expr.column (some tableAlias)) ∧
        ((s.bind (.qualified tableAlias)).map BoundField.expr).Nodup) ∧
    (∀ e : RecordDefinition, e.shape = .ok s →
      e.bind (some tableAlias) = .ok (s.bind (.qualified tableAlias))) ∧
    (∀ r : RecordType, r.shape = .ok s →
      (Schema.of r (some tableAlias)).map Schema.fields =
        .ok (s.bind (.qualified tableAlias))) := by
  obtain ⟨horder, hlower⟩ := fieldNames_of_reflect h
  have hnodup : s.fieldNames.Nodup := .of_map _ hlower
  refine ⟨horder, ?_, fun hall => ?_, fun e he => ?_, fun r hr => ?_⟩
  · rw [RecordShape.bind, List.forall₂_map_right_iff, List.forall₂_same]
    exact fun f hf => ⟨rfl, rfl, reference_of_readsWhole hnodup (List.mem_map_of_mem hf)⟩
  · have hexprs : (s.bind (.qualified tableAlias)).map BoundField.expr =
        s.fieldNames.map (Expr.column (some tableAlias)) := by
      rw [RecordShape.bind, List.map_map, RecordShape.fieldNames, List.map_map]
      refine List.map_congr_left fun f hf => ?_
      have hmem : f.name ∈ s.fieldNames := List.mem_map_of_mem hf
      exact reference_of_readsWhole hnodup hmem (hall f.name hmem)
    refine ⟨hexprs, ?_⟩
    rw [hexprs]
    exact hnodup.map fun a b hab => (Expr.column.inj hab).2
  · rw [RecordDefinition.bind, he]
    rfl
  · rw [Schema.of, hr]
    rfl

theorem bind_qualified_of_reflect_padded :
    ∃ s, reflect ⟨"OrderLine", [⟨"padded", " total", .isPublic, some .isPrivate, .column .integer⟩,
        ⟨"unit", "unit price", .isPublic, some .isPrivate, .column .string⟩], []⟩ = .ok s ∧
      (∀ name ∈ s.fieldNames, ReadsWhole "t" s.fieldNames name) ∧
      (s.bind (.qualified "t")).map BoundField.expr =
        [.column (some "t") " total", .column (some "t") "unit price"] := by
  have h : reflect ⟨"OrderLine", [⟨"padded", " total", .isPublic, some .isPrivate, .column .integer⟩,
      ⟨"unit", "unit price", .isPublic, some .isPrivate, .column .string⟩], []⟩ =
      .ok ⟨"OrderLine", [.mk " total" .integer true, .mk "unit price" .string true]⟩ := rfl
  have hall : ∀ name ∈ [" total", "unit price"],
      ReadsWhole "t" [" total", "unit price"] name := by decide
  obtain ⟨-, -, hexprs, -⟩ := bind_qualified_of_reflect h "t"
  exact ⟨_, h, hall, (hexprs hall).1⟩

/-- Two fields that are bound to one column: without the blank, the name of the first is that of the
second. -/
theorem bind_padded_name :
    ∃ s, reflect ⟨"Person", [⟨"padded", " id", .isPublic, some .isPrivate, .column .integer⟩,
        ⟨"id", "id", .isPublic, some .isPrivate, .column .string⟩], []⟩ = .ok s ∧
      s.fieldNames = [" id", "id"] ∧
      (s.bind (.qualified "t")).map BoundField.expr =
        [.column (some "t") "id", .column (some "t") "id"] :=
  ⟨_, rfl, rfl, rfl⟩

end Columnar
