import Columnar.Frame
import Columnar.Proofs.Qualify.WholeName
import Columnar.Proofs.Record.Binding

/-! Selecting a field by its name. The name is qualified as a text, and this text is read as a
reference: as the column that the field is bound to when the name is one in some script, and as it
stands when not. The column of such a name is written between quotes, so that the two texts differ. -/
namespace Columnar

theorem splitDot_append {front : List Char} (h : '.' ∉ front) (rest : List Char) :
    splitDot (front ++ '.' :: rest) = some (front, rest) := by
  induction front with
  | nil => rfl
  | cons c front ih =>
    rw [List.mem_cons, not_or] at h
    rw [List.cons_append, splitDot, if_neg (Ne.symm h.1), ih h.2]
    rfl

theorem isName_of_isPlain {cs : List Char} (h : Text.isPlain cs) : isName cs := by
  have hall : ∀ c ∈ cs, isNameChar c := fun c hc =>
    isNameChar_of_isWord (Text.isWord_of_isPlain h c hc)
  cases cs with
  | nil => cases h
  | cons c cs =>
    simp only [Text.isPlain, Bool.and_eq_true] at h
    have hdigit : c.isDigit = false := by
      refine Bool.eq_false_iff.mpr fun hdigit => ?_
      rw [Text.isWordStart_of_isDigit hdigit] at h
      cases h.1
    simp only [isName, hdigit, Bool.not_false, Bool.true_and, List.all_eq_true]
    exact hall

/-- A name behind a plain alias is read as the column under the alias, or as bare text. -/
theorem Expr.ofReference_qualified {tableAlias : String} (halias : Text.isPlain tableAlias.toList)
    (name : String) :
    ofReference (tableAlias ++ "." ++ name) =
      if isName name.toList then column (some tableAlias) name
      else raw (tableAlias ++ "." ++ name) := by
  have hsplit : splitDot (tableAlias ++ "." ++ name).toList =
      some (tableAlias.toList, name.toList) := by
    rw [String.toList_append, String.toList_append, List.append_assoc]
    exact splitDot_append (Text.not_mem_of_isPlain halias (by decide)) name.toList
  simp only [ofReference, hsplit, isName_of_isPlain halias, Bool.true_and, String.ofList_toList]

/-- A name that has to be quoted is not written as it stands. -/
theorem Expr.text_column_ne_bare {tableAlias name : String} (halias : Text.isPlain tableAlias.toList)
    (hname : Text.isPlain name.toList = false) (force : Bool) :
    (column (some tableAlias) name).text force ≠ tableAlias ++ "." ++ name := by
  intro h
  have hticks : tableAlias.toList.count '\x60' = 0 :=
    List.count_eq_zero.mpr (Text.not_mem_of_isPlain halias (by decide))
  have hcount := congrArg (·.toList.count '\x60') h
  simp [text, columnText, Text.quoteIdentifier, hname, Text.count_doubleBackticks, hticks] at hcount
  omega

namespace Schema

variable {s : Schema} {b : BoundField}

theorem name_mem_of_mem_fields (hb : b ∈ s.fields) : b.name ∈ s.fieldNames := by
  obtain ⟨f, hf, rfl⟩ := List.mem_map.mp hb
  exact List.mem_map_of_mem hf

theorem expr_of_mem_fields (hb : b ∈ s.fields) :
    b.expr = (Binding.ofAlias s.tableAlias).reference s.fieldNames b.name := by
  obtain ⟨f, -, rfl⟩ := List.mem_map.mp hb
  rfl

variable {tableAlias : String}

/-- The name of a field is qualified as a whole. -/
theorem qualify_fieldName (halias : s.tableAlias = some tableAlias) (hb : b ∈ s.fields)
    (hne : b.name ≠ "") (htrim : Text.trim b.name.toList = b.name.toList) :
    s.qualify b.name = tableAlias ++ "." ++ b.name := by
  rw [qualify, halias]
  exact qualify_fieldName_of_trim tableAlias (name_mem_of_mem_fields hb) hne htrim

theorem expr_of_qualify (halias : s.tableAlias = some tableAlias) (hb : b ∈ s.fields)
    (h : s.qualify b.name = tableAlias ++ "." ++ b.name) :
    b.expr = .column (some tableAlias) b.name := by
  rw [qualify, halias] at h
  rw [expr_of_mem_fields hb, halias]
  exact Binding.reference_of_qualify h

end Schema

/-- A field that is selected by its name comes out as the column that it is bound to if its name is a
name, and as the bare text of the alias and the name if not, which is not what the column is
written as. -/
theorem Frame.selectTexts_fieldName {H : Type} [FrameHandle H] (f : Frame H) {tableAlias : String}
    (halias : f.schema.tableAlias = some tableAlias) (hplain : Text.isPlain tableAlias.toList)
    {b : BoundField} (hb : b ∈ f.schema.fields) (hne : b.name ≠ "")
    (htrim : Text.trim b.name.toList = b.name.toList) (force : Bool) :
    f.selectTexts [b.name] =
      FrameHandle.select f.handle [Expr.ofReference (f.schema.qualify b.name)] ∧
    b.expr = .column (some tableAlias) b.name ∧
    Expr.ofReference (f.schema.qualify b.name) =
      (if isName b.name.toList then b.expr else .raw (tableAlias ++ "." ++ b.name)) ∧
    ((Expr.ofReference (f.schema.qualify b.name)).text force = b.expr.text force ↔
      isName b.name.toList) := by
  have hqualify := Schema.qualify_fieldName halias hb hne htrim
  have hexpr := Schema.expr_of_qualify halias hb hqualify
  have hselected : Expr.ofReference (f.schema.qualify b.name) =
      if isName b.name.toList then b.expr else .raw (tableAlias ++ "." ++ b.name) := by
    rw [hqualify, Expr.ofReference_qualified hplain, hexpr]
  refine ⟨rfl, hexpr, hselected, ?_⟩
  rw [hselected]
  by_cases hname : isName b.name.toList
  · simp [hname]
  · have hquoted : Text.isPlain b.name.toList = false :=
      Bool.eq_false_iff.mpr fun h => hname (isName_of_isPlain h)
    rw [if_neg hname, hexpr]
    exact iff_of_false (Expr.text_column_ne_bare hplain hquoted force).symm hname

/-- A schema with a name that is quoted and one that has a blank. -/
def signup : Schema where
  record := .declare "Signup"
    [⟨"first", "prénom", .string⟩, ⟨"joined", "joined at", .leaf .date⟩]
  shape := ⟨"Signup", [.mk "prénom" .string true, .mk "joined at" .date true]⟩
  tableAlias := some "c"

theorem Frame.selectTexts_fieldName_signup :
    Schema.of signup.record (some "c") = .ok signup ∧
      ⟨"prénom", .string, .column (some "c") "prénom"⟩ ∈ signup.fields ∧
      (Expr.ofReference (signup.qualify "prénom")).text false = "c.\x60prénom\x60" := by
  have hb : (⟨"prénom", .string, .column (some "c") "prénom"⟩ : BoundField) ∈ signup.fields :=
    List.mem_cons_self
  have hfield := selectTexts_fieldName (⟨{}, signup⟩ : Frame Recorder) rfl (by decide) hb
    (by decide) (by decide) false
  exact ⟨rfl, hb, (hfield.2.2.2.mpr (by decide)).trans (by decide)⟩

theorem Schema.select_signup_joined :
    Schema.of signup.record (some "c") = .ok signup ∧
      ∃ b ∈ signup.fields, b.name = "joined at" ∧
        (Expr.ofReference (signup.qualify b.name)).text false = "c.joined at" ∧
        b.expr.text false = "c.\x60joined at\x60" :=
  ⟨rfl, ⟨"joined at", .date, .column (some "c") "joined at"⟩,
    List.mem_cons_of_mem _ List.mem_cons_self, rfl, by decide +kernel, by decide⟩

end Columnar
