import Columnar.DataType.Parser
import Columnar.Proofs.DataType.RoundTrip
import Columnar.Proofs.Text.Reading

/-! The written form of a descriptor, nullability apart, can be told from it and from what follows,
also where a decimal is out of bounds and the text would be refused. -/
namespace Columnar.DataType

/-- The longest run of digits in front as a number, and what follows it. -/
def readDigits (cs : List Char) : Nat × List Char :=
  (Number.ofDigits (cs.takeWhile Char.isDigit), cs.dropWhile Char.isDigit)

mutual

/-- Reads a written descriptor. Nulls are allowed everywhere, and a decimal may have any precision
and scale. -/
def readText : Nat → List Char → Option (DataType × List Char)
  | 0, _ => none
  | fuel + 1, cs =>
    let (word, cs) := spanWord cs
    readBody fuel (Head.ofName (String.ofList word)) cs

/-- Reads what belongs to a type name behind it. -/
def readBody : Nat → Head → List Char → Option (DataType × List Char)
  | 0, _, _ => none
  | _ + 1, .leaf type, cs => some (type, cs)
  | _ + 1, .decimal, cs => do
    let cs ← behind ['('] cs
    let (precision, cs) := readDigits cs
    let cs ← behind [','] cs
    let (scale, cs) := readDigits cs
    let cs ← behind [')'] cs
    some (decimal precision scale, cs)
  | fuel + 1, .array, cs => do
    let cs ← behind ['<'] cs
    let (element, cs) ← readText fuel cs
    let cs ← behind ['>'] cs
    some (array element true, cs)
  | fuel + 1, .map, cs => do
    let cs ← behind ['<'] cs
    let (key, cs) ← readText fuel cs
    let cs ← behind [','] cs
    let (value, cs) ← readText fuel cs
    let cs ← behind ['>'] cs
    some (map key value true, cs)
  | fuel + 1, .struct, cs => do
    let cs ← behind ['<'] cs
    match behind ['>'] cs with
    | some cs => some (struct [], cs)
    | none => do
      let (fields, cs) ← readFieldsText fuel cs
      let cs ← behind ['>'] cs
      some (struct fields, cs)
  | _ + 1, .refused _, _ => none

/-- Reads the written fields of a struct that has at least one. -/
def readFieldsText : Nat → List Char → Option (List StructField × List Char)
  | 0, _ => none
  | fuel + 1, cs => do
    let (name, cs) ← readIdentifier cs
    let cs ← behind [':'] cs
    let (type, cs) ← readText fuel cs
    match behind [','] cs with
    | some cs => do
      let (fields, cs) ← readFieldsText fuel cs
      some (.mk name type true :: fields, cs)
    | none => some ([.mk name type true], cs)

end

theorem readDigits_append (n : Nat) {rest : List Char} (h : rest.head?.any Char.isDigit = false) :
    readDigits (Number.digits n ++ rest) = (n, rest) := by
  have hdigits : ∀ c ∈ Number.digits n, c.isDigit := fun _ => Number.isDigit_of_mem_digits
  obtain ⟨hrun, htail⟩ := span_append hdigits h
  rw [readDigits, hrun, htail, Number.ofDigits_digits]

theorem readText_word (fuel : Nat) {word : String} (h : ∀ c ∈ word.toList, Text.isWord c)
    {rest : List Char} (hrest : rest.head?.any Text.isWord = false) :
    readText (fuel + 1) (word.toList ++ rest) = readBody fuel (Head.ofName word) rest := by
  rw [readText, spanWord_append h hrest]
  simp only [String.ofList_toList]

theorem reads_leafText {t : DataType} (hhead : Head.ofName t.leafText = .leaf t)
    (hword : ∀ c ∈ t.leafText.toList, Text.isWord c) {rest : List Char}
    (hrest : rest.head?.any Text.isWord = false) :
    Reads (fun fuel => readText fuel (t.leafText.toList ++ rest)) (t, rest) := by
  refine .step (fun fuel => readText_word fuel hword hrest) (.step (fun fuel => ?_) (.done _))
  rw [hhead, readBody]

theorem readBody_decimal (fuel precision scale : Nat) (rest : List Char) :
    readBody (fuel + 1) (Head.ofName "decimal")
      ('(' :: (Number.digits precision ++ ',' :: (Number.digits scale ++ ')' :: rest))) =
      some (decimal precision scale, rest) := by
  have hprecision : readDigits (Number.digits precision ++
      ',' :: (Number.digits scale ++ ')' :: rest)) = (precision, _) := readDigits_append _ rfl
  have hscale : readDigits (Number.digits scale ++ ')' :: rest) = (scale, _) :=
    readDigits_append _ rfl
  change readBody (fuel + 1) .decimal _ = _
  simp only [readBody, behind, ↓reduceIte, Option.bind_eq_bind, Option.bind_some, hprecision,
    hscale]

theorem reads_decimal (precision scale : Nat) (rest : List Char) :
    Reads (fun fuel => readText fuel ((decimal precision scale).leafText.toList ++ rest))
      (decimal precision scale, rest) := by
  have htext : (decimal precision scale).leafText.toList ++ rest = "decimal".toList ++
      '(' :: (Number.digits precision ++ ',' :: (Number.digits scale ++ ')' :: rest)) := by
    simp [leafText]
  rw [htext]
  exact .step (fun fuel => readText_word fuel (by decide) rfl)
    (.step (fun fuel => readBody_decimal fuel precision scale rest) (.done _))

theorem readBody_array (fuel : Nat) (cs : List Char) :
    readBody (fuel + 1) (Head.ofName "array") ('<' :: cs) = (do
      let (element, cs) ← readText fuel cs
      let cs ← behind ['>'] cs
      some (array element true, cs)) := rfl

theorem readBody_map (fuel : Nat) (cs : List Char) :
    readBody (fuel + 1) (Head.ofName "map") ('<' :: cs) = (do
      let (key, cs) ← readText fuel cs
      let cs ← behind [','] cs
      let (value, cs) ← readText fuel cs
      let cs ← behind ['>'] cs
      some (map key value true, cs)) := rfl

theorem readBody_struct (fuel : Nat) {cs : List Char} (h : behind ['>'] cs = none) :
    readBody (fuel + 1) (Head.ofName "struct") ('<' :: cs) = (do
      let (fields, cs) ← readFieldsText fuel cs
      let cs ← behind ['>'] cs
      some (struct fields, cs)) := by
  change readBody (fuel + 1) .struct _ = _
  simp [readBody, behind, h]

/-- The reader takes the field name in front first. -/
theorem readFieldsText_field (fuel : Nat) (name : String) (cs : List Char) :
    readFieldsText (fuel + 1) ((Text.quoteIdentifier name false).toList ++ ':' :: cs) = (do
      let (type, cs) ← readText fuel cs
      match behind [','] cs with
      | some cs => do
        let (fields, cs) ← readFieldsText fuel cs
        some (.mk name type true :: fields, cs)
      | none => some ([.mk name type true], cs)) := by
  rw [readFieldsText, readIdentifier_quoteIdentifier name false (by rfl) (by simp)]
  rfl

/-- No name of a field starts like the end of a struct. -/
theorem behind_quoteIdentifier (name : String) (cs : List Char) :
    behind ['>'] ((Text.quoteIdentifier name false).toList ++ cs) = none := by
  unfold Text.quoteIdentifier
  split
  · next hplain =>
    simp only [Bool.and_eq_true] at hplain
    obtain ⟨c, rest, hname⟩ := List.exists_cons_of_ne_nil (Text.ne_nil_of_isPlain hplain.2)
    have hc : '>' ≠ c := by
      rintro rfl
      exact absurd (Text.isWord_of_isPlain hplain.2 '>' (by simp [hname])) (by decide)
    simp [hname, behind, hc]
  · simp [behind]

theorem behind_fieldsText {fields : List StructField} (h : fields ≠ []) (cs : List Char) :
    behind ['>'] ((fieldsText fields).toList ++ cs) = none := by
  match fields with
  | [] => exact absurd rfl h
  | [.mk name _ _] => simpa [fieldsText, fieldText] using behind_quoteIdentifier name _
  | .mk name _ _ :: _ :: _ => simpa [fieldsText, fieldText] using behind_quoteIdentifier name _

mutual

/-- A written descriptor is read as itself with nulls allowed everywhere, in front of any text that
does not prolong its last name. -/
theorem reads_text (t : DataType) {rest : List Char} (hrest : rest.head?.any Text.isWord = false) :
    Reads (fun fuel => readText fuel (t.text.toList ++ rest)) (t.relaxed, rest) := by
  cases t with
  | decimal precision scale => exact reads_decimal precision scale rest
  | array element containsNull =>
    have helement : Reads _ (element.relaxed, '>' :: rest) := reads_text element rfl
    have htext : (array element containsNull).text.toList ++ rest =
        "array".toList ++ '<' :: (element.text.toList ++ '>' :: rest) := by simp [text]
    rw [htext]
    exact .step (fun fuel => readText_word fuel (by decide) rfl)
      (.step (fun fuel => readBody_array fuel _) (helement.bind (.done _)))
  | map key value valueContainsNull =>
    have hvalue : Reads _ (value.relaxed, '>' :: rest) := reads_text value rfl
    have hkey : Reads _ (key.relaxed, ',' :: (value.text.toList ++ '>' :: rest)) :=
      reads_text key rfl
    have htext : (map key value valueContainsNull).text.toList ++ rest = "map".toList ++
        '<' :: (key.text.toList ++ ',' :: (value.text.toList ++ '>' :: rest)) := by simp [text]
    rw [htext]
    exact .step (fun fuel => readText_word fuel (by decide) rfl)
      (.step (fun fuel => readBody_map fuel _) (hkey.bind (hvalue.bind (.done _))))
  | struct fields =>
    have htext : (struct fields).text.toList ++ rest = "struct".toList ++
        '<' :: ((fieldsText fields).toList ++ '>' :: rest) := by simp [text]
    rw [htext]
    refine .step (fun fuel => readText_word fuel (by decide) rfl) ?_
    by_cases hfields : fields = []
    · subst hfields
      exact .step (fun fuel => rfl) (.done _)
    · have hread : Reads _ (relaxedFields fields, '>' :: rest) :=
        reads_fieldsText fields hfields rfl rfl
      exact .step (fun fuel => readBody_struct fuel (behind_fieldsText hfields _))
        (hread.bind (.done _))
  | _ => exact reads_leafText rfl (by decide) hrest

theorem reads_fieldsText (fields : List StructField) (hne : fields ≠ []) {rest : List Char}
    (hrest : rest.head?.any Text.isWord = false) (hcomma : behind [','] rest = none) :
    Reads (fun fuel => readFieldsText fuel ((fieldsText fields).toList ++ rest))
      (relaxedFields fields, rest) := by
  match fields with
  | [] => exact absurd rfl hne
  | [.mk name type nullable] =>
    have htype : Reads _ (type.relaxed, rest) := reads_text type hrest
    have htext : (fieldsText [.mk name type nullable]).toList ++ rest =
        (Text.quoteIdentifier name false).toList ++ ':' :: (type.text.toList ++ rest) := by
      simp [fieldsText, fieldText]
    rw [htext]
    refine .step (fun fuel => readFieldsText_field fuel name _) (htype.bind ?_)
    simp only [hcomma]
    exact .done _
  | .mk name type nullable :: g :: gs =>
    have hmore := reads_fieldsText (g :: gs) (by simp) hrest hcomma
    have htype : Reads _ (type.relaxed, ',' :: ((fieldsText (g :: gs)).toList ++ rest)) :=
      reads_text type rfl
    have htext : (fieldsText (.mk name type nullable :: g :: gs)).toList ++ rest =
        (Text.quoteIdentifier name false).toList ++
          ':' :: (type.text.toList ++ ',' :: ((fieldsText (g :: gs)).toList ++ rest)) := by
      simp [fieldsText, fieldText]
    rw [htext]
    refine .step (fun fuel => readFieldsText_field fuel name _) (htype.bind ?_)
    exact hmore.bind (.done _)

end

end Columnar.DataType
