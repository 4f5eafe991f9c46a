import Columnar.Proofs.DataType.Offsets

/-! The reader of descriptors by offsets never leaves its input. Each of its calls follows the reader
of suffixes: from the offset in front of a suffix it comes to the offset in front of a later one,
or to the same error. So the offset is always a place where the input can be cut, it never goes
back, and a name or a type moves it on. -/
namespace Columnar

/-- The offset that a fault names. -/
def TypeFault.offset? : TypeFault → Option Nat
  | expectedName offset => some offset
  | expected _ offset _ => some offset
  | trailing offset => some offset
  | _ => none

/-- Whether an error names no offset but one where the input can be cut. -/
def TypeError.Within (input : String) : TypeError → Prop
  | malformed _ fault => ∀ offset ∈ fault.offset?, isBoundary (utf8 input.toList) offset
  | _ => True

namespace DataType

/-- A call does what a reader does: it gives the same value with the offset of the characters that
are left, or the same error. One that moves leaves fewer characters, and only one with fuel that is
short comes to the end of it. -/
inductive Follows {α : Type} (input : String) (moves short : Prop) (cs : List Char) :
    Except TypeError (α × List Char) → Except Stop (α × Nat) → Prop
  | ok {a : α} {rest : List Char} : rest <:+ cs → (moves → rest.length < cs.length) →
      Follows input moves short cs (.ok (a, rest)) (.ok (a, offsetOf input rest))
  | error {e : TypeError} : e.Within input →
      Follows input moves short cs (.error e) (.error (.refused e))
  | exhausted {read : Except TypeError (α × List Char)} : short →
      Follows input moves short cs read (.error .exhausted)

section Follows

variable {α β : Type} {input : String} {moves short : Prop} {cs : List Char}

theorem Follows.done {a : α} :
    Follows input False short cs (.ok (a, cs)) (.ok (a, offsetOf input cs)) :=
  .ok List.suffix_rfl False.elim

theorem Follows.mono {read : Except TypeError (α × List Char)} {call : Except Stop (α × Nat)}
    {moves' short' : Prop} (h : Follows input moves' short' cs read call)
    (hmoves : moves → moves') (hshort : short' → short) :
    Follows input moves short cs read call := by
  cases h with
  | ok hrest hlt => exact .ok hrest fun hm => hlt (hmoves hm)
  | error he => exact .error he
  | exhausted hs => exact .exhausted (hshort hs)

/-- What follows behind some characters follows from in front of them. -/
theorem Follows.behind {read : Except TypeError (α × List Char)} {call : Except Stop (α × Nat)}
    {rest : List Char} (h : Follows input False short rest read call)
    (hrest : rest <:+ cs) (hlt : moves → rest.length < cs.length) :
    Follows input moves short cs read call := by
  cases h with
  | ok hrest' _ =>
    exact .ok (hrest'.trans hrest) fun hm => Nat.lt_of_le_of_lt hrest'.length_le (hlt hm)
  | error he => exact .error he
  | exhausted hs => exact .exhausted hs

theorem Follows.widen {read : Except TypeError (α × List Char)} {call : Except Stop (α × Nat)}
    {rest : List Char} (h : Follows input moves short rest read call) (hrest : rest <:+ cs) :
    Follows input moves short cs read call := by
  cases h with
  | ok hrest' hlt =>
    exact .ok (hrest'.trans hrest) fun hm => Nat.lt_of_lt_of_le (hlt hm) hrest.length_le
  | error he => exact .error he
  | exhausted hs => exact .exhausted hs

theorem Follows.bind {read : Except TypeError (α × List Char)} {call : Except Stop (α × Nat)}
    {next : α × List Char → Except TypeError (β × List Char)}
    {next' : α × Nat → Except Stop (β × Nat)}
    (h : Follows input moves short cs read call)
    (hnext : ∀ a rest, rest <:+ cs → (moves → rest.length < cs.length) →
      Follows input False short rest (next (a, rest)) (next' (a, offsetOf input rest))) :
    Follows input moves short cs (read >>= next) (call >>= next') := by
  cases h with
  | ok hrest hlt => exact (hnext _ _ hrest hlt).behind hrest hlt
  | error he => exact .error he
  | exhausted hs => exact .exhausted hs

theorem Follows.outcome {read : Except TypeError (α × List Char)} {call : Except Stop (α × Nat)}
    (h : Follows input moves short cs read call) :
    (∃ a rest, rest <:+ cs ∧ (moves → rest.length < cs.length) ∧ read = .ok (a, rest) ∧
        call = .ok (a, offsetOf input rest)) ∨
      (∃ e : TypeError, e.Within input ∧ read = .error e ∧ call = .error (.refused e)) ∨
      short ∧ call = .error .exhausted := by
  cases h with
  | ok hrest hlt => exact .inl ⟨_, _, hrest, hlt, rfl, rfl⟩
  | error he => exact .inr (.inl ⟨_, he, rfl, rfl⟩)
  | exhausted hs => exact .inr (.inr ⟨hs, rfl⟩)

theorem within_of_suffix {rest : List Char} (h : rest <:+ input.toList) {fault : TypeFault}
    {text : String} (hfault : ∀ offset ∈ fault.offset?, offset = offsetOf input rest) :
    (TypeError.malformed text fault).Within input := by
  intro offset hoffset
  rw [hfault offset hoffset]
  exact isBoundary_offsetOf h

theorem expect_of_ne {wanted : Char} (hne : (Text.skipBlanks cs).head? ≠ some wanted) :
    DataType.expect input wanted cs = .error (.malformed input
      (.expected wanted (offsetOf input (Text.skipBlanks cs)) (Text.skipBlanks cs).head?)) := by
  unfold DataType.expect
  cases hblanks : Text.skipBlanks cs with
  | nil => rfl
  | cons c rest =>
    have hc : c ≠ wanted := by simpa [hblanks] using hne
    simp [hc]

theorem Follows.expect {wanted : Char} {next : List Char → Except TypeError (β × List Char)}
    {next' : Nat → Except Stop (β × Nat)} (h : cs <:+ input.toList)
    (hnext : ∀ rest, rest <:+ cs → rest.length < cs.length →
      Follows input False short rest (next rest) (next' (offsetOf input rest))) :
    Follows input moves short cs (DataType.expect input wanted cs >>= next)
      (expectAt input wanted (offsetOf input cs) >>= next') := by
  have hskip := skipBlanks_suffix cs
  by_cases hhead : (Text.skipBlanks cs).head? = some wanted
  · obtain ⟨rest, hrest⟩ := List.head?_eq_some_iff.mp hhead
    have hread : DataType.expect input wanted cs = .ok rest := by simp [DataType.expect, hrest]
    rw [bind_of_ok hread, bind_of_ok (expectAt_of_skipBlanks h hrest)]
    rw [hrest] at hskip
    have hsuffix : rest <:+ cs := (List.suffix_cons wanted rest).trans hskip
    exact (hnext rest hsuffix hskip.length_le).behind hsuffix fun _ => hskip.length_le
  · rw [bind_of_error (expect_of_ne hhead), bind_of_error (expectAt_of_ne h hhead)]
    exact .error (within_of_suffix (hskip.trans h) (by simp [TypeFault.offset?]))

/-- What looks at the next character follows either way on. -/
theorem Follows.ifNext {wanted : Char} {read : Except TypeError (β × List Char)}
    {taken passed : Nat → Except Stop (β × Nat)} (h : cs <:+ input.toList)
    (htaken : ∀ rest, Text.skipBlanks cs = wanted :: rest → rest <:+ cs →
      rest.length < cs.length → Follows input False short rest read (taken (offsetOf input rest)))
    (hpassed : (∀ rest, Text.skipBlanks cs ≠ wanted :: rest) →
      Follows input False short (Text.skipBlanks cs) read
        (passed (offsetOf input (Text.skipBlanks cs)))) :
    Follows input False short cs read (ifNextAt input wanted taken passed (offsetOf input cs)) := by
  have hskip := skipBlanks_suffix cs
  unfold ifNextAt
  rw [bind_of_ok (peekAt_offsetOf h)]
  dsimp only
  split
  · next hhead =>
    obtain ⟨rest, hcs⟩ := List.head?_eq_some_iff.mp hhead
    have hagain : Text.skipBlanks (Text.skipBlanks cs) = wanted :: rest := by
      rw [Text.skipBlanks_skipBlanks, hcs]
    rw [bind_of_ok (expectAt_of_skipBlanks (hskip.trans h) hagain)]
    rw [hcs] at hskip
    have hrest : rest <:+ cs := (List.suffix_cons wanted rest).trans hskip
    exact (htaken rest hcs hrest hskip.length_le).behind hrest False.elim
  · next hhead =>
    exact (hpassed fun rest hcs => hhead (by rw [hcs]; rfl)).behind hskip False.elim

/-! Names and numbers. -/

theorem wordAt_follows (h : cs <:+ input.toList) :
    Follows input True short cs (readWord input cs) (wordAt input cs (offsetOf input cs)) := by
  have hsplit : cs.takeWhile Text.isWord ++ cs.dropWhile Text.isWord = cs :=
    List.takeWhile_append_dropWhile
  have hstop : (findByte (fun c => !Text.isWord c) cs).getD (utf8 cs).length =
      (utf8 (cs.takeWhile Text.isWord)).length := by
    simpa using findByte_eq (fun c => !Text.isWord c) cs
  have hfront := frontOf_append (cs.takeWhile Text.isWord) (cs.dropWhile Text.isWord)
  have hpos := offsetOf_suffix _ (hsplit.symm ▸ h)
  have hlength := congrArg List.length hsplit
  rw [List.length_append] at hlength
  rw [hsplit] at hfront hpos
  unfold readWord wordAt
  dsimp only
  rw [hstop, bind_of_ok hfront, ← hpos]
  cases hword : cs.takeWhile Text.isWord with
  | nil => exact .error (within_of_suffix h (by simp [TypeFault.offset?]))
  | cons c word =>
    have hsize := c.utf8Size_pos
    have hne : (utf8 (c :: word)).length ≠ 0 := by
      rw [length_utf8_cons]
      omega
    rw [if_neg hne]
    refine .ok (List.dropWhile_suffix _) fun _ => ?_
    rw [hword, List.length_cons] at hlength
    omega

/-- Behind a quoted name, with the backticks around it. -/
theorem offsetOf_quoted {inner rest : List Char}
    (h : '\x60' :: (inner ++ '\x60' :: rest) <:+ input.toList) :
    offsetOf input rest =
      offsetOf input ('\x60' :: (inner ++ '\x60' :: rest)) + ((utf8 inner).length + 2) := by
  have htick : ('\x60').utf8Size = 1 := by decide
  have hsplit : ('\x60' :: inner ++ ['\x60']) ++ rest <:+ input.toList := by simpa using h
  have hpos := offsetOf_suffix _ hsplit
  simp only [List.cons_append, List.append_assoc, List.nil_append] at hpos ⊢
  rw [hpos, length_utf8_cons, length_utf8_append, length_utf8_cons, htick, utf8_nil,
    List.length_nil]
  omega

/-- A call that comes behind a quoted name follows the reader that does. -/
theorem Follows.quoted {a : α} {inner rest : List Char}
    (h : '\x60' :: (inner ++ '\x60' :: rest) <:+ input.toList) :
    Follows input True short ('\x60' :: (inner ++ '\x60' :: rest)) (.ok (a, rest))
      (.ok (a, offsetOf input ('\x60' :: (inner ++ '\x60' :: rest)) +
        ((utf8 inner).length + 2))) := by
  rw [← offsetOf_quoted h]
  have hlength : rest.length < ('\x60' :: (inner ++ '\x60' :: rest)).length := by
    rw [List.length_cons, List.length_append, List.length_cons]
    omega
  exact .ok ⟨'\x60' :: inner ++ ['\x60'], by simp⟩ fun _ => hlength

theorem quotedNameAt_follows {quoted : List Char} (h : '\x60' :: quoted <:+ input.toList) :
    Follows input True short ('\x60' :: quoted) (match Text.splitBacktick quoted with
      | some (inner, rest) => .ok (String.ofList inner, rest)
      | none => .error (.malformed input .unterminatedName))
      (quotedNameAt input quoted (offsetOf input ('\x60' :: quoted))) := by
  unfold quotedNameAt
  rw [findByte_backtick]
  cases hsplit : Text.splitBacktick quoted with
  | none => exact .error (by simp [TypeError.Within, TypeFault.offset?])
  | some found =>
    obtain ⟨inner, rest⟩ := found
    obtain ⟨rfl, -⟩ := Text.splitBacktick_eq_some_iff.mp hsplit
    dsimp only [Option.map_some]
    rw [bind_of_ok (frontOf_append inner ('\x60' :: rest))]
    exact .quoted h

theorem quotedFieldNameAt_follows {quoted : List Char} (h : '\x60' :: quoted <:+ input.toList) :
    Follows input True short ('\x60' :: quoted) (match Text.splitDoubled quoted with
      | some (inner, rest) => .ok (String.ofList inner, rest)
      | none => .error (.malformed input .unterminatedName))
      (quotedFieldNameAt input quoted (offsetOf input ('\x60' :: quoted))) := by
  unfold quotedFieldNameAt
  rw [closingAt_eq]
  cases hsplit : Text.splitDoubled quoted with
  | none => exact .error (by simp [TypeError.Within, TypeFault.offset?])
  | some found =>
    obtain ⟨inner, rest⟩ := found
    obtain ⟨rfl, -⟩ := Text.eq_of_splitDoubled hsplit
    dsimp only [Option.map_some]
    rw [Nat.zero_add]
    exact .quoted h

theorem nameAt_of_bare (h : cs <:+ input.toList)
    (hbare : ∀ quoted, Text.skipBlanks cs ≠ '\x60' :: quoted) :
    nameAt input (offsetOf input cs) =
      wordAt input (Text.skipBlanks cs) (offsetOf input (Text.skipBlanks cs)) := by
  unfold nameAt
  rw [bind_of_ok (skipBlanksAt_offsetOf h),
    bind_of_ok (restAt_offsetOf ((skipBlanks_suffix cs).trans h))]
  split
  · next quoted hquoted => exact absurd hquoted (hbare quoted)
  · rfl

theorem readName_of_bare (hbare : ∀ quoted, Text.skipBlanks cs ≠ '\x60' :: quoted) :
    readName input cs = readWord input (Text.skipBlanks cs) := by
  unfold readName
  split
  · next quoted hquoted => exact absurd hquoted (hbare quoted)
  · rfl

theorem nameAt_follows (h : cs <:+ input.toList) :
    Follows input True short cs (readName input cs) (nameAt input (offsetOf input cs)) := by
  have hskip := skipBlanks_suffix cs
  have h' := hskip.trans h
  by_cases hquoted : ∃ quoted, Text.skipBlanks cs = '\x60' :: quoted
  · obtain ⟨quoted, hquoted⟩ := hquoted
    unfold readName nameAt
    rw [bind_of_ok (skipBlanksAt_offsetOf h), bind_of_ok (restAt_offsetOf h'), hquoted]
    rw [hquoted] at h' hskip
    exact (quotedNameAt_follows h').widen hskip
  · have hbare := not_exists.mp hquoted
    rw [readName_of_bare hbare, nameAt_of_bare h hbare]
    exact (wordAt_follows h').widen hskip

/-- A bare name of a field is read as the name of a type is, behind the blanks. -/
theorem fieldNameAt_of_bare (h : cs <:+ input.toList)
    (hbare : ∀ quoted, Text.skipBlanks cs ≠ '\x60' :: quoted) :
    fieldNameAt input (offsetOf input cs) =
      nameAt input (offsetOf input (Text.skipBlanks cs)) := by
  unfold fieldNameAt
  rw [bind_of_ok (skipBlanksAt_offsetOf h),
    bind_of_ok (restAt_offsetOf ((skipBlanks_suffix cs).trans h))]
  split
  · next quoted hquoted => exact absurd hquoted (hbare quoted)
  · rfl

theorem readFieldName_of_bare (hbare : ∀ quoted, Text.skipBlanks cs ≠ '\x60' :: quoted) :
    readFieldName input cs = readName input (Text.skipBlanks cs) := by
  rw [← Text.skipBlanks_skipBlanks] at hbare
  rw [readName_of_bare hbare, Text.skipBlanks_skipBlanks]
  rw [Text.skipBlanks_skipBlanks] at hbare
  unfold readFieldName
  split
  · next quoted hquoted => exact absurd hquoted (hbare quoted)
  · rfl

theorem fieldNameAt_follows (h : cs <:+ input.toList) :
    Follows input True short cs (readFieldName input cs)
      (fieldNameAt input (offsetOf input cs)) := by
  have hskip := skipBlanks_suffix cs
  have h' := hskip.trans h
  by_cases hquoted : ∃ quoted, Text.skipBlanks cs = '\x60' :: quoted
  · obtain ⟨quoted, hquoted⟩ := hquoted
    unfold readFieldName fieldNameAt
    rw [bind_of_ok (skipBlanksAt_offsetOf h), bind_of_ok (restAt_offsetOf h'), hquoted]
    rw [hquoted] at h' hskip
    exact (quotedFieldNameAt_follows h').widen hskip
  · have hbare := not_exists.mp hquoted
    rw [readFieldName_of_bare hbare, fieldNameAt_of_bare h hbare]
    exact (nameAt_follows h').widen hskip

theorem numberAt_follows (h : cs <:+ input.toList) :
    Follows input True short cs (readNumber input cs) (numberAt input (offsetOf input cs)) := by
  unfold readNumber numberAt
  rcases (nameAt_follows h).outcome with
    ⟨digits, rest, hrest, hlt, hread, hcall⟩ | ⟨e, he, hread, hcall⟩ | ⟨hs, hcall⟩
  · rw [hread, bind_of_ok hcall]
    dsimp only
    cases byteValue? digits.toList with
    | none => exact .error (by simp [TypeError.Within, TypeFault.offset?])
    | some n => exact .ok hrest hlt
  · rw [hread, bind_of_error hcall]
    exact .error he
  · rw [bind_of_error hcall]
    exact .exhausted hs

theorem scaleAt_follows (h : cs <:+ input.toList) :
    Follows input False short cs (readScale input cs) (scaleAt input (offsetOf input cs)) := by
  refine .ifNext h (fun rest hcs hrest _ => ?_) fun hcs => ?_
  · rw [readScale, hcs]
    exact (numberAt_follows (hrest.trans h)).mono False.elim id
  · unfold readScale
    split
    · next rest hcomma => exact absurd hcomma (hcs rest)
    · exact .done

theorem decimalAt_follows (h : cs <:+ input.toList) :
    Follows input False short cs (readDecimal input cs) (decimalAt input (offsetOf input cs)) := by
  refine .ifNext h (fun rest hcs hrest _ => ?_) fun hcs => ?_
  · have h₁ := hrest.trans h
    rw [readDecimal, hcs]
    refine ((numberAt_follows h₁).mono False.elim id).bind fun precision r₁ hr₁ _ => ?_
    refine (scaleAt_follows (hr₁.trans h₁)).bind fun scale r₂ hr₂ _ => ?_
    refine .expect (hr₂.trans (hr₁.trans h₁)) fun r₃ hr₃ _ => ?_
    by_cases hdecimal : isDecimal precision scale
    · simp only [hdecimal, if_true]
      exact .done
    · simp only [hdecimal, if_false, Bool.false_eq_true]
      exact .error (by simp [TypeError.Within, TypeFault.offset?])
  · unfold readDecimal
    split
    · next rest hopen => exact absurd hopen (hcs rest)
    · exact .done

/-! Types. -/

theorem within_ofName {name : String} {e : TypeError} (h : Head.ofName name = .refused e) :
    e.Within input := by
  unfold Head.ofName at h
  split at h <;> cases h <;> simp [TypeError.Within, TypeFault.offset?]

mutual

/-- Every level reads a character, so fuel above their number is never short. -/
theorem typeAt_follows {cs : List Char} (fuel : Nat) (h : cs <:+ input.toList) :
    Follows input True (fuel ≤ cs.length) cs (readType input fuel cs)
      (typeAt input fuel (offsetOf input cs)) := by
  cases fuel with
  | zero =>
    rw [typeAt]
    exact .exhausted (Nat.zero_le _)
  | succ fuel =>
    rw [readType, typeAt]
    refine (nameAt_follows h).bind fun name r₁ hr₁ hlt₁ => ?_
    have h₁ := hr₁.trans h
    have hlt₁ := hlt₁ trivial
    dsimp only
    cases hhead : Head.ofName (Text.lower name) with
    | leaf type => exact .done
    | decimal => exact decimalAt_follows h₁
    | array =>
      refine .expect h₁ fun r₂ hr₂ hlt₂ => ?_
      have h₂ := hr₂.trans h₁
      refine ((typeAt_follows fuel h₂).mono False.elim (by omega)).bind fun element r₃ hr₃ _ => ?_
      exact .expect (hr₃.trans h₂) fun r₄ hr₄ _ => .done
    | map =>
      refine .expect h₁ fun r₂ hr₂ hlt₂ => ?_
      have h₂ := hr₂.trans h₁
      refine ((typeAt_follows fuel h₂).mono False.elim (by omega)).bind fun key r₃ hr₃ _ => ?_
      have hle₃ := hr₃.length_le
      refine .expect (hr₃.trans h₂) fun r₄ hr₄ hlt₄ => ?_
      have h₄ := hr₄.trans (hr₃.trans h₂)
      refine ((typeAt_follows fuel h₄).mono False.elim (by omega)).bind fun value r₅ hr₅ _ => ?_
      exact .expect (hr₅.trans h₄) fun r₆ hr₆ _ => .done
    | struct =>
      refine .expect h₁ fun r₂ hr₂ hlt₂ => ?_
      have h₂ := hr₂.trans h₁
      refine .ifNext h₂ (fun rest hrest _ _ => ?_) fun hopen => ?_
      · rw [hrest]
        exact .done
      · have hskip := skipBlanks_suffix r₂
        have hle := hskip.length_le
        have h₃ := hskip.trans h₂
        have hfields := fieldsAt_follows fuel h₃
        split
        · next rest hclosed => exact absurd hclosed (hopen rest)
        · refine (hfields.mono False.elim (by omega)).bind fun fields r₃ hr₃ _ => ?_
          exact .expect (hr₃.trans h₃) fun r₄ hr₄ _ => .done
    | refused e => exact .error (within_ofName hhead)

theorem fieldsAt_follows {cs : List Char} (fuel : Nat) (h : cs <:+ input.toList) :
    Follows input True (fuel ≤ cs.length) cs (readFields input fuel cs)
      (fieldsAt input fuel (offsetOf input cs)) := by
  cases fuel with
  | zero =>
    rw [fieldsAt]
    exact .exhausted (Nat.zero_le _)
  | succ fuel =>
    rw [readFields, fieldsAt]
    refine (fieldNameAt_follows h).bind fun name r₁ hr₁ hlt₁ => ?_
    have h₁ := hr₁.trans h
    have hlt₁ := hlt₁ trivial
    refine .expect h₁ fun r₂ hr₂ hlt₂ => ?_
    have h₂ := hr₂.trans h₁
    refine ((typeAt_follows fuel h₂).mono False.elim (by omega)).bind fun type r₃ hr₃ _ => ?_
    have h₃ := hr₃.trans h₂
    have hle₃ := hr₃.length_le
    dsimp only
    refine .ifNext h₃ (fun r₄ hcomma hr₄ hlt₄ => ?_) fun hlast => ?_
    · have hfields := fieldsAt_follows fuel (hr₄.trans h₃)
      rw [hcomma]
      exact (hfields.mono False.elim (by omega)).bind fun fields r₅ _ _ => .done
    · split
      · next rest hcomma => exact absurd hcomma (hlast rest)
      · exact .done

end

end Follows

/-! Texts. -/

section Texts

variable {input : String} {cs : List Char}

theorem offsetOf_toList : offsetOf input input.toList = 0 := Nat.sub_self _

theorem offsetOf_eq_length_iff (h : cs <:+ input.toList) :
    offsetOf input cs = (utf8 input.toList).length ↔ cs = [] := by
  obtain ⟨front, hfront⟩ := h
  rw [offsetOf_append hfront.symm, ← hfront, length_utf8_append]
  constructor
  · intro hlength
    have hnil : utf8 cs = utf8 [] := List.length_eq_zero_iff.mp (by omega)
    exact utf8_inj hnil
  · rintro rfl
    rfl

/-- The reader by offsets ends on a text as the reader of suffixes does. -/
theorem parseAt_cases (input : String) :
    (∃ t, parse input = .ok t ∧ parseAt input = .ok t) ∨
      ∃ e : TypeError, e.Within input ∧ parse input = .error e ∧
        parseAt input = .error (.refused e) := by
  have hall : input.toList <:+ input.toList := List.suffix_rfl
  have htype := typeAt_follows (input.length + 1) hall
  rw [offsetOf_toList] at htype
  unfold parse parseAt
  rcases htype.outcome with ⟨t, rest, hrest, -, hread, hcall⟩ | ⟨e, he, hread, hcall⟩ | ⟨hshort, -⟩
  · have hskip := (skipBlanks_suffix rest).trans hrest
    dsimp only
    rw [String.length_toList, bind_of_ok hread, bind_of_ok hcall]
    dsimp only
    rw [bind_of_ok (skipBlanksAt_offsetOf hrest)]
    simp only [offsetOf_eq_length_iff hskip]
    cases hblanks : Text.skipBlanks rest with
    | nil => exact .inl ⟨t, rfl, rfl⟩
    | cons c rest =>
      rw [hblanks] at hskip
      exact .inr ⟨_, within_of_suffix hskip (by simp [TypeFault.offset?]), rfl, rfl⟩
  · exact .inr ⟨e, he, bind_of_error hread _, bind_of_error hcall _⟩
  · rw [String.length_toList] at hshort
    omega

end Texts

/-! Runs. A call is made at an offset where another one has come to, the first one at the start. -/

inductive Call
  | skipBlanks
  | peek
  | expect (wanted : Char)
  | name
  | fieldName
  | number
  | type (fuel : Nat)

def Call.run (input : String) (pos : Nat) : Call → Except Stop Nat
  | skipBlanks => skipBlanksAt input pos
  | peek => (peekAt input pos).map Prod.snd
  | expect wanted => expectAt input wanted pos
  | name => (nameAt input pos).map Prod.snd
  | fieldName => (fieldNameAt input pos).map Prod.snd
  | number => (numberAt input pos).map Prod.snd
  | type fuel => (typeAt input fuel pos).map Prod.snd

/-- Whether a call reads anything but blanks. -/
def Call.Moves : Call → Prop
  | skipBlanks | peek => False
  | _ => True

/-- Whether a call may come to the end of its fuel. -/
def Call.Short (input : String) : Call → Prop
  | type fuel => fuel ≤ input.length
  | _ => False

/-- The offsets that any calls come to, made one after another from the start. -/
inductive Reached (input : String) : Nat → Prop
  | start : Reached input 0
  | next {pos pos' : Nat} (call : Call) : Reached input pos → call.run input pos = .ok pos' →
      Reached input pos'

section Runs

variable {input : String} {cs : List Char}

/-- What a call gives in front of a suffix: the offset of a later one, an error, or nothing for want
of fuel. -/
inductive Call.Ends (input : String) (cs : List Char) (call : Call) : Except Stop Nat → Prop
  | ok {rest : List Char} : rest <:+ cs → (call.Moves → rest.length < cs.length) →
      Call.Ends input cs call (.ok (offsetOf input rest))
  | refused {e : TypeError} : e.Within input → Call.Ends input cs call (.error (.refused e))
  | exhausted : call.Short input → Call.Ends input cs call (.error .exhausted)

theorem Follows.ends {α : Type} {moves short : Prop}
    {read : Except TypeError (α × List Char)} {result : Except Stop (α × Nat)} {call : Call}
    (h : Follows input moves short cs read result) (hmoves : call.Moves → moves)
    (hshort : short → call.Short input) : call.Ends input cs (result.map Prod.snd) := by
  cases h with
  | ok hrest hlt => exact .ok hrest fun hm => hlt (hmoves hm)
  | error he => exact .refused he
  | exhausted hs => exact .exhausted (hshort hs)

theorem expectAt_ends (h : cs <:+ input.toList) (wanted : Char) :
    (Call.expect wanted).Ends input cs (expectAt input wanted (offsetOf input cs)) := by
  have hskip := skipBlanks_suffix cs
  by_cases hhead : (Text.skipBlanks cs).head? = some wanted
  · obtain ⟨rest, hrest⟩ := List.head?_eq_some_iff.mp hhead
    rw [expectAt_of_skipBlanks h hrest]
    rw [hrest] at hskip
    exact .ok ((List.suffix_cons wanted rest).trans hskip) fun _ => hskip.length_le
  · rw [expectAt_of_ne h hhead]
    exact .refused (within_of_suffix (hskip.trans h) (by simp [TypeFault.offset?]))

/-- One call keeps to the input. -/
theorem Call.ends (call : Call) (h : cs <:+ input.toList) :
    call.Ends input cs (call.run input (offsetOf input cs)) := by
  have hskip := skipBlanks_suffix cs
  cases call with
  | skipBlanks =>
    rw [run, skipBlanksAt_offsetOf h]
    exact .ok hskip False.elim
  | peek =>
    rw [run, peekAt_offsetOf h]
    exact .ok hskip False.elim
  | expect wanted => exact expectAt_ends h wanted
  | name => exact (nameAt_follows h).ends id False.elim
  | fieldName => exact (fieldNameAt_follows h).ends id False.elim
  | number => exact (numberAt_follows h).ends id False.elim
  | type fuel => exact (typeAt_follows fuel h).ends id fun hs => hs.trans h.length_le

/-- The reader is always in front of a suffix of its input. -/
theorem exists_suffix_of_reached {pos : Nat} (h : Reached input pos) :
    ∃ cs, cs <:+ input.toList ∧ pos = offsetOf input cs := by
  induction h with
  | start => exact ⟨input.toList, List.suffix_rfl, offsetOf_toList.symm⟩
  | @next pos pos' call _ hcall ih =>
    obtain ⟨cs, hcs, rfl⟩ := ih
    have hends := call.ends hcs
    rw [hcall] at hends
    cases hends with
    | @ok rest hrest => exact ⟨rest, hrest.trans hcs, rfl⟩

/-- Wherever calls on the reader have come to, the input can be cut there. From there no call cuts it
where it cannot be cut, and with fuel above the number of characters every call comes to an end. No
call goes back, one that reads anything but blanks goes on, and an error names such offsets only. So
a whole text is read or refused as by the reader of suffixes. -/
theorem reader_stays_within_input (input : String) :
    (∀ pos, Reached input pos →
      (isBoundary (utf8 input.toList) pos ∧ pos ≤ (utf8 input.toList).length) ∧
        ∀ call : Call, match call.run input pos with
          | .ok pos' => pos ≤ pos' ∧ (call.Moves → pos < pos')
          | .error .outside => False
          | .error .exhausted => ∃ fuel ≤ input.length, call = .type fuel
          | .error (.refused e) => e.Within input) ∧
      parseAt input = (parse input).mapError .refused ∧
      ∀ e, parse input = .error e → e.Within input := by
  refine ⟨fun pos hpos => ?_, ?_⟩
  · obtain ⟨cs, hcs, rfl⟩ := exists_suffix_of_reached hpos
    have hboundary := isBoundary_offsetOf hcs
    refine ⟨⟨hboundary, le_of_isBoundary hboundary⟩, fun call => ?_⟩
    have hends := call.ends hcs
    generalize call.run input (offsetOf input cs) = result at hends
    cases hends with
    | ok hrest hlt => exact ⟨offsetOf_mono hcs hrest, fun hm => offsetOf_lt hcs hrest (hlt hm)⟩
    | refused he => exact he
    | exhausted hs =>
      cases call with
      | type fuel => exact ⟨fuel, hs, rfl⟩
      | _ => exact hs.elim
  · rcases parseAt_cases input with ⟨t, hread, hcall⟩ | ⟨e, he, hread, hcall⟩
    · rw [hread, hcall]
      exact ⟨rfl, by simp⟩
    · rw [hread, hcall]
      refine ⟨rfl, fun e' heq => ?_⟩
      obtain rfl := Except.error.inj heq
      exact he

end Runs

end DataType

end Columnar
