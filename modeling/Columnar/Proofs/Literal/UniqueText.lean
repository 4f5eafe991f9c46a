import Columnar.Proofs.Calendar
import Columnar.Proofs.Literal.Decode
import Columnar.Proofs.Literal.Host

/-! A literal is told by its text. The kind shows in the first character, or in the letters behind a
number; the value is read back kind by kind, and the items of an array one by one. Decimals of one
value may share a text, and so do the NaNs of one width. -/
namespace Columnar

open Number

/-! Escapes. -/

namespace Text

/-- The character that a letter behind a backslash stands for. -/
def unescapeChar : Char → Char
  | 'n' => '\n'
  | 'r' => '\r'
  | 't' => '\t'
  | c => c

def unescape : List Char → List Char
  | '\\' :: c :: cs => unescapeChar c :: unescape cs
  | c :: cs => c :: unescape cs
  | [] => []

theorem unescape_escapeChar (c : Char) (cs : List Char) :
    unescape (escapeChar c ++ cs) = c :: unescape cs := by
  unfold escapeChar
  split
  case h_6 hslash _ _ _ _ =>
    rw [List.singleton_append, unescape]
    exact fun _ _ h _ => hslash h
  all_goals rfl

theorem unescape_flatMap (cs : List Char) : unescape (cs.flatMap escapeChar) = cs := by
  induction cs with
  | nil => rfl
  | cons c cs ih => rw [List.flatMap_cons, unescape_escapeChar, ih]

theorem quoteString_inj {s t : String} (h : quoteString s = quoteString t) : s = t := by
  have hlist := congrArg String.toList h
  rw [toList_quoteString, toList_quoteString] at hlist
  have hbody := List.append_cancel_right (List.cons.inj hlist).2
  rw [← String.toList_inj, ← unescape_flatMap s.toList, hbody, unescape_flatMap]

end Text

namespace Literal

/-! Bytes. -/

theorem hexDigit_inj : ∀ m < 16, ∀ n < 16, hexDigit m = hexDigit n → m = n := by decide

theorem hexByte_inj {a b : UInt8} (h : hexByte a = hexByte b) : a = b := by
  have ha := a.toNat_lt
  have hb := b.toNat_lt
  obtain ⟨hhigh, hrest⟩ := List.cons.inj h
  obtain ⟨hlow, -⟩ := List.cons.inj hrest
  have hhigh := hexDigit_inj _ (by omega) _ (by omega) hhigh
  have hlow := hexDigit_inj _ (by omega) _ (by omega) hlow
  exact UInt8.toNat_inj.mp (by omega)

theorem hexBytes_inj {as bs : List UInt8} (h : as.flatMap hexByte = bs.flatMap hexByte) :
    as = bs := by
  induction as generalizing bs with
  | nil =>
    cases bs with
    | nil => rfl
    | cons b bs => cases h
  | cons a as ih =>
    cases bs with
    | nil => cases h
    | cons b bs =>
      rw [List.flatMap_cons, List.flatMap_cons] at h
      obtain ⟨hbyte, hrest⟩ := List.append_inj h rfl
      rw [hexByte_inj hbyte, ih hrest]

/-! Floating-point numbers. -/

/-- The name of a number that has no digits. -/
def name? {w : Width} (x : Floating w) : Option String :=
  if x.isNaN then some "NaN"
  else if x.isInfinite then some ((if x.isNegative then "-" else "") ++ "Infinity")
  else none

theorem floatingText_of_name {w : Width} {x : Floating w} {name : String} (h : name? x = some name)
    (suffix type : String) :
    floatingText x suffix type = "CAST('" ++ name ++ "' AS " ++ type ++ ")" := by
  unfold name? at h
  unfold floatingText
  split
  · next hnan =>
    rw [if_pos hnan] at h
    cases h
    rfl
  · next hnan =>
    rw [if_neg hnan] at h
    split
    · next hinf =>
      rw [if_pos hinf] at h
      cases h
      simp [← String.toList_inj]
    · next hinf =>
      rw [if_neg hinf] at h
      cases h

theorem floatingText_of_finite {w : Width} {x : Floating w} (h : name? x = none)
    (suffix type : String) :
    floatingText x suffix type = x.finiteText .expression ++ suffix := by
  unfold name? at h
  split at h
  · cases h
  · next hnan =>
    split at h
    · cases h
    · next hinf => rw [floatingText, if_neg hnan, if_neg hinf, Floating.text, if_neg hnan, if_neg hinf]

theorem magnitude_of_isInfinite {w : Width} {x : Floating w} (h : x.isInfinite) :
    x.magnitude = twoTo w.fractionBits * w.topExponent := by
  simp only [Floating.isInfinite, Bool.and_eq_true, beq_iff_eq] at h
  rw [Floating.magnitude, h.1, h.2, Nat.add_zero]

/-- Only NaNs share a name: the infinities are told apart by their signs. -/
theorem name?_inj {w : Width} {x y : Floating w} {name : String} (hx : name? x = some name)
    (hy : name? y = some name) : x = y ∨ (x.isNaN ∧ y.isNaN) := by
  have hsigns (negative : Bool) : "NaN" ≠ (if negative then "-" else "") ++ "Infinity" := by
    cases negative <;> decide
  unfold name? at hx hy
  split at hx
  · next hnan =>
    split at hy
    · next hnan' => exact .inr ⟨hnan, hnan'⟩
    · split at hy
      · cases hx
        exact absurd (Option.some.inj hy).symm (hsigns _)
      · cases hy
  · split at hx
    · next hinf =>
      split at hy
      · cases hy
        exact absurd (Option.some.inj hx).symm (hsigns _)
      · split at hy
        · next hinf' =>
          left
          refine Floating.eq_of_magnitude ?_ ?_
          · have hname := hx.trans hy.symm
            cases hneg : x.isNegative <;> cases hneg' : y.isNegative <;>
              simp [hneg, hneg'] at hname ⊢
          · rw [magnitude_of_isInfinite hinf, magnitude_of_isInfinite hinf']
        · cases hy
    · cases hx

theorem floatingText_inj {w : Width} {x y : Floating w} {suffix type : String}
    (h : floatingText x suffix type = floatingText y suffix type) :
    x = y ∨ (x.isNaN ∧ y.isNaN) := by
  -- a number with digits does not start with the letter of a cast
  have hapart {x : Floating w} {name : String} :
      x.finiteText .expression ++ suffix ≠ "CAST('" ++ name ++ "' AS " ++ type ++ ")" := by
    intro heq
    obtain ⟨c, rest, hcons, hc⟩ := (x.signedNumeral_finiteText .expression).exists_cons
    have hlist := congrArg String.toList heq
    rw [String.toList_append, hcons] at hlist
    obtain rfl : c = 'C' := by
      simp only [String.toList_append, List.append_assoc] at hlist
      exact (List.cons.inj hlist).1
    revert hc
    decide
  cases hx : name? x with
  | none =>
    rw [floatingText_of_finite hx] at h
    cases hy : name? y with
    | none =>
      rw [floatingText_of_finite hy, String.append_left_inj] at h
      exact .inl (Floating.finiteText_inj h)
    | some name =>
      rw [floatingText_of_name hy] at h
      exact absurd h hapart
  | some name =>
    rw [floatingText_of_name hx] at h
    cases hy : name? y with
    | none =>
      rw [floatingText_of_finite hy] at h
      exact absurd h.symm hapart
    | some name' =>
      rw [floatingText_of_name hy] at h
      simp only [String.append_left_inj, String.append_right_inj] at h
      exact name?_inj hx (h ▸ hy)

/-! The kind of a literal. -/

/-- The kind of a literal, as its text says: by the letters behind a number, or by the first
character. The type of a cast is told by its last letter. -/
def kindOf (cs : List Char) : LiteralKind :=
  match cs.dropWhile isMark with
  | [] => .leaf .integer
  | ['Y'] => .leaf .byte
  | ['S'] => .leaf .short
  | ['L'] => .leaf .long
  | ['F'] => .leaf .float
  | ['D'] => .leaf .double
  | 'B' :: _ => .leaf .decimal
  | 'N' :: _ => .null
  | 't' :: _ => .leaf .boolean
  | 'f' :: _ => .leaf .boolean
  | 'C' :: cs => .leaf (if cs.reverse.take 2 = [')', 'T'] then .float else .double)
  | '\'' :: _ => .leaf .string
  | 'X' :: _ => .leaf .binary
  | 'D' :: _ => .leaf .date
  | 'T' :: _ => .leaf .timestamp
  | 'I' :: _ => .leaf .interval
  | _ => .array

theorem kindOf_suffixed {num suffix : String} (h : Marks num)
    (hsuffix : suffix.toList.head?.any isMark = false) :
    kindOf (num ++ suffix).toList = kindOf suffix.toList := by
  have hrest : suffix.toList.dropWhile isMark = suffix.toList :=
    (@span_append _ [] _ (by simp) hsuffix).2
  rw [kindOf, String.toList_append, (span_append h hsuffix).2, kindOf, hrest]

theorem kindOf_floatingText {w : Width} (x : Floating w) {suffix type : String}
    {kind : LiteralKind} (hsuffix : suffix.toList.head?.any isMark = false)
    (hkind : kindOf suffix.toList = kind)
    (hnan : kindOf ("CAST('NaN' AS " ++ type ++ ")").toList = kind)
    (hinf : ∀ negative : Bool, kindOf ("CAST('" ++ (if negative then "-" else "") ++
      "Infinity' AS " ++ type ++ ")").toList = kind) :
    kindOf (floatingText x suffix type).toList = kind := by
  unfold floatingText
  split
  · exact hnan
  · next hnan =>
    split
    · exact hinf x.isNegative
    · next hinf =>
      have hmarks := marks_floating (Bool.eq_false_iff.mpr hnan) (Bool.eq_false_iff.mpr hinf)
      rw [kindOf_suffixed hmarks hsuffix, hkind]

theorem kindOf_text (l : Literal) : kindOf l.text.toList = l.kind := by
  cases l with
  | null => rfl
  | boolean b => cases b <;> rfl
  | byte n => exact kindOf_suffixed (marks_signed _) rfl
  | short n => exact kindOf_suffixed (marks_signed _) rfl
  | integer n =>
    have h := @kindOf_suffixed _ "" (marks_signed n.toInt) rfl
    rwa [String.append_empty] at h
  | long n => exact kindOf_suffixed (marks_signed _) rfl
  | float x => exact kindOf_floatingText x rfl rfl rfl fun negative => by cases negative <;> rfl
  | double x => exact kindOf_floatingText x rfl rfl rfl fun negative => by cases negative <;> rfl
  | decimal d => exact kindOf_suffixed d.marks_text rfl
  | string s =>
    rw [text, Text.toList_quoteString]
    rfl
  | binary bytes =>
    rw [text, String.toList_append, String.toList_append]
    rfl
  | date d =>
    rw [text, String.toList_append, String.toList_append]
    rfl
  | timestamp t =>
    rw [text, String.toList_append, String.toList_append]
    rfl
  | interval i =>
    simp only [text, Interval.text, String.toList_append, List.append_assoc]
    rfl
  | array items =>
    rw [text, String.toList_append, String.toList_append]
    rfl

/-! Literals. -/

/-- Literals are equal when decimals are compared by value and the NaNs of one width are one. -/
inductive Agrees : Literal → Literal → Prop
  | refl (l : Literal) : Agrees l l
  | float {x y : Floating .single} : x.isNaN → y.isNaN → Agrees (.float x) (.float y)
  | double {x y : Floating .double} : x.isNaN → y.isNaN → Agrees (.double x) (.double y)
  | decimal {a b : Decimal} : a.same b → Agrees (.decimal a) (.decimal b)
  | array {as bs : List Literal} : List.Forall₂ Agrees as bs → Agrees (.array as) (.array bs)

mutual

/-- The timestamps in a literal, at every depth. -/
def timestamps : Literal → List Timestamp
  | .timestamp t => [t]
  | .array items => itemsTimestamps items
  | _ => []

def itemsTimestamps : List Literal → List Timestamp
  | [] => []
  | l :: ls => timestamps l ++ itemsTimestamps ls

end

/-- Within these literals, times that are written alike are one. -/
def TimesApart (a b : Literal) : Prop :=
  ∀ t ∈ a.timestamps, ∀ u ∈ b.timestamps, t.text = u.text → t = u

/-- Times on a clock are. -/
theorem TimesApart.of_onClock {a b : Literal} (ha : ∀ t ∈ a.timestamps, t.OnClock)
    (hb : ∀ u ∈ b.timestamps, u.OnClock) : TimesApart a b :=
  fun t ht u hu => (ha t ht).text_inj (hb u hu)

theorem mem_itemsTimestamps {l : Literal} {ls : List Literal} {t : Timestamp} (hl : l ∈ ls)
    (ht : t ∈ l.timestamps) : t ∈ itemsTimestamps ls := by
  induction ls with
  | nil => cases hl
  | cons m ls ih =>
    rw [itemsTimestamps, List.mem_append]
    rcases List.mem_cons.mp hl with rfl | hl
    · exact .inl ht
    · exact .inr (ih hl)

/-- The items of an array are read back from its text one by one. -/
theorem map_text_eq {as bs : List Literal} (h : itemsText as = itemsText bs) :
    as.map text = bs.map text := by
  have hread := Expr.Items.literals as ")".toList rfl
  rw [h] at hread
  have heq := (hread.unique (Expr.Items.literals bs ")".toList rfl))
  have hraw := (Prod.mk.inj heq).1
  have htexts := congrArg (List.map Expr.rawText) hraw
  simpa [Function.comp_def, Expr.rawText] using htexts

theorem signed_inj {i j : Int} (h : signed i = signed j) : i = j :=
  (@signed_append_inj _ _ [] [] rfl rfl (by rw [h])).1

/-- Literals of one kind, other than arrays, are told by their texts. -/
theorem agrees_of_kind_eq {a b : Literal} (htimes : TimesApart a b) (hplain : a.kind ≠ .array)
    (hkind : a.kind = b.kind) (h : a.text = b.text) : a.Agrees b := by
  cases a with
  | null =>
    cases b with
    | null => exact .refl _
    | _ => cases hkind
  | boolean v =>
    cases b with
    | boolean v' =>
      cases v <;> cases v'
      · exact .refl _
      · exact absurd h (by decide)
      · exact absurd h (by decide)
      · exact .refl _
    | _ => cases hkind
  | byte n =>
    cases b with
    | byte m =>
      obtain rfl := Int8.toInt_inj.mp (signed_inj ((String.append_left_inj _).mp h))
      exact .refl _
    | _ => cases hkind
  | short n =>
    cases b with
    | short m =>
      obtain rfl := Int16.toInt_inj.mp (signed_inj ((String.append_left_inj _).mp h))
      exact .refl _
    | _ => cases hkind
  | integer n =>
    cases b with
    | integer m =>
      obtain rfl := Int32.toInt_inj.mp (signed_inj h)
      exact .refl _
    | _ => cases hkind
  | long n =>
    cases b with
    | long m =>
      obtain rfl := Int64.toInt_inj.mp (signed_inj ((String.append_left_inj _).mp h))
      exact .refl _
    | _ => cases hkind
  | float x =>
    cases b with
    | float y =>
      rcases floatingText_inj h with rfl | ⟨hx, hy⟩
      · exact .refl _
      · exact .float hx hy
    | _ => cases hkind
  | double x =>
    cases b with
    | double y =>
      rcases floatingText_inj h with rfl | ⟨hx, hy⟩
      · exact .refl _
      · exact .double hx hy
    | _ => cases hkind
  | decimal d =>
    cases b with
    | decimal e => exact .decimal (Decimal.same_of_text_eq ((String.append_left_inj _).mp h))
    | _ => cases hkind
  | string s =>
    cases b with
    | string t =>
      obtain rfl := Text.quoteString_inj h
      exact .refl _
    | _ => cases hkind
  | binary bytes =>
    cases b with
    | binary bytes' =>
      have hbytes := (String.append_right_inj _).mp ((String.append_left_inj _).mp h)
      obtain rfl := hexBytes_inj (String.ofList_inj.mp hbytes)
      exact .refl _
    | _ => cases hkind
  | date d =>
    cases b with
    | date e =>
      have hdate := (String.append_right_inj _).mp ((String.append_left_inj _).mp h)
      obtain rfl := Date.text_inj hdate
      exact .refl _
    | _ => cases hkind
  | timestamp t =>
    cases b with
    | timestamp u =>
      have htime := (String.append_right_inj _).mp ((String.append_left_inj _).mp h)
      obtain rfl := htimes t (by simp [timestamps]) u (by simp [timestamps]) htime
      exact .refl _
    | _ => cases hkind
  | interval i =>
    cases b with
    | interval j =>
      obtain rfl := Interval.text_inj h
      exact .refl _
    | _ => cases hkind
  | array items => exact absurd rfl hplain

/-- What holds of every literal but an array, and of an array if of its items, holds of all. -/
theorem byItems {motive : Literal → Prop} (plain : ∀ l : Literal, l.kind ≠ .array → motive l)
    (array : ∀ items, (∀ l ∈ items, motive l) → motive (.array items)) (l : Literal) :
    motive l := by
  cases l with
  | array items => exact array items fun l hl => byItems plain array l
  | _ => exact plain _ (by simp [kind])
termination_by l

theorem forall₂_of_map_eq {as bs : List Literal} (h : as.map text = bs.map text)
    (hitem : ∀ a ∈ as, ∀ b ∈ bs, a.text = b.text → a.Agrees b) : List.Forall₂ Agrees as bs := by
  induction as generalizing bs with
  | nil =>
    cases bs with
    | nil => exact .nil
    | cons b bs => cases h
  | cons a as ih =>
    cases bs with
    | nil => cases h
    | cons b bs =>
      obtain ⟨hhead, htail⟩ := List.cons.inj h
      exact .cons (hitem a (by simp) b (by simp) hhead)
        (ih htail fun a ha b hb => hitem a (by simp [ha]) b (by simp [hb]))

/-- Literals with the same text are equal, decimals being compared by value and NaNs of one width
identified, if times that are written alike are. -/
theorem agrees_of_text_eq {a b : Literal} (htimes : TimesApart a b) (h : a.text = b.text) :
    a.Agrees b := by
  have hkind {a b : Literal} (h : a.text = b.text) : a.kind = b.kind := by
    rw [← kindOf_text, h, kindOf_text]
  induction a using byItems generalizing b with
  | plain a hplain => exact agrees_of_kind_eq htimes hplain (hkind h) h
  | array as ih =>
    cases b with
    | array bs =>
      have hitems := (String.append_right_inj _).mp ((String.append_left_inj _).mp h)
      refine .array (forall₂_of_map_eq (map_text_eq hitems) fun a ha b hb htext => ?_)
      refine ih a ha (fun t ht u hu => ?_) htext
      exact htimes t (mem_itemsTimestamps ha ht) u (mem_itemsTimestamps hb hu)
    | _ => cases hkind h

theorem agrees_of_text_eq_nested :
    let leap : Literal := .timestamp ⟨⟨2016, 12, 31⟩, 23, 59, 59, 1500000000⟩
    let tag : Literal := .array [.string "a', 'b", .null]
    let a : Literal := .array [.decimal ⟨1, -2⟩, .float ⟨0x7fc00000⟩, leap, tag]
    let b : Literal := .array [.decimal ⟨100, 0⟩, .float ⟨0xffc00001⟩, leap, tag]
    a.TimesApart b ∧ a.text = b.text ∧ a.Agrees b := by
  intro leap tag a b
  have htimes : a.TimesApart b := by
    intro t ht u hu _
    simp only [a, b, leap, tag, timestamps, itemsTimestamps, List.nil_append, List.append_nil,
      List.mem_singleton] at ht hu
    rw [ht, hu]
  have htext : a.text = b.text := by decide +kernel
  exact ⟨htimes, htext, agrees_of_text_eq htimes htext⟩

end Literal

end Columnar
