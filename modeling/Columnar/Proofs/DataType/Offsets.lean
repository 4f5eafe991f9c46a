import Columnar.DataType.Parser
import Columnar.Proofs.Result
import Columnar.Proofs.Text.Backtick
import Columnar.Proofs.Text.Blank
import Columnar.Proofs.Text.Bytes

/-! The reader of descriptors by offsets. Its state is an offset into the bytes of the input, which
every call moves by hand. Where characters are looked at the input is cut there, and a cut inside a
character or beyond the end is an outcome of its own. At the offset in front of a suffix the reader
sees that suffix. -/
namespace Columnar

namespace DataType

/-- Why a call gives no result: it cut the input where that cannot be cut, it came to the end of its
fuel, or it found the input wrong. -/
inductive Stop
  | outside
  | exhausted
  | refused (error : TypeError)

/-- The characters that the first so many bytes hold, and those behind them. -/
def cutBytes : Nat → List Char → List Char × List Char
  | 0, cs => ([], cs)
  | _ + 1, [] => ([], [])
  | n + 1, c :: cs =>
    let (front, back) := cutBytes (n + 1 - c.utf8Size) cs
    (c :: front, back)

/-- The first offset at which a character of a class stands. -/
def findByte (p : Char → Bool) : List Char → Option Nat
  | [] => none
  | c :: cs => if p c then some 0 else (findByte p cs).map (c.utf8Size + ·)

/-- The offset of the backtick that closes a quoted name, and the name, a doubled backtick standing
for one. -/
def closingAt (offset : Nat) : List Char → Option (List Char × Nat)
  | [] => none
  | [c] => if c = '\x60' then some ([], offset) else none
  | c :: d :: cs =>
    if c = '\x60' then
      if d = '\x60' then
        (closingAt (offset + c.utf8Size + d.utf8Size) cs).map fun (inner, stop) =>
          ('\x60' :: inner, stop)
      else some ([], offset)
    else (closingAt (offset + c.utf8Size) (d :: cs)).map fun (inner, stop) => (c :: inner, stop)

section Calls

variable (input : String)

/-- The input from an offset on. -/
def restAt (pos : Nat) : Except Stop (List Char) :=
  if isBoundary (utf8 input.toList) pos then .ok (cutBytes pos input.toList).2
  else .error .outside

/-- The front of some characters, up to an offset. -/
def frontOf (stop : Nat) (cs : List Char) : Except Stop (List Char) :=
  if isBoundary (utf8 cs) stop then .ok (cutBytes stop cs).1 else .error .outside

/-- The offset behind blanks, counted from the end of the input. -/
def skipBlanksAt (pos : Nat) : Except Stop Nat := do
  let rest ← restAt input pos
  let left := (utf8 (Text.skipBlanks rest)).length
  if left ≤ (utf8 input.toList).length then .ok ((utf8 input.toList).length - left)
  else .error .outside

/-- The next character behind blanks, and its offset. -/
def peekAt (pos : Nat) : Except Stop (Option Char × Nat) := do
  let pos ← skipBlanksAt input pos
  let rest ← restAt input pos
  .ok (rest.head?, pos)

def expectAt (wanted : Char) (pos : Nat) : Except Stop Nat := do
  let (found, pos) ← peekAt input pos
  match found with
  | some c =>
    if c = wanted then .ok (pos + c.utf8Size)
    else .error (.refused (.malformed input (.expected wanted pos (some c))))
  | none => .error (.refused (.malformed input (.expected wanted pos none)))

/-- One of two ways on, by whether a given character is next. It is read then. -/
def ifNextAt {α : Type} (wanted : Char) (taken passed : Nat → Except Stop α) (pos : Nat) :
    Except Stop α := do
  let (found, pos) ← peekAt input pos
  if found = some wanted then do
    let pos ← expectAt input wanted pos
    taken pos
  else passed pos

def wordAt (rest : List Char) (pos : Nat) : Except Stop (String × Nat) :=
  let stop := (findByte (fun c => !Text.isWord c) rest).getD (utf8 rest).length
  if stop = 0 then .error (.refused (.malformed input (.expectedName pos)))
  else do
    let name ← frontOf stop rest
    .ok (String.ofList name, pos + stop)

def quotedNameAt (quoted : List Char) (pos : Nat) : Except Stop (String × Nat) :=
  match findByte (· == '\x60') quoted with
  | some stop => do
    let name ← frontOf stop quoted
    .ok (String.ofList name, pos + (stop + 2))
  | none => .error (.refused (.malformed input .unterminatedName))

def nameAt (pos : Nat) : Except Stop (String × Nat) := do
  let pos ← skipBlanksAt input pos
  let rest ← restAt input pos
  match rest with
  | '\x60' :: quoted => quotedNameAt input quoted pos
  | rest => wordAt input rest pos

def quotedFieldNameAt (quoted : List Char) (pos : Nat) : Except Stop (String × Nat) :=
  match closingAt 0 quoted with
  | some (name, stop) => .ok (String.ofList name, pos + (stop + 2))
  | none => .error (.refused (.malformed input .unterminatedName))

def fieldNameAt (pos : Nat) : Except Stop (String × Nat) := do
  let pos ← skipBlanksAt input pos
  let rest ← restAt input pos
  match rest with
  | '\x60' :: quoted => quotedFieldNameAt input quoted pos
  | _ => nameAt input pos

def numberAt (pos : Nat) : Except Stop (Nat × Nat) := do
  let (digits, pos) ← nameAt input pos
  match byteValue? digits.toList with
  | some n => .ok (n, pos)
  | none => .error (.refused (.malformed input (.badNumber digits)))

def scaleAt (pos : Nat) : Except Stop (Nat × Nat) :=
  ifNextAt input ',' (numberAt input) (fun pos => .ok (0, pos)) pos

def decimalArgumentsAt (pos : Nat) : Except Stop (DataType × Nat) := do
  let (precision, pos) ← numberAt input pos
  let (scale, pos) ← scaleAt input pos
  let pos ← expectAt input ')' pos
  if isDecimal precision scale then .ok (decimal precision scale, pos)
  else .error (.refused (.malformed input (.badDecimal precision scale)))

def decimalAt (pos : Nat) : Except Stop (DataType × Nat) :=
  ifNextAt input '(' (decimalArgumentsAt input) (fun pos => .ok (plainDecimal, pos)) pos

mutual

/-- Reads a type. The fuel bounds the nesting and the fields still to be read. -/
def typeAt : Nat → Nat → Except Stop (DataType × Nat)
  | 0, _ => .error .exhausted
  | fuel + 1, pos => do
    let (name, pos) ← nameAt input pos
    match Head.ofName (Text.lower name) with
    | .leaf type => .ok (type, pos)
    | .decimal => decimalAt input pos
    | .array => do
      let pos ← expectAt input '<' pos
      let (element, pos) ← typeAt fuel pos
      let pos ← expectAt input '>' pos
      .ok (array element true, pos)
    | .map => do
      let pos ← expectAt input '<' pos
      let (key, pos) ← typeAt fuel pos
      let pos ← expectAt input ',' pos
      let (value, pos) ← typeAt fuel pos
      let pos ← expectAt input '>' pos
      .ok (map key value true, pos)
    | .struct => do
      let pos ← expectAt input '<' pos
      ifNextAt input '>' (fun pos => .ok (struct [], pos)) (fun pos => do
        let (fields, pos) ← fieldsAt fuel pos
        let pos ← expectAt input '>' pos
        .ok (struct fields, pos)) pos
    | .refused error => .error (.refused error)

def fieldsAt : Nat → Nat → Except Stop (List StructField × Nat)
  | 0, _ => .error .exhausted
  | fuel + 1, pos => do
    let (name, pos) ← fieldNameAt input pos
    let pos ← expectAt input ':' pos
    let (type, pos) ← typeAt fuel pos
    ifNextAt input ',' (fun pos => do
      let (fields, pos) ← fieldsAt fuel pos
      .ok (.mk name type true :: fields, pos)) (fun pos => .ok ([.mk name type true], pos)) pos

end

def parseAt : Except Stop DataType := do
  let (type, pos) ← typeAt input (input.length + 1) 0
  let pos ← skipBlanksAt input pos
  if pos = (utf8 input.toList).length then .ok type
  else .error (.refused (.malformed input (.trailing pos)))

end Calls

/-! Offsets in front of suffixes. -/

theorem length_utf8_cons (c : Char) (cs : List Char) :
    (utf8 (c :: cs)).length = c.utf8Size + (utf8 cs).length := by
  rw [utf8_cons, List.length_append, String.length_utf8EncodeChar]

theorem length_utf8_append (front back : List Char) :
    (utf8 (front ++ back)).length = (utf8 front).length + (utf8 back).length := by
  rw [utf8_append, List.length_append]

theorem byteLength_eq (cs : List Char) : byteLength cs = (utf8 cs).length := by
  induction cs with
  | nil => rfl
  | cons c cs ih =>
    rw [length_utf8_cons, ← ih]
    rfl

theorem cutBytes_append (front back : List Char) :
    cutBytes (utf8 front).length (front ++ back) = (front, back) := by
  induction front with
  | nil => cases back <;> rfl
  | cons c front ih =>
    have hpos := c.utf8Size_pos
    have hlength := length_utf8_cons c front
    obtain ⟨n, hn⟩ : ∃ n, (utf8 (c :: front)).length = n + 1 :=
      ⟨(utf8 (c :: front)).length - 1, by omega⟩
    have hrest : n + 1 - c.utf8Size = (utf8 front).length := by omega
    rw [hn, List.cons_append, cutBytes, hrest, ih]

theorem frontOf_append (front back : List Char) :
    frontOf (utf8 front).length (front ++ back) = .ok front := by
  rw [frontOf, if_pos (isBoundary_append front back), cutBytes_append]

/-- Where a class begins, the run of other characters ends. -/
theorem findByte_eq (p : Char → Bool) (cs : List Char) :
    (findByte p cs).getD (utf8 cs).length = (utf8 (cs.takeWhile (!p ·))).length := by
  induction cs with
  | nil => rfl
  | cons c cs ih =>
    rw [findByte, List.takeWhile_cons]
    by_cases hc : p c
    · simp [hc]
    · simp only [hc, Bool.false_eq_true, if_false, Bool.not_false, if_true, length_utf8_cons, ← ih]
      cases findByte p cs <;> rfl

theorem findByte_backtick (cs : List Char) :
    findByte (· == '\x60') cs =
      (Text.splitBacktick cs).map fun found => (utf8 found.1).length := by
  induction cs with
  | nil => rfl
  | cons c cs ih =>
    rw [findByte, Text.splitBacktick]
    by_cases hc : c = '\x60'
    · simp [hc]
    · simp only [hc, beq_eq_false_iff_ne.mpr hc, Bool.false_eq_true, if_false, ih, Option.map_map]
      congr 1
      funext found
      exact (length_utf8_cons c found.1).symm

theorem closingAt_eq (offset : Nat) (cs : List Char) :
    closingAt offset cs = (Text.splitDoubled cs).map fun found =>
      (found.1, offset + (utf8 (Text.doubleBackticks found.1)).length) := by
  have htick : ('\x60').utf8Size = 1 := by decide
  fun_induction Text.splitDoubled cs generalizing offset with
  | case1 => rfl
  | case2 => simp [closingAt, Text.doubleBackticks]
  | case3 c hc => simp [closingAt, hc]
  | case4 cs ih =>
    rw [closingAt, if_pos rfl, if_pos rfl, ih, Option.map_map, Option.map_map]
    congr 1
    funext found
    simp only [Function.comp_apply, Text.doubleBackticks, if_true, length_utf8_cons, htick,
      Nat.add_assoc]
  | case5 d cs hd => simp [closingAt, hd, Text.doubleBackticks]
  | case6 c d cs hc ih =>
    rw [closingAt, if_neg hc, ih, Option.map_map, Option.map_map]
    congr 1
    funext found
    simp only [Function.comp_apply, Text.doubleBackticks, if_neg hc, length_utf8_cons,
      Nat.add_assoc]

section Calls

variable {input : String} {cs : List Char}

theorem offsetOf_append {front : List Char} (h : input.toList = front ++ cs) :
    offsetOf input cs = (utf8 front).length := by
  rw [offsetOf, byteLength_eq, byteLength_eq, h, length_utf8_append, Nat.add_sub_cancel]

theorem isBoundary_offsetOf (h : cs <:+ input.toList) :
    isBoundary (utf8 input.toList) (offsetOf input cs) := by
  obtain ⟨front, hfront⟩ := h
  rw [offsetOf_append hfront.symm, ← hfront]
  exact isBoundary_append front cs

/-- A suffix of a suffix stands at a later offset, as many bytes on as are in between. -/
theorem offsetOf_suffix (front : List Char) {rest : List Char}
    (h : front ++ rest <:+ input.toList) :
    offsetOf input rest = offsetOf input (front ++ rest) + (utf8 front).length := by
  obtain ⟨before, hbefore⟩ := h
  have hfront : input.toList = (before ++ front) ++ rest := by simp [← hbefore]
  rw [offsetOf_append hbefore.symm, offsetOf_append hfront, length_utf8_append]

theorem restAt_offsetOf (h : cs <:+ input.toList) :
    restAt input (offsetOf input cs) = .ok cs := by
  obtain ⟨front, hfront⟩ := h
  rw [restAt, offsetOf_append hfront.symm, ← hfront, if_pos (isBoundary_append front cs),
    cutBytes_append]

theorem skipBlanks_suffix (cs : List Char) : Text.skipBlanks cs <:+ cs := List.dropWhile_suffix _

theorem skipBlanksAt_offsetOf (h : cs <:+ input.toList) :
    skipBlanksAt input (offsetOf input cs) = .ok (offsetOf input (Text.skipBlanks cs)) := by
  obtain ⟨front, hfront⟩ := (skipBlanks_suffix cs).trans h
  have hle : (utf8 (Text.skipBlanks cs)).length ≤ (utf8 input.toList).length := by
    rw [← hfront, length_utf8_append]
    omega
  unfold skipBlanksAt
  rw [bind_of_ok (restAt_offsetOf h)]
  dsimp only
  rw [if_pos hle, offsetOf, byteLength_eq, byteLength_eq]

theorem peekAt_offsetOf (h : cs <:+ input.toList) :
    peekAt input (offsetOf input cs) =
      .ok ((Text.skipBlanks cs).head?, offsetOf input (Text.skipBlanks cs)) := by
  unfold peekAt
  rw [bind_of_ok (skipBlanksAt_offsetOf h),
    bind_of_ok (restAt_offsetOf ((skipBlanks_suffix cs).trans h))]

theorem offsetOf_lt {rest : List Char} (h : cs <:+ input.toList) (hrest : rest <:+ cs)
    (hlt : rest.length < cs.length) : offsetOf input cs < offsetOf input rest := by
  obtain ⟨front, rfl⟩ := hrest
  have hfront : front ≠ [] := by
    rintro rfl
    simp at hlt
  obtain ⟨c, front, rfl⟩ := List.exists_cons_of_ne_nil hfront
  have hpos := c.utf8Size_pos
  rw [offsetOf_suffix _ h, length_utf8_cons]
  omega

theorem offsetOf_mono {rest : List Char} (h : cs <:+ input.toList) (hrest : rest <:+ cs) :
    offsetOf input cs ≤ offsetOf input rest := by
  obtain ⟨front, rfl⟩ := hrest
  rw [offsetOf_suffix _ h]
  omega

theorem expectAt_of_skipBlanks {c : Char} {rest : List Char} (h : cs <:+ input.toList)
    (hcs : Text.skipBlanks cs = c :: rest) :
    expectAt input c (offsetOf input cs) = .ok (offsetOf input rest) := by
  have hskip := (skipBlanks_suffix cs).trans h
  rw [hcs] at hskip
  have hpos := offsetOf_suffix [c] hskip
  unfold expectAt
  rw [bind_of_ok (peekAt_offsetOf h), hcs]
  simpa using hpos.symm

theorem expectAt_of_ne {wanted : Char} (h : cs <:+ input.toList)
    (hne : (Text.skipBlanks cs).head? ≠ some wanted) :
    expectAt input wanted (offsetOf input cs) = .error (.refused (.malformed input
      (.expected wanted (offsetOf input (Text.skipBlanks cs)) (Text.skipBlanks cs).head?))) := by
  unfold expectAt
  rw [bind_of_ok (peekAt_offsetOf h)]
  cases hblanks : Text.skipBlanks cs with
  | nil => rfl
  | cons c rest =>
    have hc : c ≠ wanted := by simpa [hblanks] using hne
    simp [hc]

end Calls

end DataType

end Columnar
