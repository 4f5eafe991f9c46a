import Mathlib.Data.List.Basic
import Columnar.Proofs.Text.Word

/-! The bytes of a text. A character is one byte below 128 or several from 128 on, of which the first
tells how many there are; so a character ends where the next first byte stands, and a text that is
found in another byte by byte is found there character by character. -/
namespace Columnar

def utf8 (cs : List Char) : List UInt8 := cs.flatMap String.utf8EncodeChar

/-- A byte behind the first of its character. -/
def continues (b : UInt8) : Bool := 128 ≤ b && b < 192

/-- Whether a text can be cut at an offset: at its ends, and in front of the first byte of a
character. -/
def isBoundary (bytes : List UInt8) (offset : Nat) : Bool :=
  match bytes[offset]? with
  | none => offset == bytes.length
  | some b => offset == 0 || !continues b

@[simp] theorem utf8_nil : utf8 [] = [] := rfl

@[simp] theorem utf8_cons (c : Char) (cs : List Char) :
    utf8 (c :: cs) = String.utf8EncodeChar c ++ utf8 cs := List.flatMap_cons

@[simp] theorem utf8_append (cs ds : List Char) : utf8 (cs ++ ds) = utf8 cs ++ utf8 ds :=
  List.flatMap_append

/-- The bytes of a text are those that a string holds. -/
theorem utf8_toList (s : String) : utf8 s.toList = s.toByteArray.data.toList := by
  have hbytes : s.toByteArray = s.toList.utf8Encode := by
    rw [← String.toByteArray_ofList, String.ofList_toList]
  rw [hbytes, List.utf8Encode, List.data_toByteArray]
  rfl

theorem continues_ofNat (n : Nat) : continues (UInt8.ofNat (n % 64 + 128)) := by
  simp only [continues, Bool.and_eq_true, decide_eq_true_eq, UInt8.le_iff_toNat_le,
    UInt8.lt_iff_toNat_lt, UInt8.toNat_ofNat']
  change 128 ≤ _ ∧ _ < 192
  omega

theorem first_ofNat {n : Nat} (h : 192 ≤ n) (h' : n < 256) : 192 ≤ UInt8.ofNat n := by
  rw [UInt8.le_iff_toNat_le, UInt8.toNat_ofNat']
  change 192 ≤ _
  omega

/-- The bytes of a character: one of the same number, or a first one with others behind it. -/
theorem utf8EncodeChar_cases (c : Char) :
    (c.toNat < 128 ∧ String.utf8EncodeChar c = [UInt8.ofNat c.toNat]) ∨
      (128 ≤ c.toNat ∧ ∃ first rest, String.utf8EncodeChar c = first :: rest ∧ 192 ≤ first ∧
        ∀ b ∈ rest, continues b) := by
  change (c.val.toNat < 128 ∧ _ = [UInt8.ofNat c.val.toNat]) ∨ (128 ≤ c.val.toNat ∧ _)
  unfold String.utf8EncodeChar
  dsimp only
  split
  · next h => exact .inl ⟨by omega, rfl⟩
  · next h =>
    refine .inr ⟨by omega, ?_⟩
    split
    · refine ⟨_, _, rfl, first_ofNat (by omega) (by omega), ?_⟩
      simp only [List.forall_mem_cons, continues_ofNat, List.not_mem_nil, true_and, false_imp_iff,
        implies_true]
    · split
      · refine ⟨_, _, rfl, first_ofNat (by omega) (by omega), ?_⟩
        simp only [List.forall_mem_cons, continues_ofNat, List.not_mem_nil, true_and,
          false_imp_iff, implies_true]
      · refine ⟨_, _, rfl, first_ofNat (by omega) (by omega), ?_⟩
        simp only [List.forall_mem_cons, continues_ofNat, List.not_mem_nil, true_and,
          false_imp_iff, implies_true]

theorem le_of_mem_utf8EncodeChar {c : Char} (hc : 128 ≤ c.toNat) {b : UInt8}
    (hb : b ∈ String.utf8EncodeChar c) : 128 ≤ b.toNat := by
  rcases utf8EncodeChar_cases c with ⟨hc', -⟩ | ⟨-, first, rest, hbytes, hfirst, hrest⟩
  · omega
  · rw [hbytes, List.mem_cons] at hb
    rcases hb with rfl | hb
    · rw [UInt8.le_iff_toNat_le] at hfirst
      change 192 ≤ b.toNat at hfirst
      omega
    · have hcontinues := hrest b hb
      simp only [continues, Bool.and_eq_true, decide_eq_true_eq, UInt8.le_iff_toNat_le]
        at hcontinues
      exact hcontinues.1

theorem exists_first_byte (c : Char) : ∃ first rest, String.utf8EncodeChar c = first :: rest ∧
    continues first = false ∧ ∀ b ∈ rest, continues b := by
  rcases utf8EncodeChar_cases c with ⟨hc, hbytes⟩ | ⟨-, first, rest, hbytes, hfirst, hrest⟩
  · refine ⟨_, [], hbytes, ?_, by simp⟩
    simp only [continues, Bool.and_eq_false_iff, decide_eq_false_iff_not, UInt8.le_iff_toNat_le,
      UInt8.toNat_ofNat']
    left
    change ¬ 128 ≤ _
    omega
  · refine ⟨first, rest, hbytes, ?_, hrest⟩
    rw [UInt8.le_iff_toNat_le] at hfirst
    change 192 ≤ first.toNat at hfirst
    simp only [continues, Bool.and_eq_false_iff, decide_eq_false_iff_not, UInt8.lt_iff_toNat_lt]
    right
    change ¬ first.toNat < 192
    omega

/-- The bytes in front of a text say which character it starts with. -/
theorem utf8EncodeChar_append_inj {c d : Char} {bytes bytes' : List UInt8}
    (h : String.utf8EncodeChar c ++ bytes = String.utf8EncodeChar d ++ bytes') :
    c = d ∧ bytes = bytes' := by
  have hc : ((String.utf8EncodeChar c).toByteArray ++ bytes.toByteArray).utf8DecodeChar? 0 =
      some c := ByteArray.utf8DecodeChar?_utf8EncodeChar_append
  rw [← List.toByteArray_append, h, List.toByteArray_append,
    ByteArray.utf8DecodeChar?_utf8EncodeChar_append] at hc
  obtain rfl := Option.some.inj hc
  exact ⟨rfl, List.append_cancel_left h⟩

theorem utf8_prefix_iff {cs ds : List Char} : utf8 cs <+: utf8 ds ↔ cs <+: ds := by
  induction cs generalizing ds with
  | nil => simp
  | cons c cs ih =>
    cases ds with
    | nil => simp
    | cons d ds =>
      rw [List.cons_prefix_cons, ← ih]
      constructor
      · rintro ⟨rest, hrest⟩
        rw [utf8_cons, utf8_cons, List.append_assoc] at hrest
        obtain ⟨rfl, htail⟩ := utf8EncodeChar_append_inj hrest
        exact ⟨rfl, rest, htail⟩
      · rintro ⟨rfl, rest, hrest⟩
        exact ⟨rest, by rw [utf8_cons, utf8_cons, List.append_assoc, hrest]⟩

theorem utf8_inj {cs ds : List Char} (h : utf8 cs = utf8 ds) : cs = ds := by
  have hprefix := utf8_prefix_iff.mp (h ▸ List.prefix_rfl : utf8 cs <+: utf8 ds)
  have hprefix' := utf8_prefix_iff.mp (h ▸ List.prefix_rfl : utf8 ds <+: utf8 cs)
  exact hprefix.eq_of_length_le hprefix'.length_le

/-! Where a text can be cut. -/

theorem le_of_isBoundary {bytes : List UInt8} {offset : Nat} (h : isBoundary bytes offset) :
    offset ≤ bytes.length := by
  unfold isBoundary at h
  split at h
  · exact Nat.le_of_eq (beq_iff_eq.mp h)
  · next b hb =>
    obtain ⟨hlt, -⟩ := List.getElem?_eq_some_iff.mp hb
    exact Nat.le_of_lt hlt

/-- The offset behind any characters of a text is one where it can be cut. -/
theorem isBoundary_append (front back : List Char) :
    isBoundary (utf8 (front ++ back)) (utf8 front).length := by
  rw [utf8_append, isBoundary, List.getElem?_append_right (Nat.le_refl _), Nat.sub_self]
  cases back with
  | nil => simp
  | cons c back =>
    obtain ⟨first, rest, hbytes, hfirst, -⟩ := exists_first_byte c
    simp [hbytes, hfirst]

/-- A text can be cut between its characters only. -/
theorem exists_cut_of_isBoundary {cs : List Char} {offset : Nat} (h : isBoundary (utf8 cs) offset) :
    ∃ front back, cs = front ++ back ∧ (utf8 front).length = offset := by
  induction cs generalizing offset with
  | nil =>
    simp only [isBoundary, utf8_nil, List.getElem?_nil, List.length_nil, beq_iff_eq] at h
    exact ⟨[], [], rfl, h.symm⟩
  | cons c cs ih =>
    by_cases hzero : offset = 0
    · exact ⟨[], c :: cs, rfl, hzero.symm⟩
    · obtain ⟨first, rest, hbytes, hfirst, hrest⟩ := exists_first_byte c
      by_cases hinside : offset < (first :: rest).length
      · -- the byte there belongs to the first character
        obtain ⟨k, rfl⟩ : ∃ k, offset = k + 1 := ⟨offset - 1, by omega⟩
        have hk : k < rest.length := by simpa using hinside
        have hbyte : (utf8 (c :: cs))[k + 1]? = some rest[k] := by
          rw [utf8_cons, hbytes, List.getElem?_append_left hinside, List.getElem?_cons_succ,
            List.getElem?_eq_getElem hk]
        have hcontinues : continues rest[k] := hrest _ (List.getElem_mem hk)
        rw [isBoundary, hbyte] at h
        simp [hcontinues] at h
      · have hlater : isBoundary (utf8 cs) (offset - (first :: rest).length) := by
          unfold isBoundary at h ⊢
          rw [utf8_cons, hbytes, List.getElem?_append_right (by omega)] at h
          split at h
          · simp only [beq_iff_eq, List.length_append] at h ⊢
            omega
          · simp only [beq_iff_eq, hzero, Bool.or_eq_true, false_or] at h ⊢
            exact .inr h
        obtain ⟨front, back, rfl, hlength⟩ := ih hlater
        refine ⟨c :: front, back, rfl, ?_⟩
        rw [utf8_cons, List.length_append, hbytes, hlength]
        omega

/-- Where the bytes of a text stand in another one, its characters do. -/
theorem exists_cut_of_prefix {needle cs : List Char} {offset : Nat} (hne : needle ≠ [])
    (h : utf8 needle <+: (utf8 cs).drop offset) :
    ∃ front back, cs = front ++ back ∧ (utf8 front).length = offset ∧ needle <+: back := by
  have hboundary : isBoundary (utf8 cs) offset := by
    obtain ⟨c, rest, rfl⟩ := List.exists_cons_of_ne_nil hne
    obtain ⟨first, others, hbytes, hfirst, -⟩ := exists_first_byte c
    obtain ⟨behind, hbehind⟩ := h
    have hbyte : (utf8 cs)[offset]? = some first := by
      have hdrop := @List.getElem?_drop _ (utf8 cs) offset 0
      rw [← hbehind, utf8_cons, hbytes] at hdrop
      simpa using hdrop.symm
    simp [isBoundary, hbyte, hfirst]
  obtain ⟨front, back, rfl, rfl⟩ := exists_cut_of_isBoundary hboundary
  refine ⟨front, back, rfl, rfl, ?_⟩
  rwa [utf8_append, List.drop_left, utf8_prefix_iff] at h

/-! Bytes as characters. Those from 128 on are none that a rule of the language speaks of. -/

/-- The character of the same number. -/
def byteChar (b : UInt8) : Char := Char.ofNat b.toNat

theorem toNat_byteChar (b : UInt8) : (byteChar b).toNat = b.toNat := by
  have hb := b.toNat_lt
  have hvalid : b.toNat.isValidChar := .inl (by omega)
  rw [byteChar, Char.ofNat, dif_pos hvalid]
  rfl

/-- The bytes of a character as characters: itself, or others from 128 on like itself. -/
theorem map_byteChar_cases (c : Char) :
    (c.toNat < 128 ∧ (String.utf8EncodeChar c).map byteChar = [c]) ∨
      (128 ≤ c.toNat ∧ (String.utf8EncodeChar c).map byteChar ≠ [] ∧
        ∀ d ∈ (String.utf8EncodeChar c).map byteChar, 128 ≤ d.toNat) := by
  rcases utf8EncodeChar_cases c with ⟨hc, hbytes⟩ | ⟨hc, -⟩
  · refine .inl ⟨hc, ?_⟩
    have hsame : byteChar (UInt8.ofNat c.toNat) = c := by
      rw [← Char.toNat_inj, toNat_byteChar, UInt8.toNat_ofNat']
      omega
    rw [hbytes, List.map_singleton, hsame]
  · refine .inr ⟨hc, by simp, fun d hd => ?_⟩
    obtain ⟨b, hb, rfl⟩ := List.mem_map.mp hd
    rw [toNat_byteChar]
    exact le_of_mem_utf8EncodeChar hc hb

/-- Whether characters from 128 on are all outside a class. -/
def Narrow (p : Char → Bool) : Prop := ∀ c : Char, 128 ≤ c.toNat → p c = false

section Narrow

variable {p : Char → Bool}

/-- Where a text begins, its bytes tell whether a character of the class stands. -/
theorem any_head?_utf8 (hp : Narrow p) (cs : List Char) :
    ((utf8 cs).map byteChar).head?.any p = cs.head?.any p := by
  cases cs with
  | nil => rfl
  | cons c cs =>
    rw [utf8_cons, List.map_append]
    rcases map_byteChar_cases c with ⟨-, hself⟩ | ⟨hc, hne, hall⟩
    · rw [hself]
      rfl
    · obtain ⟨d, ds, hds⟩ := List.exists_cons_of_ne_nil hne
      have hd : p d = false := hp d (hall d (by simp [hds]))
      rw [hds]
      simp [hd, hp c hc]

theorem any_getLast?_utf8 (hp : Narrow p) (cs : List Char) :
    ((utf8 cs).map byteChar).getLast?.any p = cs.getLast?.any p := by
  rcases List.eq_nil_or_concat cs with rfl | ⟨init, c, rfl⟩
  · rfl
  · rw [List.concat_eq_append, utf8_append, List.map_append, utf8_cons, utf8_nil, List.append_nil]
    rcases map_byteChar_cases c with ⟨-, hself⟩ | ⟨hc, hne, hall⟩
    · rw [hself]
      simp
    · have hlast : p (((String.utf8EncodeChar c).map byteChar).getLast hne) = false :=
        hp _ (hall _ (List.getLast_mem hne))
      rw [List.getLast?_append_of_ne_nil _ hne, List.getLast?_eq_getLast_of_ne_nil hne,
        Option.any_some, hlast, List.getLast?_concat, Option.any_some, hp c hc]

end Narrow

theorem narrow_isWord : Narrow Text.isWord := by
  intro c hc
  rw [Bool.eq_false_iff, ne_eq, Text.isWord_iff]
  omega

theorem narrow_beq {d : Char} (hd : d.toNat < 128) : Narrow (· == d) := by
  intro c hc
  rw [beq_eq_false_iff_ne]
  rintro rfl
  omega

theorem any_beq_iff {o : Option Char} {c : Char} : o.any (· == c) ↔ o = some c := by
  cases o <;> simp

theorem head?_utf8_iff {c : Char} (hc : c.toNat < 128) (cs : List Char) :
    ((utf8 cs).map byteChar).head? = some c ↔ cs.head? = some c := by
  rw [← any_beq_iff, any_head?_utf8 (narrow_beq hc), any_beq_iff]

theorem getLast?_utf8_iff {c : Char} (hc : c.toNat < 128) (cs : List Char) :
    ((utf8 cs).map byteChar).getLast? = some c ↔ cs.getLast? = some c := by
  rw [← any_beq_iff, any_getLast?_utf8 (narrow_beq hc), any_beq_iff]

/-! Case. -/

/-- A capital letter lowered, and any other byte as it is. -/
def lowerByte (b : UInt8) : UInt8 := if 65 ≤ b ∧ b ≤ 90 then b + 32 else b

theorem lowerByte_of_le {b : UInt8} (h : 128 ≤ b.toNat) : lowerByte b = b := by
  rw [lowerByte, if_neg]
  rintro ⟨-, hb⟩
  rw [UInt8.le_iff_toNat_le] at hb
  change b.toNat ≤ 90 at hb
  omega

theorem toNat_lowerByte {b : UInt8} :
    (lowerByte b).toNat = if 65 ≤ b.toNat ∧ b.toNat ≤ 90 then b.toNat + 32 else b.toNat := by
  unfold lowerByte
  simp only [UInt8.le_iff_toNat_le]
  change (if 65 ≤ b.toNat ∧ b.toNat ≤ 90 then b + 32 else b).toNat = _
  split
  · rw [UInt8.toNat_add]
    change (b.toNat + 32) % 256 = _
    omega
  · rfl

theorem map_lowerByte_utf8EncodeChar (c : Char) :
    (String.utf8EncodeChar c).map lowerByte = String.utf8EncodeChar c.toLower := by
  have hlower := Text.toNat_toLower c
  rcases utf8EncodeChar_cases c with ⟨hc, hbytes⟩ | ⟨hc, -⟩
  · rcases utf8EncodeChar_cases c.toLower with ⟨-, hbytes'⟩ | ⟨hc', -⟩
    · rw [hbytes, hbytes', List.map_singleton]
      congr 1
      rw [← UInt8.toNat_inj, toNat_lowerByte, UInt8.toNat_ofNat', UInt8.toNat_ofNat', hlower]
      split <;> split <;> omega
    · split at hlower <;> omega
  · have hsame : c.toLower = c := by
      rw [← Char.toNat_inj, hlower, if_neg (by omega)]
    rw [hsame]
    calc (String.utf8EncodeChar c).map lowerByte
        = (String.utf8EncodeChar c).map id :=
          List.map_congr_left fun b hb => lowerByte_of_le (le_of_mem_utf8EncodeChar hc hb)
      _ = String.utf8EncodeChar c := List.map_id _

/-- Lowering the bytes of a text lowers its characters: no other byte is that of a capital. -/
theorem map_lowerByte_utf8 (cs : List Char) :
    (utf8 cs).map lowerByte = utf8 (cs.map Char.toLower) := by
  induction cs with
  | nil => rfl
  | cons c cs ih =>
    rw [utf8_cons, List.map_append, ih, map_lowerByte_utf8EncodeChar, List.map_cons, utf8_cons]

theorem length_utf8_toLower (cs : List Char) :
    (utf8 (cs.map Char.toLower)).length = (utf8 cs).length := by
  rw [← map_lowerByte_utf8, List.length_map]

end Columnar
