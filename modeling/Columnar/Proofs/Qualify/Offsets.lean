import Mathlib.Data.List.Infix
import Columnar.Proofs.Qualify.Search
import Columnar.Proofs.Text.Bytes

/-! The search for a name by offsets. The text is kept as bytes and grows while it is searched; a turn
looks for the next occurrence in a lowered copy of the text, and inserts the qualifier at an offset
that was found there. The search never cuts a text inside a character, it ends because the bytes behind
its offset get fewer, and it makes the same text as the search character by character. -/
namespace Columnar

/-- The text searched so far with its qualifiers, and the offset from which the search goes on. -/
structure Cursor where
  bytes : List UInt8
  offset : Nat

inductive Turn
  | last (bytes : List UInt8)
  | next (cursor : Cursor)

def suffixAt? (bytes : List UInt8) (offset : Nat) : Option (List UInt8) :=
  if isBoundary bytes offset then some (bytes.drop offset) else none

def insertAt? (block bytes : List UInt8) (offset : Nat) : Option (List UInt8) :=
  if isBoundary bytes offset then some (bytes.take offset ++ block ++ bytes.drop offset) else none

def quotingAt? (bytes : List UInt8) (offset : Nat) : Option Quoting :=
  if offset ≤ bytes.length then some (.scan 0 .plain ((bytes.take offset).map byteChar)) else none

/-- The byte in front of an offset, if the text is that long and does not begin there. -/
def before? (bytes : List UInt8) (offset : Nat) : Option (Option Char) :=
  if offset = 0 then some none else bytes[offset - 1]?.map fun b => some (byteChar b)

/-- Where the qualifier of an occurrence goes, if it gets one. -/
def placeAt? (bytes : List UInt8) (start stop : Nat) : Option (Option Nat) := do
  let following := bytes[stop]?.map byteChar
  match ← quotingAt? bytes start with
  | .literal | .escaped => some none
  | .identifier opened =>
    let previous ← before? bytes opened
    some (if opened + 1 = start ∧ following = some '\x60' ∧ previous ≠ some '.' then some opened
      else none)
  | .plain =>
    let previous ← before? bytes start
    some (if previous.any bindsNext || following.any Text.isWord then none else some start)

def firstAt? (needle bytes : List UInt8) : Option Nat := bytes.tails.findIdx? needle.isPrefixOf

/-- The search goes on behind an occurrence, whose qualifier is inserted if it gets one. -/
def cursorBehind? (qualifier bytes : List UInt8) (stop : Nat) : Option Nat → Option Cursor
  | none => some ⟨bytes, stop⟩
  | some place =>
    (insertAt? qualifier bytes place).map fun bytes => ⟨bytes, stop + qualifier.length⟩

/-- One turn of the search, and nothing if an offset is not one of the text. -/
def Cursor.turn? (qualifier needle : List UInt8) (s : Cursor) : Option Turn := do
  let rest ← suffixAt? (s.bytes.map lowerByte) s.offset
  match firstAt? needle rest with
  | none => some (.last s.bytes)
  | some distance =>
    let start := s.offset + distance
    let stop := start + needle.length
    let place ← placeAt? s.bytes start stop
    (cursorBehind? qualifier s.bytes stop place).map .next

inductive Outcome
  | outside
  | unfinished
  | finished (bytes : List UInt8)
  deriving DecidableEq

def Cursor.search (qualifier needle : List UInt8) : Nat → Cursor → Outcome
  | 0, _ => .unfinished
  | turns + 1, s =>
    match s.turn? qualifier needle with
    | none => .outside
    | some (.last bytes) => .finished bytes
    | some (.next s) => s.search qualifier needle turns

/-- What the search has still to go through gets shorter with every turn, although the text grows. -/
theorem Cursor.remaining_lt {qualifier needle : List UInt8} {s s' : Cursor} (hne : needle ≠ [])
    (h : s.turn? qualifier needle = some (.next s')) :
    s'.bytes.length - s'.offset < s.bytes.length - s.offset := by
  have hpos := List.length_pos_of_ne_nil hne
  unfold turn? at h
  obtain ⟨rest, hrest, h⟩ := Option.bind_eq_some_iff.mp h
  split at h
  · cases h
  · next distance hfound =>
    obtain ⟨place, -, h⟩ := Option.bind_eq_some_iff.mp h
    obtain ⟨next, hnext, hturn⟩ := Option.map_eq_some_iff.mp h
    obtain rfl := Turn.next.inj hturn
    have hstop : s.offset + distance + needle.length ≤ s.bytes.length := by
      rw [firstAt?, List.findIdx?_eq_some_iff_getElem] at hfound
      obtain ⟨hlt, hprefix, -⟩ := hfound
      rw [List.getElem_tails, List.isPrefixOf_iff_prefix] at hprefix
      have hlength := hprefix.length_le
      unfold suffixAt? at hrest
      split at hrest
      · cases hrest
        rw [List.drop_drop, List.length_drop, List.length_map] at hlength
        omega
      · cases hrest
    cases place with
    | none =>
      cases hnext
      dsimp only
      omega
    | some place =>
      obtain ⟨bytes, hbytes, hcursor⟩ := Option.map_eq_some_iff.mp hnext
      unfold insertAt? at hbytes
      split at hbytes
      · cases hbytes
        cases hcursor
        simp only [List.length_append, List.length_take, List.length_drop]
        omega
      · cases hbytes

/-! The next occurrence. -/

section Occurrence

variable {needle : List Char}

theorem startsWithName_iff_prefix {cs : List Char} :
    startsWithName needle cs ↔ needle <+: cs.map Char.toLower := by
  induction needle generalizing cs with
  | nil => simp [startsWithName]
  | cons n needle ih =>
    cases cs with
    | nil => simp [startsWithName]
    | cons c cs =>
      rw [startsWithName, Bool.and_eq_true, beq_iff_eq, ih, List.map_cons, List.cons_prefix_cons]
      exact and_congr_left' eq_comm

/-- A name stands behind the first part of a text, and nowhere before. -/
structure First (needle front back : List Char) : Prop where
  starts : startsWithName needle back
  not_before : ∀ front' back', front ++ back = front' ++ back' → startsWithName needle back' →
    front.length ≤ front'.length

theorem length_utf8_pos {cs : List Char} (h : cs ≠ []) : 0 < (utf8 cs).length := by
  obtain ⟨c, rest, rfl⟩ := List.exists_cons_of_ne_nil h
  have := c.utf8Size_pos
  simp
  omega

theorem exists_longer {front back front' back' : List Char} (h : front ++ back = front' ++ back')
    (hlt : front'.length < front.length) : ∃ mid, mid ≠ [] ∧ front = front' ++ mid := by
  rcases List.append_eq_append_iff.mp h with ⟨mid, rfl, -⟩ | ⟨mid, rfl, -⟩
  · rw [List.length_append] at hlt
    omega
  · refine ⟨mid, ?_, rfl⟩
    rintro rfl
    simp at hlt

theorem utf8_prefix_drop_iff {front back : List Char} :
    (utf8 needle).isPrefixOf ((utf8 ((front ++ back).map Char.toLower)).drop (utf8 front).length) ↔
      startsWithName needle back := by
  rw [List.map_append, utf8_append, ← length_utf8_toLower front, List.drop_left,
    List.isPrefixOf_iff_prefix, utf8_prefix_iff, startsWithName_iff_prefix]

/-- Which occurrence is found in the bytes of a text: the first of its characters. -/
theorem firstAt?_utf8 (hne : needle ≠ []) (cs : List Char) :
    (firstAt? (utf8 needle) (utf8 (cs.map Char.toLower)) = none ∧
        ∀ front back, cs = front ++ back → startsWithName needle back = false) ∨
      ∃ front back, cs = front ++ back ∧ First needle front back ∧
        firstAt? (utf8 needle) (utf8 (cs.map Char.toLower)) = some (utf8 front).length := by
  cases hfind : firstAt? (utf8 needle) (utf8 (cs.map Char.toLower)) with
  | none =>
    refine .inl ⟨rfl, ?_⟩
    rintro front back rfl
    rw [firstAt?, List.findIdx?_eq_none_iff] at hfind
    have hsuffix := hfind _ ((List.mem_tails _ _).mpr (List.drop_suffix (utf8 front).length _))
    rw [Bool.eq_false_iff] at hsuffix ⊢
    exact fun hstarts => hsuffix (utf8_prefix_drop_iff.mpr hstarts)
  | some offset =>
    rw [firstAt?, List.findIdx?_eq_some_iff_getElem] at hfind
    obtain ⟨hlength, hfound, hbefore⟩ := hfind
    rw [List.getElem_tails, List.isPrefixOf_iff_prefix] at hfound
    obtain ⟨front', back', hcut, rfl, -⟩ := exists_cut_of_prefix hne hfound
    obtain ⟨front, back, rfl, rfl, rfl⟩ := List.map_eq_append_iff.mp hcut
    rw [length_utf8_toLower] at hfound ⊢
    refine .inr ⟨front, back, rfl, ⟨?_, ?_⟩, rfl⟩
    · exact utf8_prefix_drop_iff.mp (List.isPrefixOf_iff_prefix.mpr hfound)
    · intro front' back' heq hstarts
      by_contra hshort
      have hlt : (utf8 front').length < (utf8 (front.map Char.toLower)).length := by
        rw [length_utf8_toLower]
        obtain ⟨mid, hne, rfl⟩ := exists_longer heq (by omega)
        simpa using length_utf8_pos hne
      have hnot := hbefore _ hlt
      rw [List.getElem_tails, heq] at hnot
      exact hnot (utf8_prefix_drop_iff.mpr hstarts)

end Occurrence

/-! One turn. -/

section Turn

variable {inserted needle : List Char}

/-- Where no occurrence is left, the search is over. -/
theorem qualifyFrom_of_none {cs : List Char}
    (h : ∀ front back, cs = front ++ back → startsWithName needle back = false) (left : List Char) :
    qualifyFrom inserted needle left 0 cs = left.reverse ++ cs :=
  qualifyFrom_eq_self (fun front back heq hs => absurd hs (by rw [h front back heq]; decide)) 0

/-- The search passes over what stands in front of the first occurrence, and goes on behind that. -/
theorem qualifyFrom_of_first (hne : needle ≠ []) {front back : List Char}
    (h : First needle front back) (left : List Char) :
    qualifyFrom inserted needle left 0 (front ++ back) =
      qualifyFrom inserted needle ((back.take needle.length).reverse ++
        qualifyAt inserted (front.reverse ++ left) (back.drop needle.length)) 0
        (back.drop needle.length) := by
  induction front generalizing left with
  | nil =>
    have hlength := length_le_of_startsWithName h.starts
    obtain ⟨n, needle, rfl⟩ := List.exists_cons_of_ne_nil hne
    cases back with
    | nil => simp at hlength
    | cons c cs =>
      rw [List.nil_append, qualifyFrom, if_pos h.starts]
      have hrun : (cs.take needle.length).length = needle.length := by
        rw [List.length_take]
        simp only [List.length_cons] at hlength
        omega
      have hskip := @qualifyFrom_skip inserted (n :: needle)
        (c :: qualifyAt inserted left ((c :: cs).drop (n :: needle).length))
        (cs.take needle.length) (cs.drop needle.length)
      rw [hrun, List.take_append_drop] at hskip
      dsimp only
      rw [List.length_cons, Nat.add_sub_cancel]
      simpa using hskip
  | cons c front ih =>
    have hnot : startsWithName needle (c :: (front ++ back)) = false := by
      rw [Bool.eq_false_iff]
      intro hs
      have := h.not_before [] (c :: front ++ back) rfl hs
      simp at this
    have hrest : First needle front back := by
      refine ⟨h.starts, fun front' back' heq hs => ?_⟩
      have := h.not_before (c :: front') back' (by simp [heq]) hs
      simpa using this
    rw [List.cons_append, qualifyFrom, hnot]
    simpa using ih hrest (c :: left)

/-! Quotes by bytes. -/

theorem narrow_bindsNext : Narrow bindsNext := by
  intro c hc
  have hdot : (c == '.') = false := narrow_beq (by decide) c hc
  rw [bindsNext, hdot, narrow_isWord c hc]
  rfl

/-- A character that no quote is made of only ends an escape. -/
theorem step_of_wide {c d : Char} (hc : 128 ≤ c.toNat) (hd : 128 ≤ d.toNat) (state : Quoting) :
    state.step 0 c = state.step 0 d ∧ (state.step 0 c).step 0 d = state.step 0 c := by
  have hne {e : Char} (he : 128 ≤ e.toNat) {q : Char} (hq : q.toNat < 128) : e ≠ q := by
    rintro rfl
    omega
  cases state <;> simp [Quoting.step, hne hc (q := '\'') (by decide), hne hd (q := '\'') (by decide),
    hne hc (q := '\x60') (by decide), hne hd (q := '\x60') (by decide),
    hne hc (q := '\\') (by decide), hne hd (q := '\\') (by decide)]

theorem after_of_wide {c : Char} (hc : 128 ≤ c.toNat) {ds : List Char} (hne : ds ≠ [])
    (h : ∀ d ∈ ds, 128 ≤ d.toNat) (state : Quoting) : state.after ds = state.step 0 c := by
  induction ds generalizing state with
  | nil => exact absurd rfl hne
  | cons d ds ih =>
    obtain ⟨hd, hds⟩ := List.forall_mem_cons.mp h
    rw [Quoting.after_cons, ← (step_of_wide hc hd state).1]
    by_cases hend : ds = []
    · rw [hend, Quoting.after_nil]
    · rw [ih hend hds, (step_of_wide hc hc state).2]

/-- The bytes of a text leave the quotes as its characters do. -/
theorem after_map_byteChar (state : Quoting) (cs : List Char) :
    state.after ((utf8 cs).map byteChar) = state.after cs := by
  induction cs generalizing state with
  | nil => rfl
  | cons c cs ih =>
    rw [utf8_cons, List.map_append, Quoting.after_append, ih, Quoting.after_cons]
    rcases map_byteChar_cases c with ⟨-, hself⟩ | ⟨hc, hne, hall⟩
    · rw [hself]
      rfl
    · rw [after_of_wide hc hne hall]

theorem scan_map_byteChar_iff {cs : List Char} :
    Quoting.scan 0 .plain ((utf8 cs).map byteChar) = .plain ↔ Quoting.plain.after cs = .plain := by
  rw [← Quoting.kind_eq_plain, Quoting.kind_scan, after_map_byteChar]
  rfl

theorem utf8_backtick : utf8 ['\x60'] = [96] := by decide

theorem scan_map_byteChar_opened {outer : List Char} (h : stateBehind outer = .plain) :
    Quoting.scan 0 .plain ((utf8 ('\x60' :: outer).reverse).map byteChar) =
      .identifier (utf8 outer.reverse).length := by
  rw [List.reverse_cons, utf8_append, List.map_append, Quoting.scan_append,
    scan_map_byteChar_iff.mpr h, utf8_backtick, List.length_map, Nat.zero_add]
  rfl

/-- If the last byte opened an identifier, the last character did. -/
theorem justOpened_of_scan {left : List Char} {opened : Nat}
    (h : Quoting.scan 0 .plain ((utf8 left.reverse).map byteChar) = .identifier opened)
    (hlast : opened + 1 = (utf8 left.reverse).length) : justOpened left := by
  obtain ⟨outer, tick, houter⟩ : ∃ outer tick,
      (utf8 left.reverse).map byteChar = (tick :: outer).reverse := by
    rcases hcs : ((utf8 left.reverse).map byteChar).reverse with _ | ⟨tick, outer⟩
    · have hlength := congrArg List.length hcs
      simp only [List.length_reverse, List.length_map, List.length_nil] at hlength
      omega
    · exact ⟨outer, tick, by rw [← hcs, List.reverse_reverse]⟩
  have hlength := congrArg List.length houter
  simp only [List.length_map, List.length_reverse, List.length_cons] at hlength
  obtain rfl : opened = outer.length := by omega
  rw [houter] at h
  obtain ⟨rfl, hplain⟩ := Quoting.scan_eq_plain_of_opened h
  have hhead := getLast?_utf8_iff (c := '\x60') (by decide) left.reverse
  rw [houter, List.getLast?_reverse, List.getLast?_reverse, List.head?_cons] at hhead
  have hhead : left.head? = some '\x60' := hhead.mp rfl
  obtain ⟨rest, rfl⟩ : ∃ rest, left = '\x60' :: rest := by
    cases left with
    | nil => cases hhead
    | cons c rest => exact ⟨rest, by rw [Option.some.inj hhead]⟩
  refine ⟨rest, rfl, ?_⟩
  rw [List.reverse_cons, List.reverse_cons, utf8_append, List.map_append] at houter
  have hrest := (List.append_inj' houter rfl).1
  rw [← hrest] at hplain
  exact scan_map_byteChar_iff.mp hplain

/-! Places. -/

theorem quotingAt?_utf8 (front : List Char) (bytes : List UInt8) :
    quotingAt? (utf8 front ++ bytes) (utf8 front).length =
      some (.scan 0 .plain ((utf8 front).map byteChar)) := by
  rw [quotingAt?, if_pos (by simp), List.take_left]

theorem before?_utf8 (front : List Char) (bytes : List UInt8) :
    before? (utf8 front ++ bytes) (utf8 front).length =
      some ((utf8 front).map byteChar).getLast? := by
  unfold before?
  split
  · next hzero =>
    rw [List.length_eq_zero_iff.mp hzero]
    rfl
  · next hpos =>
    rw [List.getElem?_append_left (by omega), ← List.getLast?_eq_getElem?, List.getLast?_map]
    cases hlast : (utf8 front).getLast? with
    | none =>
      rw [List.getLast?_eq_none_iff] at hlast
      simp [hlast] at hpos
    | some b => rfl

theorem exists_before {left : List Char} {opened : Nat} (bytes : List UInt8)
    (h : Quoting.scan 0 .plain ((utf8 left.reverse).map byteChar) = .identifier opened) :
    ∃ previous, before? (utf8 left.reverse ++ bytes) opened = some previous := by
  rcases Quoting.opened_of_scan h with h | ⟨-, h⟩
  · cases h
  · rw [List.length_map, Nat.zero_add] at h
    unfold before?
    split
    · exact ⟨_, rfl⟩
    · rw [List.getElem?_append_left (by omega), List.getElem?_eq_getElem (by omega)]
      exact ⟨_, rfl⟩

theorem following_utf8 (front : List Char) (word back : List Char) :
    (utf8 front ++ (utf8 word ++ utf8 back))[(utf8 front).length + (utf8 word).length]?.map
      byteChar = ((utf8 back).map byteChar).head? := by
  rw [← List.append_assoc, List.getElem?_append_right (by simp), List.length_append, Nat.sub_self,
    List.head?_map, List.head?_eq_getElem?]

/-- What the search does at an occurrence, by offsets and by characters: it keeps the text, or inserts
the qualifier where the offset says. -/
inductive Placed (inserted left : List Char) : Option Nat → List Char → Prop
  | kept : Placed inserted left none left
  | put {front back result : List Char} : left.reverse = front ++ back →
      result.reverse = front ++ inserted ++ back →
      Placed inserted left (some (utf8 front).length) result

theorem placeAt?_utf8 (left word back : List Char) :
    ∃ place, placeAt? (utf8 (left.reverse ++ (word ++ back))) (utf8 left.reverse).length
        ((utf8 left.reverse).length + (utf8 word).length) = some place ∧
      Placed inserted left place (qualifyAt inserted left back) := by
  have hword := any_head?_utf8 narrow_isWord back
  have htick := head?_utf8_iff (c := '\x60') (by decide) back
  simp only [utf8_append, placeAt?, quotingAt?_utf8, following_utf8, Option.bind_eq_bind,
    Option.bind_some]
  by_cases hplain : stateBehind left = .plain
  · rw [scan_map_byteChar_iff.mpr hplain, qualifyAt_plain hplain]
    have hbinds := any_getLast?_utf8 narrow_bindsNext left.reverse
    rw [List.getLast?_reverse] at hbinds
    dsimp only
    rw [before?_utf8]
    dsimp only [Option.bind_some]
    rw [hbinds, hword]
    split
    · exact ⟨_, rfl, .kept⟩
    · exact ⟨_, rfl, .put (List.append_nil _).symm (by simp)⟩
  · by_cases hopened : justOpened left
    · obtain ⟨outer, rfl, houter⟩ := hopened
      have hdot := getLast?_utf8_iff (c := '.') (by decide) outer.reverse
      rw [List.getLast?_reverse] at hdot
      rw [scan_map_byteChar_opened houter, qualifyAt_opened houter]
      dsimp only
      rw [List.reverse_cons, utf8_append, List.append_assoc, before?_utf8]
      dsimp only [Option.bind_some]
      have hstart : (utf8 outer.reverse).length + 1 =
          (utf8 outer.reverse ++ utf8 ['\x60']).length := by
        rw [List.length_append, utf8_backtick, List.length_singleton]
      simp only [hstart, htick, ne_eq, hdot, true_and]
      split
      · exact ⟨_, rfl, .put List.reverse_cons (by simp)⟩
      · exact ⟨_, rfl, .kept⟩
    · rw [qualifyAt_quoted hplain hopened]
      split
      · exact ⟨_, rfl, .kept⟩
      · exact ⟨_, rfl, .kept⟩
      · next opened hs =>
        have hlast : opened + 1 ≠ (utf8 left.reverse).length := fun hlast =>
          hopened (justOpened_of_scan hs hlast)
        obtain ⟨previous, hprevious⟩ := exists_before (utf8 word ++ utf8 back) hs
        rw [hprevious]
        simp only [Option.bind_some, hlast, false_and, if_false]
        exact ⟨_, rfl, .kept⟩
      · next hs => exact absurd (scan_map_byteChar_iff.mp hs) hplain

/-! Turns. -/

def cursorAt (left cs : List Char) : Cursor := ⟨utf8 (left.reverse ++ cs), (utf8 left.reverse).length⟩

theorem suffixAt?_cursorAt (left cs : List Char) :
    suffixAt? ((cursorAt left cs).bytes.map lowerByte) (cursorAt left cs).offset =
      some (utf8 (cs.map Char.toLower)) := by
  have hlower := map_lowerByte_utf8 (left.reverse ++ cs)
  rw [List.map_append] at hlower
  dsimp only [cursorAt]
  rw [hlower, suffixAt?, ← length_utf8_toLower left.reverse, if_pos (isBoundary_append _ _),
    utf8_append, List.drop_left]

theorem insertAt?_utf8 (front back : List Char) :
    insertAt? (utf8 inserted) (utf8 (front ++ back)) (utf8 front).length =
      some (utf8 (front ++ inserted ++ back)) := by
  rw [insertAt?, if_pos (isBoundary_append _ _), utf8_append, List.take_left, List.drop_left]
  simp

/-- An occurrence has as many bytes as the name that it spells. -/
theorem length_utf8_of_startsWithName {cs : List Char} (h : startsWithName needle cs) :
    (utf8 needle).length = (utf8 (cs.take needle.length)).length := by
  rw [startsWithName_eq, spells, beq_iff_eq] at h
  conv_lhs => rw [← h]
  exact length_utf8_toLower _

/-- What is in front of the search behind an occurrence, last character first. -/
def passed (inserted needle left front back : List Char) : List Char :=
  (back.take needle.length).reverse ++
    qualifyAt inserted (front.reverse ++ left) (back.drop needle.length)

theorem cursorBehind?_utf8 {left result : List Char} {place : Option Nat}
    (h : Placed inserted left place result) (word back : List Char) :
    cursorBehind? (utf8 inserted) (utf8 (left.reverse ++ (word ++ back)))
        ((utf8 left.reverse).length + (utf8 word).length) place =
      some (cursorAt (word.reverse ++ result) back) := by
  cases h with
  | kept => simp [cursorBehind?, cursorAt]
  | @put front behind _ hleft hresult =>
    have hcut : left.reverse ++ (word ++ back) = front ++ (behind ++ (word ++ back)) := by
      rw [hleft, List.append_assoc]
    rw [cursorBehind?, hcut, insertAt?_utf8, Option.map_some, cursorAt]
    simp only [List.reverse_append, List.reverse_reverse, hresult, hleft, List.append_assoc,
      utf8_append, List.length_append, Option.some.injEq, Cursor.mk.injEq, true_and]
    omega

theorem turn?_of_first {front back : List Char} (left : List Char)
    (hstarts : startsWithName needle back)
    (hfirst : firstAt? (utf8 needle) (utf8 ((front ++ back).map Char.toLower)) =
      some (utf8 front).length) :
    (cursorAt left (front ++ back)).turn? (utf8 inserted) (utf8 needle) =
      some (.next (cursorAt (passed inserted needle left front back)
        (back.drop needle.length))) := by
  obtain ⟨place, hplace, hplaced⟩ := @placeAt?_utf8 inserted (front.reverse ++ left)
    (back.take needle.length) (back.drop needle.length)
  have hbehind := cursorBehind?_utf8 hplaced (back.take needle.length) (back.drop needle.length)
  have hbytes : utf8 ((front.reverse ++ left).reverse ++
      (back.take needle.length ++ back.drop needle.length)) =
        (cursorAt left (front ++ back)).bytes := by
    simp [cursorAt]
  have hstart : (utf8 (front.reverse ++ left).reverse).length =
      (cursorAt left (front ++ back)).offset + (utf8 front).length := by
    simp [cursorAt]
  rw [hbytes, hstart, ← length_utf8_of_startsWithName hstarts] at hplace hbehind
  unfold Cursor.turn?
  rw [suffixAt?_cursorAt]
  simp only [Option.bind_eq_bind, Option.bind_some, hfirst, hplace, hbehind]
  rfl

theorem turn?_of_none (left : List Char) {cs : List Char}
    (hnone : firstAt? (utf8 needle) (utf8 (cs.map Char.toLower)) = none) :
    (cursorAt left cs).turn? (utf8 inserted) (utf8 needle) =
      some (.last (utf8 (left.reverse ++ cs))) := by
  unfold Cursor.turn?
  rw [suffixAt?_cursorAt]
  simp only [Option.bind_eq_bind, Option.bind_some, hnone]
  rfl

/-- The search by offsets ends and makes the text that the search by characters makes. Each turn but
the last passes an occurrence, which has a character at least. -/
theorem search_cursorAt (hne : needle ≠ []) {turns : Nat} {cs : List Char} (h : cs.length < turns)
    (left : List Char) :
    (cursorAt left cs).search (utf8 inserted) (utf8 needle) turns =
      .finished (utf8 (qualifyFrom inserted needle left 0 cs)) := by
  induction turns generalizing cs left with
  | zero => cases h
  | succ turns ih =>
    rw [Cursor.search]
    rcases firstAt?_utf8 hne cs with ⟨hnone, hnever⟩ | ⟨front, back, rfl, hfirst, hfound⟩
    · rw [turn?_of_none left hnone, qualifyFrom_of_none hnever]
    · rw [turn?_of_first left hfirst.starts hfound, qualifyFrom_of_first hne hfirst]
      have hpos := List.length_pos_of_ne_nil hne
      have hlength := length_le_of_startsWithName hfirst.starts
      rw [List.length_append] at h
      exact ih (by rw [List.length_drop]; omega) (passed inserted needle left front back)

end Turn

end Columnar
