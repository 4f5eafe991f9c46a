import Columnar.Proofs.Expr.Decode

/-! What is read from texts that are put together from the texts of expressions, one lemma for each
form. A lemma takes the texts of the parts with what they read as, so it does not depend on where
they come from. -/
namespace Columnar.Expr

/-- Whether a text can stand behind an expression without prolonging its last word or number. -/
def follows : List Char → Bool
  | [] => true
  | c :: cs =>
    c == ')' || c == ']' || c == '[' || c == ',' || c == ' ' ||
      (c == '.' && !cs.head?.any Char.isDigit)

theorem head_of_follows {rest : List Char} (h : follows rest) {c : Char}
    (hc : rest.head? = some c) :
    c = ')' ∨ c = ']' ∨ c = '[' ∨ c = ',' ∨ c = ' ' ∨ c = '.' := by
  cases rest with
  | nil => cases hc
  | cons d rest =>
    obtain rfl := Option.some.inj hc
    simp only [follows, Bool.or_eq_true, beq_iff_eq, Bool.and_eq_true] at h
    rcases h with ((((h | h) | h) | h) | h) | ⟨h, -⟩ <;> simp [h]

theorem isWord_of_follows {rest : List Char} (h : follows rest) :
    rest.head?.any Text.isWord = false := by
  cases hc : rest.head? with
  | none => rfl
  | some c => rcases head_of_follows h hc with rfl | rfl | rfl | rfl | rfl | rfl <;> decide

theorem backtick_of_follows {rest : List Char} (h : follows rest) : rest.head? ≠ some '\x60' := by
  intro hc
  have := head_of_follows h hc
  simp at this

theorem behind_of_follows {rest : List Char} (h : follows rest) :
    behind ['('] rest = none ∧ behind ['\''] rest = none := by
  cases rest with
  | nil => exact ⟨rfl, rfl⟩
  | cons c rest =>
    rcases head_of_follows h rfl with rfl | rfl | rfl | rfl | rfl | rfl <;> exact ⟨rfl, rfl⟩

/-- Whether a text behind an expression does not prolong it. -/
def stops (rest : List Char) : Bool := follows rest && (choose suffixes rest).isNone

/-- Whether a text behind an expression neither prolongs it nor gives it an order. -/
def endsItem (rest : List Char) : Bool := stops rest && (choose orders rest).isNone

/-- Whether a text ends a list in front of it. -/
def endsList (rest : List Char) : Bool := endsItem rest && (behind ", ".toList rest).isNone

theorem stops_iff {rest : List Char} :
    stops rest = true ↔ follows rest = true ∧ choose suffixes rest = none := by
  simp [stops]

theorem endsItem_iff {rest : List Char} :
    endsItem rest = true ↔ stops rest = true ∧ choose orders rest = none := by
  simp [endsItem]

theorem endsList_iff {rest : List Char} :
    endsList rest = true ↔ endsItem rest = true ∧ behind ", ".toList rest = none := by
  simp [endsList]

/-- The text reads as an expression that does not end with another one. -/
def Primary (cs : List Char) (e : Expr) : Prop :=
  ∀ rest, follows rest → Reads (fun fuel => readPrimary fuel (cs ++ rest)) (e, rest)

/-- The text reads as an expression, and what stands behind it may prolong that. -/
def Open (cs : List Char) (e : Expr) : Prop :=
  ∀ rest found, follows rest → Reads (fun fuel => readSuffixes fuel e rest) found →
    Reads (fun fuel => readExpr fuel (cs ++ rest)) found

/-- The text reads as an expression in front of everything that does not prolong it. -/
def Whole (cs : List Char) (e : Expr) : Prop :=
  ∀ rest, stops rest → Reads (fun fuel => readExpr fuel (cs ++ rest)) (e, rest)

/-- The text reads as an expression that a list can hold, with its order if it has one. -/
def Item (cs : List Char) (item : Expr) : Prop :=
  ∀ rest, endsItem rest → ∃ e back,
    Reads (fun fuel => readExpr fuel (cs ++ rest)) (e, back) ∧ readOrder e back = (item, rest)

def Items (cs : List Char) (items : List Expr) : Prop :=
  ∀ rest, endsList rest → Reads (fun fuel => readItems fuel (cs ++ rest)) (items, rest)

section

variable {cs ds : List Char} {e f : Expr}

/-! Complements, and expressions that start with none. -/

theorem readExpr_primary (fuel : Nat) (h : behind ['~'] cs = none) :
    readExpr (fuel + 1) cs = (do
      let (e, cs) ← readPrimary fuel cs
      readSuffixes fuel e cs) := by
  rw [readExpr, h]

theorem tilde_of_reads {found : Expr × List Char}
    (h : Reads (fun fuel => readPrimary fuel cs) found) : behind ['~'] cs = none := by
  cases cs with
  | nil => rfl
  | cons c cs =>
    by_cases hc : '~' = c
    · subst hc
      obtain ⟨bound, h⟩ := h
      cases h (bound + 1) (by omega)
    · simp [behind, hc]

theorem Primary.toOpen (h : Primary cs e) : Open cs e := by
  intro rest found hrest hfound
  have hread := h rest hrest
  exact .step (fun fuel => readExpr_primary fuel (tilde_of_reads hread)) (hread.bind hfound)

theorem Open.whole (h : Open cs e) : Whole cs e := by
  intro rest hrest
  obtain ⟨hfollows, hnone⟩ := stops_iff.mp hrest
  refine h rest _ hfollows (.step (fun fuel => ?_) (.done _))
  rw [readSuffixes, hnone]

theorem Primary.whole (h : Primary cs e) : Whole cs e := h.toOpen.whole

/-- A complement takes in all that prolongs its operand. -/
theorem Whole.complement (h : Whole cs e) : Whole ('~' :: cs) (.unary .bitwiseNot e) :=
  fun rest hrest => .step (fun _ => rfl) ((h rest hrest).bind (.done _))

/-! Suffixes. -/

theorem Open.subscript (h : Open cs e) (hindex : Whole ds f) :
    Open (cs ++ '[' :: (ds ++ [']'])) (.subscript e f) := by
  intro rest found hrest hfound
  have hread := hindex (']' :: rest) rfl
  have htext : cs ++ '[' :: (ds ++ [']']) ++ rest = cs ++ '[' :: (ds ++ ']' :: rest) := by simp
  rw [htext]
  exact h _ _ rfl (.step (fun _ => rfl) (hread.bind hfound))

theorem follows_dot (name : String) (force : Bool) (rest : List Char) :
    follows ('.' :: ((Text.quoteIdentifier name force).toList ++ rest)) := by
  unfold Text.quoteIdentifier
  split
  · next hplain =>
    simp only [Bool.and_eq_true] at hplain
    cases hname : name.toList with
    | nil => simp [hname, Text.isPlain] at hplain
    | cons c cs =>
      have hc : c.isDigit = false := by
        refine Bool.eq_false_iff.mpr fun hdigit => ?_
        have hstart := Text.isWordStart_of_isDigit hdigit
        simp [hname, Text.isPlain, hstart] at hplain
      simp [follows, hc]
  · simp [follows]

theorem readSuffixes_field (fuel : Nat) (name : String) (force : Bool) {rest : List Char}
    (hrest : follows rest) :
    readSuffixes (fuel + 1) e ('.' :: ((Text.quoteIdentifier name force).toList ++ rest)) =
      readSuffixes fuel (.field e name) rest := by
  change (readIdentifier _ >>= fun found => readSuffixes fuel (.field e found.1) found.2) = _
  rw [readIdentifier_quoteIdentifier name force (isWord_of_follows hrest)
    (backtick_of_follows hrest)]
  rfl

theorem Open.field (h : Open cs e) (name : String) (force : Bool) :
    Open (cs ++ '.' :: (Text.quoteIdentifier name force).toList) (.field e name) := by
  intro rest found hrest hfound
  rw [List.append_assoc]
  exact h _ _ (follows_dot name force rest)
    (.step (fun fuel => readSuffixes_field fuel name force hrest) hfound)

/-! Lists. -/

theorem readExpr_of_follows {rest : List Char} (h : follows rest) (fuel : Nat) :
    readExpr fuel rest = none := by
  match fuel, rest with
  | 0, _ => rfl
  | 1, [] => rfl
  | 1, c :: rest => rcases head_of_follows h rfl with rfl | rfl | rfl | rfl | rfl | rfl <;> rfl
  | fuel + 2, [] => rfl
  | fuel + 2, c :: rest =>
    rcases head_of_follows h rfl with rfl | rfl | rfl | rfl | rfl | rfl <;> rfl

theorem Items.nil : Items [] [] := by
  intro rest hrest
  have hfollows : follows rest := (stops_iff.mp (endsItem_iff.mp (endsList_iff.mp hrest).1).1).1
  refine .step (fun fuel => ?_) (.done _)
  rw [readItems, List.nil_append, readExpr_of_follows hfollows]
  rfl

theorem Items.single (h : Item cs e) : Items cs [e] := by
  intro rest hrest
  obtain ⟨hitem, hcomma⟩ := endsList_iff.mp hrest
  obtain ⟨e', back, hread, horder⟩ := h rest hitem
  refine .step (fun _ => rfl) (hread.elim ?_)
  simp only [horder, hcomma]
  exact .done _

theorem Items.cons {es : List Expr} (h : Item cs e) (hmore : Items ds es) :
    Items (cs ++ (", ".toList ++ ds)) (e :: es) := by
  intro rest hrest
  obtain ⟨e', back, hread, horder⟩ := h (", ".toList ++ (ds ++ rest)) rfl
  rw [List.append_assoc, List.append_assoc]
  refine .step (fun _ => rfl) (hread.elim ?_)
  simp only [horder, behind_append]
  exact (hmore rest hrest).bind (.done _)

theorem Whole.item (h : Whole cs e) : Item cs e := by
  intro rest hrest
  obtain ⟨hstops, hnone⟩ := endsItem_iff.mp hrest
  exact ⟨e, rest, h rest hstops, by rw [readOrder, hnone]⟩

theorem Whole.sorted (h : Whole cs e) (direction : Direction) (nulls : NullOrder) :
    Item (cs ++ (" " ++ direction.text ++ " " ++ nulls.text).toList) (.sort e direction nulls) := by
  intro rest _
  have hstops : stops ((" " ++ direction.text ++ " " ++ nulls.text).toList ++ rest) := by
    cases direction <;> cases nulls <;> rfl
  rw [List.append_assoc]
  refine ⟨e, _, h _ hstops, ?_⟩
  cases direction <;> cases nulls <;> rfl

/-! Operators in parentheses. -/

theorem Whole.parenthesized {back : List Char} (h : Whole cs e)
    (hback : ∀ rest, stops (back ++ rest))
    (hread : ∀ rest, Reads (fun fuel => readInfix fuel e (back ++ rest)) (f, rest)) :
    Primary ('(' :: (cs ++ back)) f := by
  intro rest _
  rw [List.cons_append, List.append_assoc]
  exact .step (fun _ => rfl) ((h _ (hback rest)).elim (hread rest))

theorem Whole.isNull (h : Whole cs e) :
    Primary ('(' :: (cs ++ " IS NULL)".toList)) (.unary .isNull e) :=
  h.parenthesized (fun _ => rfl) fun _ => .step (fun _ => rfl) (.done _)

theorem Whole.isNotNull (h : Whole cs e) :
    Primary ('(' :: (cs ++ " IS NOT NULL)".toList)) (.unary .isNotNull e) :=
  h.parenthesized (fun _ => rfl) fun _ => .step (fun _ => rfl) (.done _)

theorem readInfix_symbol (fuel : Nat) (op : BinaryOp) :
    readInfix (fuel + 1) e ((" " ++ op.symbol ++ " ").toList ++ cs) = (do
      let (right, cs) ← readExpr fuel cs
      let cs ← behind [')'] cs
      some (.binary op e right, cs)) := by
  cases op <;> rfl

theorem stops_symbol (op : BinaryOp) (rest : List Char) :
    stops ((" " ++ op.symbol ++ " ").toList ++ rest) := by
  cases op <;> rfl

theorem Whole.binary (h : Whole cs e) (op : BinaryOp) (hright : Whole ds f) :
    Primary ('(' :: (cs ++ ((" " ++ op.symbol ++ " ").toList ++ (ds ++ [')']))))
      (.binary op e f) := by
  refine h.parenthesized (fun rest => ?_) fun rest => ?_
  · rw [List.append_assoc]
    exact stops_symbol op _
  · have hread := hright (')' :: rest) rfl
    rw [List.append_assoc, List.append_assoc]
    exact .step (fun fuel => readInfix_symbol fuel op) (hread.bind (.done _))

theorem Whole.between {low high : Expr} {cs' : List Char} (h : Whole cs e) (hlow : Whole ds low)
    (hhigh : Whole cs' high) :
    Primary ('(' :: (cs ++ (" BETWEEN ".toList ++ (ds ++ (" AND ".toList ++ (cs' ++ [')']))))))
      (.between e low high) := by
  refine h.parenthesized (fun _ => rfl) fun rest => ?_
  have hread := hlow (" AND ".toList ++ (cs' ++ ')' :: rest)) rfl
  have hread' := hhigh (')' :: rest) rfl
  simp only [List.append_assoc]
  exact .step (fun _ => rfl) (hread.bind (hread'.bind (.done _)))

theorem Whole.inList {items : List Expr} (h : Whole cs e) (hitems : Items ds items) :
    Primary ('(' :: (cs ++ (" IN (".toList ++ (ds ++ "))".toList)))) (.inList e items) := by
  refine h.parenthesized (fun _ => rfl) fun rest => ?_
  have hread := hitems ("))".toList ++ rest) rfl
  simp only [List.append_assoc]
  exact .step (fun _ => rfl) (hread.bind (.done _))

/-- No expression starts like a prefix operator in parentheses. -/
theorem readExpr_prefix {front : String} {op : UnaryOp} (h : (front, op) ∈ prefixes) (fuel : Nat)
    (cs : List Char) : readExpr fuel (front.toList ++ cs) = none := by
  simp only [prefixes, List.mem_cons, List.not_mem_nil, or_false, Prod.mk.injEq] at h
  match fuel with
  | 0 | 1 | 2 | 3 => rcases h with ⟨rfl, -⟩ | ⟨rfl, -⟩ <;> rfl
  | fuel + 4 => rcases h with ⟨rfl, -⟩ | ⟨rfl, -⟩ <;> rfl

theorem readPrimary_prefix {front : String} {op : UnaryOp} (h : (front, op) ∈ prefixes) (fuel : Nat)
    (cs : List Char) :
    readPrimary (fuel + 2) ('(' :: (front.toList ++ cs)) = (do
      let (e, cs) ← readExpr fuel cs
      let cs ← behind [')'] cs
      some (.unary op e, cs)) := by
  -- no operand is read in front, so the operator is
  rw [readPrimary, if_pos rfl, readExpr_prefix h]
  simp only [prefixes, List.mem_cons, List.not_mem_nil, or_false, Prod.mk.injEq] at h
  rcases h with ⟨rfl, rfl⟩ | ⟨rfl, rfl⟩ <;> rfl

theorem Whole.prefixed (h : Whole cs e) {front : String} {op : UnaryOp}
    (hop : (front, op) ∈ prefixes) :
    Primary ('(' :: (front.toList ++ (cs ++ [')']))) (.unary op e) := by
  intro rest _
  have hread := h (')' :: rest) rfl
  rw [List.cons_append, List.append_assoc, List.append_assoc]
  exact .step₂ (fun fuel => readPrimary_prefix hop fuel _) (hread.bind (.done _))

/-! Words: names, calls and keywords. -/

theorem readPrimary_word (fuel : Nat) {word : String} (hplain : Text.isPlain word.toList)
    {rest : List Char} (hrest : rest.head?.any Text.isWord = false) :
    readPrimary (fuel + 1) (word.toList ++ rest) = readWord fuel word rest := by
  have hspan := spanWord_append (Text.isWord_of_isPlain hplain) hrest
  cases hword : word.toList with
  | nil => simp [hword, Text.isPlain] at hplain
  | cons c cs =>
    have hstart : Text.isWordStart c := by
      simp only [hword, Text.isPlain, Bool.and_eq_true] at hplain
      exact hplain.1
    have hne {d : Char} (hd : Text.isWordStart d = false) : c ≠ d := by
      rintro rfl
      simp [hstart] at hd
    rw [hword, List.cons_append] at hspan
    rw [List.cons_append, readPrimary, if_neg (hne (by decide)), if_neg (hne (by decide)),
      if_neg (hne (by decide)), if_pos hstart, hspan, ← hword]
    dsimp only
    rw [String.ofList_toList]

theorem reads_word {word : String} {found : Expr × List Char} (hplain : Text.isPlain word.toList)
    {rest : List Char} (hrest : rest.head?.any Text.isWord = false)
    (h : Reads (fun fuel => readWord fuel word rest) found) :
    Reads (fun fuel => readPrimary fuel (word.toList ++ rest)) found :=
  .step (fun fuel => readPrimary_word fuel hplain hrest) h

theorem Primary.bareColumn {name : String} (hplain : Text.isPlain name.toList)
    (hname : keywords.lookup name = none) : Primary name.toList (.column none name) := by
  intro rest hrest
  obtain ⟨hopen, hquote⟩ := behind_of_follows hrest
  refine reads_word hplain (isWord_of_follows hrest)
    (.step₂ (fun fuel => ?_) (.done _))
  simp only [readWord, readName, hname, hopen, hquote]

theorem Primary.column {name : String} (hname : keywords.lookup name = none) (force : Bool) :
    Primary (Text.quoteIdentifier name force).toList (.column none name) := by
  unfold Text.quoteIdentifier
  split
  · next hplain =>
    simp only [Bool.and_eq_true] at hplain
    exact .bareColumn hplain.2 hname
  · intro rest hrest
    refine .step (fun fuel => ?_) (.done _)
    have hread := readIdentifier_backquote name (backtick_of_follows hrest)
    rw [Text.toList_backquote] at hread ⊢
    exact congrArg (Option.map _) hread

theorem readWord_call {name : String} (h : keywords.lookup name = none) (fuel : Nat)
    (cs : List Char) :
    readWord (fuel + 2) name ('(' :: cs) = (do
      let (args, cs) ← readItems fuel cs
      let cs ← behind [')'] cs
      some (.call name args, cs)) := by
  rw [readWord, h]
  rfl

theorem Primary.call {name : String} {args : List Expr} (hplain : Text.isPlain name.toList)
    (hname : keywords.lookup name = none) (hargs : Items cs args) :
    Primary (name.toList ++ '(' :: (cs ++ [')'])) (.call name args) := by
  intro rest _
  have hread := hargs (')' :: rest) rfl
  have htext : name.toList ++ '(' :: (cs ++ [')']) ++ rest =
      name.toList ++ '(' :: (cs ++ ')' :: rest) := by simp
  rw [htext]
  exact reads_word hplain rfl
    (.step₂ (fun fuel => readWord_call hname fuel _) (hread.bind (.done _)))

/-! Casts. -/

/-- No written type is a number type of the casts that are literals. -/
theorem numberTypes_text (t : DataType) (cs : List Char) :
    choose numberTypes (t.text.toList ++ cs) = none := by
  cases t <;> simp [DataType.text, DataType.leafText, choose, numberTypes, behind]

theorem readPrimary_cast (fuel : Nat) (cs : List Char) :
    readPrimary (fuel + 2) ("CAST(".toList ++ cs) = (do
      let (e, cs) ← readExpr fuel cs
      let cs ← behind " AS ".toList cs
      match choose numberTypes cs with
      | some (type, cs) => some (.raw ("CAST(" ++ rawText e ++ " AS " ++ type ++ ")"), cs)
      | none => do
        let (type, cs) ← DataType.readText fuel cs
        let cs ← behind [')'] cs
        some (.cast e type, cs)) := rfl

theorem Whole.cast (h : Whole cs e) (t : DataType) :
    Primary ("CAST(".toList ++ (cs ++ (" AS ".toList ++ (t.text.toList ++ [')']))))
      (.cast e t.relaxed) := by
  intro rest _
  have hread := h (" AS ".toList ++ (t.text.toList ++ ')' :: rest)) rfl
  have htype : Reads _ (t.relaxed, ')' :: rest) := DataType.reads_text t rfl
  simp only [List.append_assoc]
  refine .step₂ (fun fuel => readPrimary_cast fuel _) (hread.bind ?_)
  -- the type is none of those that make the cast a literal
  simp only [behind_append, Option.bind_eq_bind, Option.bind_some, numberTypes_text]
  exact htype.bind (.done _)

/-- A cast to a number type is a literal. -/
theorem Whole.numberCast {text type : String} (h : Whole cs (.raw text))
    (htype : ∀ rest, choose numberTypes ((type ++ ")").toList ++ rest) = some (type, rest)) :
    Primary ("CAST(".toList ++ (cs ++ (" AS ".toList ++ (type ++ ")").toList)))
      (.raw ("CAST(" ++ text ++ " AS " ++ type ++ ")")) := by
  intro rest _
  have hread := h (" AS ".toList ++ ((type ++ ")").toList ++ rest)) rfl
  simp only [List.append_assoc]
  refine .step₂ (fun fuel => readPrimary_cast fuel _) (hread.bind ?_)
  simp only [behind_append, Option.bind_eq_bind, Option.bind_some, htype]
  exact .done _

/-! Branches. -/

/-- The text reads as branches, in front of what neither prolongs the last nor is another one. -/
def Branches (cs : List Char) (branches : List (Expr × Expr)) : Prop :=
  ∀ rest, stops rest → behind " WHEN ".toList rest = none →
    stops (cs ++ rest) ∧ Reads (fun fuel => readBranches fuel (cs ++ rest)) (branches, rest)

theorem Branches.nil : Branches [] [] := by
  intro rest hrest hnone
  refine ⟨hrest, .step (fun fuel => ?_) (.done _)⟩
  rw [readBranches, List.nil_append, hnone]

theorem Branches.cons {branches : List (Expr × Expr)} {cs' : List Char} (hcondition : Whole cs e)
    (hvalue : Whole ds f) (h : Branches cs' branches) :
    Branches (" WHEN ".toList ++ (cs ++ (" THEN ".toList ++ (ds ++ cs'))))
      ((e, f) :: branches) := by
  intro rest hrest hnone
  obtain ⟨hstops, hmore⟩ := h rest hrest hnone
  have hread := hcondition (" THEN ".toList ++ (ds ++ (cs' ++ rest))) rfl
  have hread' := hvalue (cs' ++ rest) hstops
  simp only [List.append_assoc]
  refine ⟨rfl, .step (fun _ => rfl) (hread.bind (hread'.bind (hmore.bind (.done _))))⟩

theorem readWord_case (fuel : Nat) (cs : List Char) :
    readWord (fuel + 1) "CASE" cs = (do
      let (branches, cs) ← readBranches fuel cs
      match behind " ELSE ".toList cs with
      | some cs => do
        let (otherwise, cs) ← readExpr fuel cs
        let cs ← behind " END".toList cs
        some (.case branches (some otherwise), cs)
      | none => do
        let cs ← behind " END".toList cs
        some (.case branches none, cs)) := rfl

theorem Branches.reads_case {branches : List (Expr × Expr)} {rest : List Char}
    {found : Expr × List Char} (h : Branches cs branches) (hrest : stops rest)
    (hwhen : behind " WHEN ".toList rest = none)
    (hfound : Reads (fun fuel => match behind " ELSE ".toList rest with
      | some cs => do
        let (otherwise, cs) ← readExpr fuel cs
        let cs ← behind " END".toList cs
        some (.case branches (some otherwise), cs)
      | none => do
        let cs ← behind " END".toList rest
        some (.case branches none, cs)) found) :
    Reads (fun fuel => readPrimary fuel ("CASE".toList ++ (cs ++ rest))) found := by
  obtain ⟨hstops, hread⟩ := h rest hrest hwhen
  have hplain : Text.isPlain "CASE".toList := by decide
  exact reads_word hplain (isWord_of_follows (stops_iff.mp hstops).1)
    (.step (fun fuel => readWord_case fuel _) (hread.bind hfound))

theorem Branches.case {branches : List (Expr × Expr)} (h : Branches cs branches) :
    Primary ("CASE".toList ++ (cs ++ " END".toList)) (.case branches none) := by
  intro rest _
  rw [List.append_assoc, List.append_assoc]
  exact h.reads_case rfl rfl (.done _)

theorem Branches.caseElse {branches : List (Expr × Expr)} (h : Branches cs branches)
    (helse : Whole ds e) :
    Primary ("CASE".toList ++ (cs ++ (" ELSE ".toList ++ (ds ++ " END".toList))))
      (.case branches (some e)) := by
  intro rest _
  have hread := helse (" END".toList ++ rest) rfl
  simp only [List.append_assoc]
  exact h.reads_case rfl rfl (hread.bind (.done _))

/-! Windows. -/

theorem fixedBounds_digits (n : Nat) (cs : List Char) :
    choose fixedBounds (Number.digits n ++ cs) = none := by
  obtain ⟨c, ds, hdigits⟩ := List.exists_cons_of_ne_nil (Number.digits_ne_nil n)
  have hc : c.isDigit := Number.isDigit_of_mem_digits (by rw [hdigits]; simp)
  have hne {d : Char} (hd : d.isDigit = false) : d ≠ c := by
    rintro rfl
    simp [hc] at hd
  rw [hdigits]
  simp [choose, fixedBounds, behind, hne]

theorem readBound_counted {back : String} {bound : UInt64 → FrameBound} (offset : UInt64)
    (hback : ∀ rest, choose countedBounds (back.toList ++ rest) = some (bound, rest))
    {rest : List Char} (hdigit : (back.toList ++ rest).head?.any Char.isDigit = false) :
    readBound ((Number.natural offset.toNat ++ back).toList ++ rest) =
      some (bound offset, rest) := by
  rw [String.toList_append, List.append_assoc, Number.toList_natural, readBound,
    fixedBounds_digits, DataType.readDigits_append _ hdigit]
  simp [hback]

theorem readBound_text (b : FrameBound) (rest : List Char) :
    readBound (b.text.toList ++ rest) = some (b, rest) := by
  cases b with
  | preceding offset => exact readBound_counted offset (fun _ => rfl) rfl
  | following offset => exact readBound_counted offset (fun _ => rfl) rfl
  | _ => rfl

theorem choose_frameUnits (unit : FrameUnit) (rest : List Char) :
    choose frameUnits (unit.text.toList ++ (" BETWEEN ".toList ++ rest)) = some (unit, rest) := by
  cases unit <;> rfl

theorem readFrame_text (s : FrameSpan) (rest : List Char) :
    readFrame (s.text.toList ++ rest) = some (some s, rest) := by
  simp only [FrameSpan.text, String.toList_append, List.append_assoc]
  simp only [readFrame, choose_frameUnits, readBound_text, behind_append, Option.bind_eq_bind,
    Option.bind_some]

/-- What stands behind the opening of a window that has the given parts. -/
def closing (parts : List String) : List Char := (" ".intercalate parts).toList ++ [')']

/-- What stands behind a part of a window in front of the other parts. -/
def gap (parts : List String) : List Char :=
  if parts.isEmpty then [')'] else ' ' :: closing parts

theorem closing_cons (part : String) (parts : List String) :
    closing (part :: parts) = part.toList ++ gap parts := by
  cases parts <;> simp [closing, gap]

theorem getD_gap (parts : List String) (rest : List Char) :
    (behind [' '] (gap parts ++ rest)).getD (gap parts ++ rest) = closing parts ++ rest := by
  cases parts with
  | nil => rfl
  | cons part parts => simp [gap, behind]

/-- Parts of a window that can stand behind a section with the keyword, or in its place. -/
structure Section (keyword : String) (parts : List String) : Prop where
  apart : ∀ rest, behind keyword.toList (closing parts ++ rest) = none
  ends : ∀ rest, endsList (gap parts ++ rest)

theorem readSection_keyword (fuel : Nat) (keyword : String) :
    readSection (fuel + 1) keyword (keyword.toList ++ cs) = (do
      let (items, cs) ← readItems fuel cs
      some (items, (behind [' '] cs).getD cs)) := by
  rw [readSection, behind_append]

theorem reads_section {keyword text : String} {items : List Expr} {parts : List String}
    (h : Items text.toList items) (hparts : Section keyword parts) (rest : List Char) :
    Reads (fun fuel => readSection fuel keyword
      (closing (sectionText keyword text items.isEmpty ++ parts) ++ rest))
      (items, closing parts ++ rest) := by
  cases hitems : items.isEmpty with
  | true =>
    obtain rfl := List.isEmpty_iff.mp hitems
    refine .step (fun fuel => ?_) (.done _)
    rw [sectionText, if_pos rfl, List.nil_append, readSection, hparts.apart]
  | false =>
    have hread := h _ (hparts.ends rest)
    rw [sectionText, if_neg (by simp), List.singleton_append, closing_cons, String.toList_append,
      List.append_assoc, List.append_assoc]
    refine .step (fun fuel => readSection_keyword fuel keyword) (hread.bind ?_)
    simp only [getD_gap]
    exact .done _

/-- The frame of a window as its last part. -/
def frameParts (frame : Option FrameSpan) : List String := (frame.map FrameSpan.text).toList

theorem closing_frame (s : FrameSpan) : ∃ more, closing (frameParts (some s)) =
    s.unit.text.toList ++ (" BETWEEN ".toList ++ more) := by
  refine ⟨s.start.text.toList ++ (" AND ".toList ++ (s.stop.text.toList ++ [')'])), ?_⟩
  simp [frameParts, closing, FrameSpan.text]

theorem Section.frame {keyword : String}
    (hkeyword : keyword = "PARTITION BY " ∨ keyword = "ORDER BY ") (frame : Option FrameSpan) :
    Section keyword (frameParts frame) := by
  cases frame with
  | none =>
    refine ⟨fun _ => ?_, fun _ => rfl⟩
    rcases hkeyword with rfl | rfl <;> rfl
  | some s =>
    obtain ⟨more, hclosing⟩ := closing_frame s
    refine ⟨fun rest => ?_, fun rest => ?_⟩
    · rw [hclosing]
      rcases hkeyword with rfl | rfl <;> cases s.unit <;> rfl
    · change endsList (' ' :: closing (frameParts (some s)) ++ rest)
      rw [hclosing]
      cases s.unit <;> rfl

theorem Section.order (text : String) (isAbsent : Bool) (frame : Option FrameSpan) :
    Section "PARTITION BY " (sectionText "ORDER BY " text isAbsent ++ frameParts frame) := by
  cases isAbsent with
  | true => exact .frame (.inl rfl) frame
  | false =>
    refine ⟨fun rest => ?_, fun rest => ?_⟩
    · rw [sectionText, if_neg (by simp), List.singleton_append, closing_cons, String.toList_append,
        List.append_assoc, List.append_assoc]
      rfl
    · change endsList (' ' :: closing (("ORDER BY " ++ text) :: frameParts frame) ++ rest)
      rw [closing_cons, String.toList_append, List.append_assoc, List.cons_append,
        List.append_assoc]
      rfl

theorem readFrame_closing (frame : Option FrameSpan) (rest : List Char) :
    readFrame (closing (frameParts frame) ++ rest) = some (frame, ')' :: rest) := by
  cases frame with
  | none => rfl
  | some s => simp [frameParts, closing, readFrame_text]

theorem readSuffixes_window (fuel : Nat) (cs : List Char) :
    readSuffixes (fuel + 1) e (" OVER (".toList ++ cs) = (do
      let (partition, cs) ← readSection fuel "PARTITION BY " cs
      let (order, cs) ← readSection fuel "ORDER BY " cs
      let (frame, cs) ← readFrame cs
      let cs ← behind [')'] cs
      readSuffixes fuel (.window e partition order frame) cs) := rfl

theorem Open.window {partition order : String} {keys sorted : List Expr} (h : Open cs e)
    (hkeys : Items partition.toList keys) (hsorted : Items order.toList sorted)
    (frame : Option FrameSpan) :
    Open (cs ++ (" OVER (".toList ++ closing (sectionText "PARTITION BY " partition keys.isEmpty ++
      (sectionText "ORDER BY " order sorted.isEmpty ++ frameParts frame))))
      (.window e keys sorted frame) := by
  intro rest found hrest hfound
  have hread := reads_section hkeys (.order order sorted.isEmpty frame) rest
  have hread' := reads_section hsorted (.frame (.inr rfl) frame) rest
  rw [List.append_assoc, List.append_assoc]
  refine h _ _ rfl (.step (fun fuel => readSuffixes_window fuel _) (hread.bind (hread'.bind ?_)))
  simp only [readFrame_closing]
  exact hfound

end

end Columnar.Expr
