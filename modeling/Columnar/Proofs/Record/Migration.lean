import Mathlib.Data.List.Perm.Basic
import Mathlib.Data.List.Nodup
import Columnar.Record.Migration

/-! What a migration makes of a struct, for every engine that finds the fields of a struct by name,
ignoring ASCII case: the fields that are wanted stay where they are, with their values, and the
missing ones stand behind them. -/
namespace Columnar

/-- The fields of a struct with one of them set: in the place of the field of that name if there is
one, and at the end if there is none. -/
def setField {V : Type} (fields : List (String × V)) (name : String) (value : V) :
    List (String × V) :=
  if hasName (fields.map Prod.fst) name then
    fields.map fun f => if Text.sameName f.1 name then (name, value) else f
  else fields ++ [(name, value)]

/-- An engine, as far as structs go: what expressions come to, what fields a struct has, and how the
two operations of a migration change them. -/
structure StructEngine (V : Type) where
  value : Expr → V
  fields? : V → Option (List (String × V))
  withField : ∀ {e v : Expr} {name : String} {fields : List (String × V)},
    fields? (value e) = some fields →
      fields? (value (.withField e name v)) = some (setField fields name (value v))
  dropFields : ∀ {e : Expr} {names : List String} {fields : List (String × V)},
    fields? (value e) = some fields →
      fields? (value (.dropFields e names)) = some (fields.filter fun f => !hasName names f.1)

theorem hasName_iff {names : List String} {name : String} :
    hasName names name = true ↔ Text.lower name ∈ names.map Text.lower := by
  simp [hasName, Text.sameName_iff]

theorem hasName_eq_false_iff {names : List String} {name : String} :
    hasName names name = false ↔ Text.lower name ∉ names.map Text.lower := by
  rw [← hasName_iff, Bool.not_eq_true]

/-- Names are looked up alike in lists that differ in case only. -/
theorem hasName_congr {names names' : List String} {name name' : String}
    (hnames : names.map Text.lower = names'.map Text.lower)
    (hname : Text.lower name = Text.lower name') :
    hasName names name = hasName names' name' := by
  rw [Bool.eq_iff_iff, hasName_iff, hasName_iff, hnames, hname]

theorem hasName_append (names others : List String) (name : String) :
    hasName (names ++ others) name = (hasName names name || hasName others name) :=
  List.any_append

theorem map_lower_filter {names : List String} {p : String → Bool} {q : String → Prop}
    [DecidablePred q] (h : ∀ name, p name = true ↔ q (Text.lower name)) :
    (names.filter p).map Text.lower = (names.map Text.lower).filter q := by
  rw [List.filter_map]
  congr 1
  apply List.filter_congr
  intro name _
  rw [Bool.eq_iff_iff, h name]
  simp

theorem map_lower_shared (names others : List String) :
    (names.filter (hasName others)).map Text.lower =
      (names.map Text.lower).filter (· ∈ others.map Text.lower) :=
  map_lower_filter fun _ => hasName_iff

theorem map_lower_missing (names others : List String) :
    (names.filter (!hasName others ·)).map Text.lower =
      (names.map Text.lower).filter (· ∉ others.map Text.lower) :=
  map_lower_filter fun name => by rw [Bool.not_eq_true', hasName_eq_false_iff]

theorem hasName_missing (names others : List String) (name : String) :
    hasName (names.filter (!hasName others ·)) name =
      (hasName names name && !hasName others name) := by
  rw [Bool.eq_iff_iff, hasName_iff, map_lower_missing, List.mem_filter, decide_eq_true_eq,
    Bool.and_eq_true, Bool.not_eq_true', hasName_iff, hasName_eq_false_iff]

theorem setField_of_absent {V : Type} {fields : List (String × V)} {name : String}
    (h : hasName (fields.map Prod.fst) name = false) (value : V) :
    setField fields name value = fields ++ [(name, value)] := by
  rw [setField, h]
  rfl

/-- Values of a row in an engine that knows numbers and structs. -/
inductive Datum
  | missing
  | number (n : Nat)
  | struct (fields : List (String × Datum))

namespace Datum

def fields? : Datum → Option (List (String × Datum))
  | struct fields => some fields
  | _ => none

/-- What an expression comes to on a row. -/
def eval (row : String → Datum) : Expr → Datum
  | .column _ name => row name
  | .withField operand name value =>
    match (eval row operand).fields? with
    | some fields => .struct (setField fields name (eval row value))
    | none => .missing
  | .dropFields operand names =>
    match (eval row operand).fields? with
    | some fields => .struct (fields.filter fun f => !hasName names f.1)
    | none => .missing
  | _ => .missing
termination_by structural e => e

def engine (row : String → Datum) : StructEngine Datum where
  value := eval row
  fields? := fields?
  withField h := by rw [eval, h]; rfl
  dropFields h := by rw [eval, h]; rfl

/-- A row with a person, an address and a zip code. -/
def personRow : String → Datum
  | "person" => .struct [("id", .number 1), ("Name", .number 2), ("age", .number 3)]
  | "home" => .struct [("street", .number 4), ("City", .number 5)]
  | "zip" => .number 6
  | _ => .missing

end Datum

namespace MigrationPlan

variable {V : Type} {engine : StructEngine V} {e : Expr} {fields : List (String × V)}
  {source target : List String}

/-- The fields that a plan adds: each has the value of the column of its name. -/
def addedFields (p : MigrationPlan) (engine : StructEngine V) : List (String × V) :=
  p.added.map fun name => (name, engine.value (.column none name))

theorem map_fst_addedFields (p : MigrationPlan) (engine : StructEngine V) :
    (p.addedFields engine).map Prod.fst = p.added := by
  rw [addedFields, List.map_map]
  exact List.map_id _

/-- The part of a plan that adds a number of fields. -/
def additions (added : List String) : MigrationPlan := ⟨added, []⟩

theorem apply_additions_cons (name : String) (added : List String) (e : Expr) :
    (additions (name :: added)).apply e =
      (additions added).apply (.withField e name (.column none name)) := rfl

theorem apply_eq (p : MigrationPlan) (e : Expr) :
    p.apply e = if p.dropped.isEmpty then (additions p.added).apply e
      else .dropFields ((additions p.added).apply e) p.dropped := rfl

/-- Fields that are not there yet are appended one after the other. -/
theorem fields_additions {added : List String} (he : engine.fields? (engine.value e) = some fields)
    (hnew : ∀ name ∈ added, hasName (fields.map Prod.fst) name = false)
    (hnodup : (added.map Text.lower).Nodup) :
    engine.fields? (engine.value ((additions added).apply e)) =
      some (fields ++ (additions added).addedFields engine) := by
  induction added generalizing e fields with
  | nil => rwa [addedFields, additions, List.map_nil, List.append_nil]
  | cons name added ih =>
    obtain ⟨hname, hadded⟩ := List.nodup_cons.mp hnodup
    have hstep : engine.fields? (engine.value (.withField e name (.column none name))) =
        some (fields ++ [(name, engine.value (.column none name))]) := by
      rw [engine.withField he, setField_of_absent (hnew name List.mem_cons_self)]
    have hnew' : ∀ other ∈ added,
        hasName ((fields ++ [(name, engine.value (.column none name))]).map Prod.fst) other = false := by
      intro other hother
      rw [List.map_append, hasName_append, hnew other (List.mem_cons_of_mem name hother),
        Bool.false_or, hasName_eq_false_iff]
      intro hmem
      have heq : Text.lower other = Text.lower name := by simpa using hmem
      have hother' := List.mem_map_of_mem (f := Text.lower) hother
      rw [heq] at hother'
      exact hname hother'
    rw [apply_additions_cons, ih hstep hnew' hadded, List.append_assoc]
    rfl

/-- The field of a step is not there before the step. -/
theorem fields_before_addition {added : List String}
    (he : engine.fields? (engine.value e) = some fields)
    (hnew : ∀ name ∈ added, hasName (fields.map Prod.fst) name = false)
    (hnodup : (added.map Text.lower).Nodup) {k : Nat} {name : String}
    (hname : added[k]? = some name) :
    ∃ before, engine.fields? (engine.value ((additions (added.take k)).apply e)) = some before ∧
      hasName (before.map Prod.fst) name = false := by
  obtain ⟨hk, hget⟩ := List.getElem?_eq_some_iff.mp hname
  have hsplit : added = added.take k ++ name :: added.drop (k + 1) := by
    rw [← hget, ← List.drop_eq_getElem_cons hk, List.take_append_drop]
  rw [hsplit, List.map_append, List.nodup_append] at hnodup
  obtain ⟨htake, -, hapart⟩ := hnodup
  have hnew' : ∀ other ∈ added.take k, hasName (fields.map Prod.fst) other = false :=
    fun other hother => hnew other (List.mem_of_mem_take hother)
  refine ⟨_, fields_additions he hnew' htake, ?_⟩
  rw [List.map_append, map_fst_addedFields, hasName_append, hnew name (List.mem_of_getElem? hname),
    Bool.false_or, hasName_eq_false_iff]
  exact fun hmem => hapart _ hmem _ List.mem_cons_self rfl

/-- The fields that a plan leaves are those of the struct and the added ones, less the dropped ones. -/
theorem fields_apply (p : MigrationPlan) (he : engine.fields? (engine.value e) = some fields)
    (hnew : ∀ name ∈ p.added, hasName (fields.map Prod.fst) name = false)
    (hnodup : (p.added.map Text.lower).Nodup) :
    engine.fields? (engine.value (p.apply e)) =
      some ((fields ++ p.addedFields engine).filter fun f => !hasName p.dropped f.1) := by
  have hadded := fields_additions he hnew hnodup
  rw [apply_eq]
  split
  · next hnone =>
    have hkept : ((fields ++ p.addedFields engine).filter fun f => !hasName [] f.1) =
        fields ++ p.addedFields engine := List.filter_eq_self.mpr fun _ _ => rfl
    rw [hadded, List.isEmpty_iff.mp hnone, hkept]
    rfl
  · exact engine.dropFields hadded

theorem hasName_dropped (source target : List String) (name : String) :
    hasName (between source target).dropped name = (hasName source name && !hasName target name) :=
  hasName_missing source target name

theorem of_mem_added {name : String} (h : name ∈ (between source target).added) :
    name ∈ target ∧ hasName source name = false := by
  simpa [between] using h

/-- What is to be added is missing in the source, and no two of it have the same name. -/
theorem added_missing (hnames : (fields.map Prod.fst).map Text.lower = source.map Text.lower) :
    ∀ name ∈ (between source target).added, hasName (fields.map Prod.fst) name = false := by
  intro name hname
  rw [hasName_congr hnames rfl]
  exact (of_mem_added hname).2

theorem nodup_added (htarget : (target.map Text.lower).Nodup) :
    ((between source target).added.map Text.lower).Nodup := by
  rw [between, map_lower_missing]
  exact htarget.filter _

/-- A migration on a struct of the source fields: what is wanted stays, what is missing is appended. -/
theorem fields_apply_between (he : engine.fields? (engine.value e) = some fields)
    (hnames : (fields.map Prod.fst).map Text.lower = source.map Text.lower)
    (htarget : (target.map Text.lower).Nodup) :
    engine.fields? (engine.value ((between source target).apply e)) =
      some (fields.filter (hasName target ·.1) ++ (between source target).addedFields engine) := by
  rw [fields_apply _ he (added_missing hnames) (nodup_added htarget), List.filter_append]
  congr 2
  · apply List.filter_congr
    intro f hf
    have hsource : hasName source f.1 = true := by
      rw [hasName_iff, ← hnames]
      exact List.mem_map_of_mem (List.mem_map_of_mem hf)
    rw [hasName_dropped, hsource, Bool.true_and, Bool.not_not]
  · rw [List.filter_eq_self]
    intro f hf
    obtain ⟨name, hname, rfl⟩ := List.mem_map.mp hf
    rw [hasName_dropped, (of_mem_added hname).2]
    rfl

/-- The names that a migration leaves: those of the source that are wanted, then those of the target
that were missing. -/
def migratedNames (source target : List String) : List String :=
  source.filter (hasName target) ++ target.filter (!hasName source ·)

theorem map_lower_migratedNames (source target : List String) :
    (migratedNames source target).map Text.lower =
      (source.map Text.lower).filter (· ∈ target.map Text.lower) ++
        (target.map Text.lower).filter (· ∉ source.map Text.lower) := by
  rw [migratedNames, List.map_append, map_lower_shared, map_lower_missing]

/-- They are the names of the target, in some order. -/
theorem perm_migratedNames (hsource : (source.map Text.lower).Nodup)
    (htarget : (target.map Text.lower).Nodup) :
    ((migratedNames source target).map Text.lower).Perm (target.map Text.lower) := by
  rw [map_lower_migratedNames]
  have hshared : ((source.map Text.lower).filter (· ∈ target.map Text.lower)).Perm
      ((target.map Text.lower).filter (· ∈ source.map Text.lower)) := by
    rw [List.perm_ext_iff_of_nodup (hsource.filter _) (htarget.filter _)]
    intro name
    simp only [List.mem_filter, decide_eq_true_eq]
    exact and_comm
  refine (hshared.append_right _).trans ?_
  simpa only [decide_not] using
    List.filter_append_perm (· ∈ source.map Text.lower) (target.map Text.lower)

theorem isNoop_between_iff (hsource : (source.map Text.lower).Nodup)
    (htarget : (target.map Text.lower).Nodup) :
    (between source target).isNoop = true ↔
      (source.map Text.lower).Perm (target.map Text.lower) := by
  have hadded : (between source target).added = [] ↔
      ∀ key ∈ target.map Text.lower, key ∈ source.map Text.lower := by
    simp [between, List.filter_eq_nil_iff, hasName_iff]
  have hdropped : (between source target).dropped = [] ↔
      ∀ key ∈ source.map Text.lower, key ∈ target.map Text.lower := by
    simp [between, List.filter_eq_nil_iff, hasName_iff]
  rw [isNoop, Bool.and_eq_true, List.isEmpty_iff, List.isEmpty_iff, hadded, hdropped,
    List.perm_ext_iff_of_nodup hsource htarget]
  constructor
  · exact fun ⟨hadd, hdrop⟩ key => ⟨hdrop key, hadd key⟩
  · exact fun h => ⟨fun key => (h key).mpr, fun key => (h key).mp⟩

theorem apply_of_isNoop {p : MigrationPlan} (h : p.isNoop = true) (e : Expr) : p.apply e = e := by
  obtain ⟨added, dropped⟩ := p
  simp only [isNoop, Bool.and_eq_true, List.isEmpty_iff] at h
  rw [h.1, h.2]
  rfl

theorem map_fst_migrated (engine : StructEngine V) (fields : List (String × V))
    (source target : List String) :
    (fields.filter (hasName target ·.1) ++ (between source target).addedFields engine).map Prod.fst =
      (fields.map Prod.fst).filter (hasName target) ++ target.filter (!hasName source ·) := by
  rw [List.map_append, map_fst_addedFields, List.filter_map]
  rfl

/-- A migration carried out: exactly the wanted fields stay, in source order and with their values, and
the missing ones follow in target order, which together are the names of the target. No step sets a
field that is there already, and no added field is dropped. There is nothing to do exactly when the
lists have the same names, and then the struct is left alone. The way back exchanges additions and
removals. -/
theorem migration_reaches_target (engine : StructEngine V) {source target : List String}
    (hsource : (source.map Text.lower).Nodup) (htarget : (target.map Text.lower).Nodup)
    {e : Expr} {fields : List (String × V)} (he : engine.fields? (engine.value e) = some fields)
    (hnames : fields.map Prod.fst = source) :
    (∃ result, engine.fields? (engine.value ((between source target).apply e)) = some result ∧
      result = fields.filter (hasName target ·.1) ++ (between source target).addedFields engine ∧
      result.map Prod.fst = migratedNames source target ∧
      ((result.map Prod.fst).map Text.lower).Perm (target.map Text.lower)) ∧
    (∀ k name, (between source target).added[k]? = some name →
      ∃ before, engine.fields? (engine.value
          ((additions ((between source target).added.take k)).apply e)) = some before ∧
        hasName (before.map Prod.fst) name = false) ∧
    (∀ d ∈ (between source target).dropped, ∀ a ∈ (between source target).added,
      Text.sameName d a = false) ∧
    ((between source target).isNoop = true ↔
      (source.map Text.lower).Perm (target.map Text.lower)) ∧
    ((between source target).isNoop = true → ∀ e, (between source target).apply e = e) ∧
    between target source = ⟨(between source target).dropped, (between source target).added⟩ := by
  have hkeys : (fields.map Prod.fst).map Text.lower = source.map Text.lower := by rw [hnames]
  have hleft : (fields.filter (hasName target ·.1) ++
      (between source target).addedFields engine).map Prod.fst = migratedNames source target := by
    rw [map_fst_migrated, hnames, migratedNames]
  refine ⟨⟨_, fields_apply_between he hkeys htarget, rfl, hleft, ?_⟩, ?_, ?_,
    isNoop_between_iff hsource htarget, apply_of_isNoop, rfl⟩
  · rw [hleft]
    exact perm_migratedNames hsource htarget
  · intro k name hname
    exact fields_before_addition he (added_missing hkeys) (nodup_added htarget) hname
  · intro d hd a ha
    have hnone : hasName (between source target).dropped a = false := by
      rw [hasName_dropped, (of_mem_added ha).2, Bool.false_and]
    exact Bool.eq_false_iff.mpr (List.any_eq_false.mp hnone d hd)

theorem migration_reaches_target_person :
    (["id", "Name", "age"].map Text.lower).Nodup ∧ (["NAME", "zip", "ID"].map Text.lower).Nodup ∧
      (Datum.eval Datum.personRow ((between ["id", "Name", "age"] ["NAME", "zip", "ID"]).apply
        (.column none "person"))).fields? =
          some [("id", .number 1), ("Name", .number 2), ("zip", .number 6)] ∧
      (between ["id", "Name", "age"] ["NAME", "zip", "ID"]).isNoop = false := by
  have hsource : (["id", "Name", "age"].map Text.lower).Nodup := by decide
  have htarget : (["NAME", "zip", "ID"].map Text.lower).Nodup := by decide
  obtain ⟨⟨result, hresult, hfields, -⟩, -⟩ :=
    migration_reaches_target (Datum.engine Datum.personRow) hsource htarget
      (e := .column none "person") rfl rfl
  refine ⟨hsource, htarget, ?_, by decide⟩
  rw [hfields] at hresult
  exact hresult

end MigrationPlan

end Columnar
