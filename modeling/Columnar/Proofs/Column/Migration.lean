import Columnar.Proofs.Column.Evaluation
import Columnar.Proofs.Record.Migration
import Columnar.Proofs.Record.Nested

/-! The order of the fields of a migrated struct column. A migration does not move fields, so the order
is that of the descriptor only if the target has the fields of the source in front, in their order. -/
namespace Columnar

/-- What satisfies a predicate stands in front exactly if bringing it there changes nothing. -/
theorem filter_append_filter_not_eq_self_iff {α : Type} {p : α → Bool} {l : List α} :
    l.filter p ++ l.filter (!p ·) = l ↔ l.Pairwise fun x y => p y = true → p x = true := by
  induction l with
  | nil => simp
  | cons x l ih =>
    rw [List.pairwise_cons, ← ih]
    cases hx : p x with
    | true => simp [hx]
    | false =>
      have hnone : (∀ y ∈ l, p y = true → false = true) ↔ l.filter p = [] := by
        simp [List.filter_eq_nil_iff]
      rw [hnone, List.filter_cons_of_neg (by simp [hx]), List.filter_cons_of_pos (by simp [hx])]
      constructor
      · intro h
        cases hfront : l.filter p with
        | nil =>
          rw [hfront, List.nil_append, List.cons.injEq] at h
          exact ⟨rfl, by rw [List.nil_append]; exact h.2⟩
        | cons y ys =>
          rw [hfront, List.cons_append, List.cons.injEq] at h
          have hy : p y = true := (List.mem_filter.mp (hfront ▸ List.mem_cons_self)).2
          rw [h.1, hx] at hy
          cases hy
      · rintro ⟨hfront, h⟩
        rw [hfront, List.nil_append] at h ⊢
        rw [h]

namespace MigrationPlan

/-- The target has the fields that it shares with the source in front, in the order of the source. -/
structure KeepsOrder (source target : List String) : Prop where
  front : target.Pairwise fun x y => hasName source y = true → hasName source x = true
  order : (source.filter (hasName target)).map Text.lower =
    (target.filter (hasName source)).map Text.lower

/-- A migration gives the order of the target exactly if nothing had to be moved. -/
theorem migratedNames_eq_iff {source target : List String} :
    (migratedNames source target).map Text.lower = target.map Text.lower ↔
      KeepsOrder source target := by
  have hsplit := filter_append_filter_not_eq_self_iff
    (p := fun key => decide (key ∈ source.map Text.lower)) (l := target.map Text.lower)
  have hfront : (target.map Text.lower).Pairwise (fun x y =>
      decide (y ∈ source.map Text.lower) = true → decide (x ∈ source.map Text.lower) = true) ↔
      target.Pairwise fun x y => hasName source y = true → hasName source x = true := by
    simp only [List.pairwise_map, decide_eq_true_eq, hasName_iff]
  rw [hfront] at hsplit
  rw [map_lower_migratedNames]
  constructor
  · intro h
    -- Only the shared names of either side are in the source.
    have hshared := congrArg (List.filter (· ∈ source.map Text.lower)) h
    have hkept : ((source.map Text.lower).filter (· ∈ target.map Text.lower)).filter
        (· ∈ source.map Text.lower) = (source.map Text.lower).filter (· ∈ target.map Text.lower) :=
      List.filter_eq_self.mpr fun key hkey => decide_eq_true (List.mem_of_mem_filter hkey)
    have hmissing : ((target.map Text.lower).filter (· ∉ source.map Text.lower)).filter
        (· ∈ source.map Text.lower) = [] :=
      List.filter_eq_nil_iff.mpr fun key hkey => by simpa using (List.mem_filter.mp hkey).2
    rw [List.filter_append, hkept, hmissing, List.append_nil] at hshared
    refine ⟨hsplit.mp ?_, ?_⟩
    · rw [← hshared]
      simpa only [decide_not] using h
    · rw [map_lower_shared, map_lower_shared, hshared]
  · rintro ⟨hpairs, horder⟩
    rw [map_lower_shared, map_lower_shared] at horder
    rw [horder]
    simpa only [decide_not] using hsplit.mpr hpairs

end MigrationPlan

theorem Term.eval_migrate {r : Rendering} {env : Environment} {receiver : Term} {n next : Nat}
    {source target : RecordType} {s t : RecordShape} {e : Expr} (hs : source.shape = .ok s)
    (ht : target.shape = .ok t)
    (he : receiver.eval r env .anything n = .ok (⟨.column (.struct source), e⟩, next)) :
    (Term.apply (.migrate target) [receiver]).eval r env .anything n =
      .ok (⟨.column (.struct target), (MigrationPlan.between s.fieldNames t.fieldNames).apply e⟩,
        next) := by
  have hreceiver : ¬ ∃ value right, [receiver] = [.host value, right] := by
    rintro ⟨value, right, h⟩
    cases h
  unfold Term.eval at he ⊢
  obtain ⟨⟨o, next'⟩, hrun, ho⟩ := bind_eq_ok_iff.mp he
  cases o with
  | lambda l => cases ho
  | value v =>
    cases ho
    have hmethod : (Operation.migrate target).method? (.column (.struct source)) =
        some (.taking [] (.struct target)
          (.migrate (MigrationPlan.between s.fieldNames t.fieldNames))) := by
      rw [Operation.method?, Operation.onColumn, hs, ht]
    rw [Term.evalAt_apply _ _ _ _ hreceiver, StateT.run_bind, hrun]
    change ((do
      let m ← Minting.require ((Operation.migrate target).method? (.column (.struct source)))
      let operands ← Term.evalAll r env (m.params.list 0) []
      Param.anything.accept (← m.apply r (.value ⟨.column (.struct source), e⟩ :: operands)) :
        Minting Operand).run next >>= _) = _
    rw [hmethod]
    rfl

open MigrationPlan

/-- Migrating a struct column of one record to another record gives a column of the other record. Its
value has the fields of the other record, those that both have first, in the order of the first
record. That is the order of its descriptor exactly if the other record keeps it. -/
theorem migrated_fieldNames_eq_iff {V : Type} (engine : StructEngine V) {source target : RecordType}
    {s t : RecordShape} (hs : source.shape = .ok s) (ht : target.shape = .ok t) {r : Rendering}
    {env : Environment} {receiver : Term} {n next : Nat} {e : Expr}
    (he : receiver.eval r env .anything n = .ok (⟨.column (.struct source), e⟩, next))
    {fields : List (String × V)} (hfields : engine.fields? (engine.value e) = some fields)
    (hnames : (fields.map Prod.fst).map Text.lower = s.fieldNames.map Text.lower) :
    ∃ v result, (Term.apply (.migrate target) [receiver]).eval r env .anything n = .ok (v, next) ∧
      v.kind = .column (.struct target) ∧ engine.fields? (engine.value v.expr) = some result ∧
      (result.map Prod.fst).map Text.lower =
        (migratedNames s.fieldNames t.fieldNames).map Text.lower ∧
      ((result.map Prod.fst).map Text.lower).Perm
        ((ColumnType.struct target).dataType.fieldNames.map Text.lower) ∧
      ((result.map Prod.fst).map Text.lower =
          (ColumnType.struct target).dataType.fieldNames.map Text.lower ↔
        KeepsOrder s.fieldNames t.fieldNames) := by
  have hresult := fields_apply_between hfields hnames (nodup_fieldNames ht)
  have htype : (ColumnType.struct target).dataType.fieldNames = t.fieldNames := by
    rw [dataType_struct, ht]
    rfl
  refine ⟨_, _, Term.eval_migrate hs ht he, rfl, hresult, ?_⟩
  have hleft : ((fields.filter (hasName t.fieldNames ·.1) ++
      (between s.fieldNames t.fieldNames).addedFields engine).map Prod.fst).map Text.lower =
        (migratedNames s.fieldNames t.fieldNames).map Text.lower := by
    rw [map_fst_migrated, List.map_append, map_lower_shared, hnames, map_lower_missing,
      map_lower_migratedNames]
  rw [htype, hleft]
  exact ⟨rfl, perm_migratedNames (nodup_fieldNames hs) (nodup_fieldNames ht), migratedNames_eq_iff⟩

def holder : RecordType :=
  .declare "Holder" [⟨"id", "id", .integer⟩, ⟨"name", "Name", .string⟩, ⟨"age", "age", .integer⟩]

def badge : RecordType :=
  .declare "Badge"
    [⟨"number", "ID", .integer⟩, ⟨"label", "NAME", .string⟩, ⟨"zip", "zip", .integer⟩]

def plainRendering : Rendering := .ofConfig {} countingDigits

theorem migrated_fieldNames_eq_iff_badge :
    ∃ v result,
      (Term.apply (.migrate badge) [.reference (.struct holder) (.column none "person")]).eval
        plainRendering [] .anything 0 = .ok (v, 0) ∧
      (Datum.eval Datum.personRow v.expr).fields? = some result ∧
      (result.map Prod.fst).map Text.lower = badge.fieldNames.map Text.lower ∧
      KeepsOrder holder.fieldNames badge.fieldNames := by
  have hholder : holder.shape = .ok ⟨"Holder", holder.members.map memberField⟩ := rfl
  have hbadge : badge.shape = .ok ⟨"Badge", badge.members.map memberField⟩ := rfl
  have hcolumn : (Term.reference (.struct holder) (.column none "person")).eval
      plainRendering [] .anything 0 =
        .ok (⟨.column (.struct holder), .column none "person"⟩, 0) := rfl
  have hfields : (Datum.engine Datum.personRow).fields?
      ((Datum.engine Datum.personRow).value (.column none "person")) =
        some [("id", .number 1), ("Name", .number 2), ("age", .number 3)] := rfl
  obtain ⟨v, result, heval, -, hresult, hnames, -, hiff⟩ :=
    migrated_fieldNames_eq_iff (Datum.engine Datum.personRow) hholder hbadge hcolumn hfields rfl
  have horder : (result.map Prod.fst).map Text.lower = badge.fieldNames.map Text.lower := by
    rw [hnames]
    decide
  exact ⟨v, result, heval, hresult, horder, hiff.mp horder⟩

def address : RecordType :=
  .declare "Address" [⟨"street", "street", .string⟩, ⟨"city", "City", .string⟩]

def turned : RecordType :=
  .declare "Turned" [⟨"city", "CITY", .string⟩, ⟨"street", "STREET", .string⟩]

/-- Records with the same fields in another order: the struct is left as it is, under a descriptor that
has the fields the other way round. -/
theorem migrated_order_turned :
    (∃ s, address.shape = .ok s) ∧ (∃ t, turned.shape = .ok t) ∧
      (Term.apply (.migrate turned) [.reference (.struct address) (.column none "home")]).eval
        plainRendering [] .anything 0 =
          .ok (⟨.column (.struct turned), .column none "home"⟩, 0) ∧
      ((Datum.eval Datum.personRow (.column none "home")).fields?.map fun fields =>
        fields.map Prod.fst) = some ["street", "City"] ∧
      ["street", "City"].map Text.lower ≠
        (ColumnType.struct turned).dataType.fieldNames.map Text.lower :=
  ⟨⟨_, rfl⟩, ⟨_, rfl⟩, rfl, rfl, by decide⟩

end Columnar
