import Columnar.Proofs.Column.FreeExpr
import Columnar.Proofs.Column.FreeType

/-! The methods that a script calls. The texts that a method puts into an expression are the program's
own, in which no word looks like a minted name, or field names of the type of its receiver. -/
namespace Columnar

/-- Whether a text of the program has no word that looks like a minted name. -/
def isUnminted (a : String) : Bool := (words a.toList).all (!looksMinted ·)

/-- Whether a form carries nothing but texts of the program. -/
def Form.isProgram : Form → Bool
  | .call function leading => isUnminted function && leading.all (isUnminted ·.text)
  | .cast type => isUnminted type.text
  | .generator function | .template function => isUnminted function
  | .receiver | .unary _ | .binary _ | .exchanged _ | .different | .quotient | .between | .sort _ _
  | .countDistinct | .trimCharacters | .membership | .subscript | .lookup _ | .withOwnField | .case
  | .window _ => true
  | _ => false

namespace Supplies

variable {s : Supplies} {t : ColumnType} {r : RecordType} {name : String} {m : Method}

theorem fixed_of_isUnminted {a : String} (h : isUnminted a = true) : s.Fixed a := fixed_of_words h

theorem freeForm_of_isProgram {form : Form} (h : form.isProgram = true) : s.FreeForm form := by
  cases form with
  | call function leading =>
    rw [Form.isProgram, Bool.and_eq_true, List.all_eq_true] at h
    exact ⟨fixed_of_isUnminted h.1, fun l hl => fixed_of_isUnminted (h.2 l hl)⟩
  | cast type => exact fixed_of_isUnminted h
  | generator function => exact fixed_of_isUnminted h
  | template function => exact fixed_of_isUnminted h
  | constant | rename | field | withField | migrate | struct | copy | collection => cases h
  | _ => trivial

def FreeKind (s : Supplies) : Kind → Prop
  | .column t | .generator t => s.FreeType t
  | .untyped _ | .sortKey => True

def FreeParam (s : Supplies) : Param → Prop
  | .column t => s.FreeType t
  | .lambda inputs output => (∀ t ∈ inputs, s.FreeType t) ∧ s.FreeType output
  | .anything | .anyColumn | .sortKey => True

def FreeParams (s : Supplies) : Params → Prop
  | .fixed params => ∀ p ∈ params, s.FreeParam p
  | .many p => s.FreeParam p
  | .pairs p q => s.FreeParam p ∧ s.FreeParam q

/-- A method whose texts and types have no name of a supply in them. -/
structure FreeMethod (s : Supplies) (m : Method) : Prop where
  params : s.FreeParams m.params
  result : s.FreeKind m.result
  form : s.FreeForm m.form

theorem forall_mem_alternate {P : Param → Prop} {p q : Param} (hp : P p) (hq : P q) :
    ∀ places, ∀ a ∈ Params.alternate p q places, P a
  | 0 => nofun
  | 1 => by simpa [Params.alternate] using hq
  | places + 2 => by
    simp only [Params.alternate, List.forall_mem_cons]
    exact ⟨hp, hq, forall_mem_alternate hp hq places⟩

theorem FreeParams.list {ps : Params} (h : s.FreeParams ps) (places : Nat) :
    ∀ p ∈ ps.list places, s.FreeParam p := by
  cases ps with
  | fixed params => exact h
  | many p => exact fun a ha => List.eq_of_mem_replicate ha ▸ h
  | pairs p q => exact forall_mem_alternate h.1 h.2 places

/-! The tables of methods. A membership is called `is_in` in all of them. -/

attribute [local simp] Method.taking Method.calling Method.casting Method.sorting Method.part
  Method.higher FreeParams FreeParam FreeKind

/-- What holds of each entry of a table. -/
def FreeEntry (s : Supplies) (name : String) (m : Method) : Prop :=
  s.FreeMethod m ∧ (m.form = .membership → name = "is_in")

theorem freeEntry_ofAny (ht : s.FreeType t) (h : Method.ofAny t name = some m) :
    s.FreeEntry name m := by
  unfold Method.ofAny at h
  split at h
  all_goals cases h
  all_goals exact ⟨⟨by simp [ht], by simp [ht], freeForm_of_isProgram rfl⟩, nofun⟩

/-- The tables that the methods of a leaf are looked up in. -/
def leafTables (l : Leaf) : List (String → Option Method) :=
  [Method.ofOrdered (.leaf l), Method.ofCastable, Method.ofNumeric (.leaf l),
    Method.ofIntegral (.leaf l), Method.ofFloating (.leaf l), Method.ofTemporal,
    Method.ofMoment (.leaf l), Method.ofBoolean, Method.ofBinary, Method.ofString, Method.ofDate,
    Method.ofTimestamp, Method.ofInterval]

theorem exists_leafTable {l : Leaf} (h : Method.ofLeaf l name = some m) :
    ∃ table ∈ leafTables l, table name = some m := by
  simp only [Method.ofLeaf, Method.whenever, Option.orElse_eq_orElse, Option.orElse_eq_or,
    Option.or_eq_some_iff, Option.ite_none_right_eq_some] at h
  rcases h with h | ⟨-, ⟨-, h⟩ | ⟨-, ⟨-, h⟩ | ⟨-, ⟨-, h⟩ | ⟨-, ⟨-, h⟩ | ⟨-, ⟨-, h⟩ |
    ⟨-, ⟨-, h⟩ | ⟨-, h⟩⟩⟩⟩⟩⟩⟩
  case inr.inr.inr.inr.inr.inr.inr =>
    split at h
    case h_7 => cases h
    all_goals exact ⟨_, by simp [leafTables], h⟩
  all_goals exact ⟨_, by simp [leafTables], h⟩

theorem freeEntry_ofLeaf {l : Leaf} (h : Method.ofLeaf l name = some m) : s.FreeEntry name m := by
  obtain ⟨table, htable, h⟩ := exists_leafTable h
  simp only [leafTables, List.mem_cons, List.not_mem_nil, or_false] at htable
  rcases htable with rfl | rfl | rfl | rfl | rfl | rfl | rfl | rfl | rfl | rfl | rfl | rfl | rfl
  all_goals
    delta Method.ofOrdered Method.ofCastable Method.ofNumeric Method.ofIntegral
      Method.ofFloating Method.ofTemporal Method.ofMoment Method.ofBoolean Method.ofBinary
      Method.ofString Method.ofDate Method.ofTimestamp Method.ofInterval at h
    split at h
  all_goals cases h
  all_goals exact ⟨⟨by simp, by simp, freeForm_of_isProgram rfl⟩,
    by first | exact fun _ => rfl | exact nofun⟩

theorem freeEntry_ofArray (ht : s.FreeType t) (h : Method.ofArray t name = some m) :
    s.FreeEntry name m := by
  unfold Method.ofArray at h
  split at h
  -- Behind the methods of all arrays, those of arrays with certain elements.
  all_goals try split at h
  all_goals cases h
  all_goals exact ⟨⟨by simp [ht], by simp_all, freeForm_of_isProgram rfl⟩, nofun⟩

theorem freeName_of_isUnminted {n : String}
    (h : (isUnminted n && isUnminted (Text.quoteString n)) = true) : s.FreeName n := by
  rw [Bool.and_eq_true] at h
  exact ⟨fixed_of_isUnminted h.1, fixed_of_isUnminted h.2⟩

theorem freeRecord_mapEntry {k : Leaf} (ht : s.FreeType t) : s.FreeRecord (.mapEntry k t) := by
  rw [freeRecord_iff]
  simp only [RecordType.mapEntry, RecordType.members_ofMembers, List.forall_mem_cons]
  exact ⟨⟨freeName_of_isUnminted rfl, freeType_leaf k⟩, ⟨freeName_of_isUnminted rfl, ht⟩,
    List.forall_mem_nil _⟩

theorem freeEntry_ofMap {k : Leaf} (ht : s.FreeType t) (h : Method.ofMap k t name = some m) :
    s.FreeEntry name m := by
  unfold Method.ofMap at h
  split at h
  all_goals cases h
  all_goals
    exact ⟨⟨by simp [ht], by simp [ht, freeRecord_mapEntry], freeForm_of_isProgram rfl⟩, nofun⟩

theorem freeEntry_ofStruct (hr : s.FreeRecord r) (h : Method.ofStruct r name = some m) :
    s.FreeEntry name m := by
  unfold Method.ofStruct at h
  split at h
  all_goals cases h
  · exact ⟨⟨by simp, by simp [hr], hr.fieldNames⟩, nofun⟩
  · exact ⟨⟨by simp, by simp [hr], freeForm_of_isProgram rfl⟩, nofun⟩

theorem freeEntry_ofColumn (ht : s.FreeType t) (h : Method.ofColumn t name = some m) :
    s.FreeEntry name m := by
  simp only [Method.ofColumn, Option.orElse_eq_orElse, Option.orElse_eq_or,
    Option.or_eq_some_iff] at h
  rcases h with h | ⟨-, h⟩
  · cases t with
    | leaf l => exact freeEntry_ofLeaf h
    | array t => exact freeEntry_ofArray (freeType_array.mp ht) h
    | map k t => exact freeEntry_ofMap (freeType_map.mp ht) h
    | struct r => exact freeEntry_ofStruct ht h
  · exact freeEntry_ofAny ht h

/-! Operations and sources. -/

/-- An operation that supplies no name in which a name of a supply occurs. -/
def FreeOperation (s : Supplies) : Operation → Prop
  | .rename n => s.FreeName n
  | .cast t | .transform t | .fold t => s.FreeType t
  | .foldThen t u => s.FreeType t ∧ s.FreeType u
  | .migrate r => s.FreeRecord r
  | .method _ | .item | .window _ | .member _ | .replaceMember _ => True

theorem freeMember {r : RecordType} {m : RecordMember} (hr : s.FreeRecord r)
    (h : r.member? name = some m) : s.FreeName m.field ∧ s.FreeType m.type :=
  freeRecord_iff.mp hr m (List.mem_of_find?_eq_some h)

theorem shape_fieldNames {r : RecordType} {shape : RecordShape} (hr : s.FreeRecord r)
    (h : r.shape = .ok shape) : ∀ n ∈ shape.fieldNames, s.FreeName n := by
  have hnames := hr.fieldNames
  rwa [RecordType.fieldNames, h] at hnames

/-- The method that an operation is. Only `is_in` is a membership. -/
theorem freeMethod_onColumn {op : Operation} (hop : s.FreeOperation op) (ht : s.FreeType t)
    (h : op.onColumn t = some m) :
    s.FreeMethod m ∧ (m.form = .membership → op = .method "is_in") := by
  cases op with
  | method name =>
    have hm := freeEntry_ofColumn ht h
    exact ⟨hm.1, fun hform => by rw [hm.2 hform]⟩
  | item =>
    cases t with
    | array e =>
      cases h
      exact ⟨⟨by simp, ht, freeForm_of_isProgram rfl⟩, nofun⟩
    | _ => cases h
  | rename n =>
    cases h
    exact ⟨⟨by simp, by simp [ht], hop⟩, nofun⟩
  | cast type =>
    cases h
    exact ⟨⟨by simp, hop, fixed_dataType type hop⟩, nofun⟩
  | window parts =>
    cases h
    refine ⟨⟨fun p hp => ?_, ht, trivial⟩, nofun⟩
    obtain ⟨part, -, hpart⟩ := List.mem_filterMap.mp hp
    cases part <;> cases hpart <;> trivial
  | member name =>
    cases t with
    | struct r =>
      obtain ⟨member, hmember, rfl⟩ := Option.map_eq_some_iff.mp h
      obtain ⟨hfield, htype⟩ := freeMember ht hmember
      exact ⟨⟨by simp, htype, hfield⟩, nofun⟩
    | _ => cases h
  | replaceMember name =>
    cases t with
    | struct r =>
      obtain ⟨member, hmember, rfl⟩ := Option.map_eq_some_iff.mp h
      obtain ⟨hfield, htype⟩ := freeMember ht hmember
      exact ⟨⟨by simp [htype], ht, hfield⟩, nofun⟩
    | _ => cases h
  | migrate target =>
    cases t with
    | struct source =>
      cases h
      dsimp only [Method.taking]
      split
      · next hsource htarget =>
        refine ⟨⟨by simp, hop, fun n hn => ?_, fun n hn => ?_⟩, nofun⟩
        · exact shape_fieldNames hop htarget n (List.mem_of_mem_filter hn)
        · exact shape_fieldNames ht hsource n (List.mem_of_mem_filter hn)
      · exact ⟨⟨by simp, hop, trivial⟩, nofun⟩
    | _ => cases h
  | transform result =>
    cases t with
    | array e =>
      cases h
      exact ⟨⟨by simp_all [FreeOperation], hop, freeForm_of_isProgram rfl⟩, nofun⟩
    | _ => cases h
  | fold accumulator =>
    cases t with
    | array e =>
      cases h
      exact ⟨⟨by simp_all [FreeOperation], hop, freeForm_of_isProgram rfl⟩, nofun⟩
    | _ => cases h
  | foldThen accumulator result =>
    cases t with
    | array e =>
      cases h
      exact ⟨⟨by simp_all [FreeOperation], hop.2, freeForm_of_isProgram rfl⟩, nofun⟩
    | _ => cases h

theorem freeMethod_onGenerator {op : Operation} (ht : s.FreeType t)
    (h : op.onGenerator t = some m) : s.FreeMethod m ∧ m.form ≠ .membership := by
  have hposition : s.FreeName Form.positionName := freeName_of_isUnminted rfl
  have helement : s.FreeName Form.elementName := freeName_of_isUnminted rfl
  unfold Operation.onGenerator at h
  split at h
  all_goals cases h
  · exact ⟨⟨by simp, by simp, hposition.column⟩, nofun⟩
  · exact ⟨⟨by simp, by simp [ht], helement.column⟩, nofun⟩

theorem freeMethod_method? {op : Operation} {k : Kind} (hop : s.FreeOperation op)
    (hk : s.FreeKind k) (h : op.method? k = some m) :
    s.FreeMethod m ∧ (m.form = .membership → op = .method "is_in") := by
  cases k with
  | column t => exact freeMethod_onColumn hop hk h
  | generator t =>
    obtain ⟨hm, hform⟩ := freeMethod_onGenerator hk h
    exact ⟨hm, fun hmembership => absurd hmembership hform⟩
  | untyped _ | sortKey => cases h

/-- A source that supplies no name in which a name of a supply occurs. -/
def FreeSource (s : Supplies) : Source → Prop
  | .rowNumber | .rank | .denseRank | .currentDate | .currentTimestamp => True
  | .difference t | .case t | .arrayOf t | .arrayRepeat t | .sequence t => s.FreeType t
  | .mapOf _ t | .mapOfArrays _ t | .mapConcat _ t => s.FreeType t
  | .structOf r => s.FreeRecord r

theorem freeMethod_source {source : Source} (h : s.FreeSource source) :
    s.FreeMethod source.method ∧ source.method.form ≠ .membership := by
  cases source with
  | rowNumber | rank | denseRank | currentDate | currentTimestamp =>
    exact ⟨⟨by simp [Source.method], by simp [Source.method], freeForm_of_isProgram rfl⟩, nofun⟩
  | difference t | case t | arrayRepeat t | sequence t | mapOfArrays k t | mapConcat k t =>
    have ht : s.FreeType t := h
    exact ⟨⟨by simp [Source.method, ht], by simp [Source.method, ht], freeForm_of_isProgram rfl⟩,
      nofun⟩
  | arrayOf t =>
    have ht : s.FreeType t := h
    exact ⟨⟨ht, ht, fixed_of_isUnminted rfl, fixed_dataType (.array t) ht⟩, nofun⟩
  | mapOf k t =>
    have ht : s.FreeType t := h
    exact ⟨⟨⟨freeType_leaf k, ht⟩, ht, fixed_of_isUnminted rfl, fixed_dataType (.map k t) ht⟩, nofun⟩
  | structOf r =>
    have hr : s.FreeRecord r := h
    refine ⟨⟨?_, hr, hr.fieldNames⟩, nofun⟩
    simpa [Source.method] using fun m hm => (freeRecord_iff.mp hr m hm).2

end Supplies

/-! Scripts. -/

mutual

/-- A term of a script: the items that a membership takes are host values. -/
def Term.IsScript : Term → Prop
  | .host _ | .var _ | .reference _ _ | .scope _ | .range _ _ => True
  | .lambda _ body => body.IsScript
  | .ascribe _ term => term.IsScript
  | .make _ args | .zip args => Term.AreScripts args
  | .apply op args =>
    (op = .method "is_in" → ∀ t ∈ args.tail, ∃ j, t = .host j) ∧ Term.AreScripts args

def Term.AreScripts : List Term → Prop
  | [] => True
  | t :: ts => t.IsScript ∧ Term.AreScripts ts

end

namespace Supplies

mutual

/-- A term that supplies no name and no text in which a name of a supply occurs. The texts of a host
value count as they are written between quotes. -/
def FreeTerm (s : Supplies) : Term → Prop
  | .host value => ∀ a ∈ value.strings, s.Fixed (Text.quoteString a)
  | .var _ | .range _ _ => True
  | .lambda _ body => FreeTerm s body
  | .reference type expr => s.FreeType type ∧ s.FreeExpr expr
  | .ascribe type term => s.FreeType type ∧ FreeTerm s term
  | .scope record => s.FreeRecord record
  | .make source args => s.FreeSource source ∧ FreeTerms s args
  | .zip args => FreeTerms s args
  | .apply op args => s.FreeOperation op ∧ FreeTerms s args

def FreeTerms (s : Supplies) : List Term → Prop
  | [] => True
  | t :: ts => FreeTerm s t ∧ FreeTerms s ts

end

end Supplies

end Columnar
