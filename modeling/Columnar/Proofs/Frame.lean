import Columnar.Frame
import Columnar.Proofs.Record.Binding
import Columnar.Proofs.Record.Declared

/-! Whole runs of a typed frame. Each operation is one request to the handle, and what is asked for
depends on two things: the record of the last projection and the alias that was given since. -/
namespace Columnar

/-! Handles that keep a log. -/

/-- What a frame asks of its handle. -/
inductive FrameRequest
  | withAlias (name : String)
  | select (exprs : List Expr)
  | filter (predicate : Expr)
  | orderBy (keys : List Expr)

namespace FrameRequest

def call : FrameRequest → FrameCall
  | withAlias name => .withAlias name
  | select exprs => .select exprs
  | filter predicate => .filter predicate
  | orderBy keys => .orderBy keys

def send {H : Type} [FrameHandle H] (h : H) : FrameRequest → Except FrameError H
  | withAlias name => FrameHandle.withAlias h name
  | select exprs => FrameHandle.select h exprs
  | filter predicate => FrameHandle.filter h predicate
  | orderBy keys => FrameHandle.orderBy h keys

end FrameRequest

/-- A handle that may refuse any request, and whose log has the calls of those that it accepted. -/
class RecordingHandle (H : Type) extends FrameHandle H where
  calls : H → List FrameCall
  calls_of_send {h h' : H} {q : FrameRequest} (hsend : q.send h = .ok h') :
    calls h' = calls h ++ [q.call]

theorem Recorder.calls_of_record {r r' : Recorder} {operation : FrameOperation} {call : FrameCall}
    (h : r.record operation call = .ok r') : r'.calls.reverse = r.calls.reverse ++ [call] := by
  unfold record at h
  split at h
  · cases h
  · obtain rfl := Except.ok.inj h
    exact List.reverse_cons

instance : RecordingHandle Recorder where
  calls r := r.calls.reverse
  calls_of_send {_ _ q} h := by cases q <;> exact Recorder.calls_of_record h

/-! Records and what is asked for them. -/

/-- A valid record with names that are not empty and have no blanks around them. -/
structure TidyRecord where
  record : RecordType
  shape : RecordShape
  shape_eq : record.shape = .ok shape
  tidy : ∀ name ∈ shape.fieldNames, name ≠ "" ∧ Text.trim name.toList = name.toList

/-- The expressions of the members of a record. -/
def Schema.members (s : Schema) : List Expr := s.fields.map BoundField.expr

namespace TidyRecord

variable (r : TidyRecord)

def schema (tableAlias : Option String) : Schema := ⟨r.record, r.shape, tableAlias⟩

/-- The columns of the declared fields, in order. -/
def columns (tableAlias : Option String) : List Expr :=
  r.record.members.map fun m => .column tableAlias m.field

theorem schema_of : Schema.of r.record none = .ok (r.schema none) := by
  rw [Schema.of, r.shape_eq]
  rfl

theorem fieldNames_eq : r.shape.fieldNames = r.record.members.map RecordMember.field :=
  fieldNames_of_shape r.shape_eq

/-- The members of a schema are the columns of their fields under its alias. -/
theorem members_schema (tableAlias : Option String) :
    (r.schema tableAlias).members = r.columns tableAlias := by
  have hcolumns : r.columns tableAlias = r.shape.fields.map fun f => .column tableAlias f.name := by
    rw [fields_of_shape r.shape_eq, List.map_map]
    rfl
  have hmembers : (r.schema tableAlias).members = r.shape.fields.map fun f =>
      (Binding.ofAlias tableAlias).reference r.shape.fieldNames f.name := List.map_map
  rw [hmembers, hcolumns]
  refine List.map_congr_left fun f hf => ?_
  have hname : f.name ∈ r.shape.fieldNames := List.mem_map_of_mem hf
  cases tableAlias with
  | none => rfl
  | some tableAlias =>
    obtain ⟨hne, htrim⟩ := r.tidy f.name hname
    exact reference_of_readsWhole (.of_map _ (fieldNames_of_reflect r.shape_eq).2) hname
      ⟨hne, .inl htrim⟩

end TidyRecord

/-- An operation on a frame. A closure gets the expressions of the members; a projection gives one
for each member of its target. -/
inductive FrameStep
  | withAlias (name : String)
  | filter (predicate : List Expr → Expr)
  | filterText (text : String)
  | orderBy (keys : List Expr → List Expr)
  | select (target : TidyRecord)
    (projection : List Expr → Vector Expr target.record.members.length)

namespace FrameStep

def isSelect : FrameStep → Bool
  | select _ _ => true
  | _ => false

def alias? : FrameStep → Option String
  | withAlias name => some name
  | _ => none

def target? : FrameStep → Option TidyRecord
  | select target _ => some target
  | _ => none

/-- The record after some steps: the target of the last projection. -/
def recordAfter (start : TidyRecord) (steps : List FrameStep) : TidyRecord :=
  (steps.reverse.findSome? target?).getD start

/-- The alias after some steps: the last one given since the last projection. -/
def aliasAfter (steps : List FrameStep) : Option String :=
  (steps.reverse.takeWhile (!·.isSelect)).findSome? alias?

/-- What a step asks of the handle, for frames of a record under an alias. -/
def request (r : TidyRecord) (tableAlias : Option String) : FrameStep → FrameRequest
  | withAlias name => .withAlias name
  | filter predicate => .filter (predicate (r.columns tableAlias))
  | filterText text =>
    .filter (.raw (match tableAlias with
      | some name => qualify name (r.record.members.map RecordMember.field) text
      | none => text))
  | orderBy keys => .orderBy (keys (r.columns tableAlias))
  | select target projection =>
    .select (List.zipWith (fun e m => e.rename m.field) (projection (r.columns tableAlias)).toList
      target.record.members)

/-- What a step asks of the handle after other steps. -/
def requestAfter (start : TidyRecord) (steps : List FrameStep) (s : FrameStep) : FrameRequest :=
  s.request (recordAfter start steps) (aliasAfter steps)

end FrameStep

namespace Frame

variable {H : Type} [FrameHandle H]

def step (f : Frame H) : FrameStep → Except FrameError (Frame H)
  | .withAlias name => f.withAlias name
  | .filter predicate => f.filter fun s => predicate s.members
  | .filterText text => f.filterText text
  | .orderBy keys => f.orderBy fun s => keys s.members
  | .select target projection => f.select target.record fun s => (projection s.members).toList

/-- The frame after some steps, and those of them that were accepted. After a refused step the next
one is made on the same frame. -/
def run (f : Frame H) : List FrameStep → Frame H × List FrameStep
  | [] => (f, [])
  | s :: rest =>
    match f.step s with
    | .ok g =>
      let (last, accepted) := g.run rest
      (last, s :: accepted)
    | .error _ => f.run rest

theorem run_concat (f : Frame H) (steps : List FrameStep) (s : FrameStep) :
    f.run (steps ++ [s]) = match (f.run steps).1.step s with
      | .ok g => (g, (f.run steps).2 ++ [s])
      | .error _ => f.run steps := by
  induction steps generalizing f with
  | nil =>
    rw [List.nil_append, run, run]
    cases f.step s <;> rfl
  | cons t steps ih =>
    rw [List.cons_append, run, run]
    cases f.step t with
    | error e => exact ih f
    | ok g =>
      dsimp only
      rw [ih g]
      cases (g.run steps).1.step s <;> rfl

/-- One step is one request. -/
theorem step_eq (r : TidyRecord) (tableAlias : Option String) (h : H) (s : FrameStep) :
    step ⟨h, r.schema tableAlias⟩ s = ((s.request r tableAlias).send h).map
      (⟨·, (FrameStep.recordAfter r [s]).schema
        (if s.isSelect then none else s.alias?.or tableAlias)⟩) := by
  cases s with
  | withAlias name => rfl
  | filter predicate =>
    rw [step, filter, r.members_schema]
    rfl
  | filterText text =>
    have hqualify : (r.schema tableAlias).qualify text = (match tableAlias with
        | some name => qualify name (r.record.members.map RecordMember.field) text
        | none => text) := by
      rw [← r.fieldNames_eq]
      rfl
    rw [step, filterText, filter, hqualify]
    rfl
  | orderBy keys =>
    rw [step, orderBy, r.members_schema]
    rfl
  | select target projection =>
    rw [step, select, target.schema_of, r.members_schema]
    dsimp only
    have hnames : (target.schema none).fieldNames = target.record.members.map RecordMember.field :=
      target.fieldNames_eq
    rw [hnames, List.zipWith_map_right]
    rfl

end Frame

namespace FrameStep

variable {r : TidyRecord} {steps : List FrameStep} {s : FrameStep}

theorem recordAfter_concat : recordAfter r (steps ++ [s]) = recordAfter (recordAfter r steps) [s] := by
  unfold recordAfter
  rw [List.reverse_append, List.findSome?_append]
  cases List.findSome? target? [s].reverse <;> rfl

theorem aliasAfter_concat :
    aliasAfter (steps ++ [s]) = if s.isSelect then none else s.alias?.or (aliasAfter steps) := by
  unfold aliasAfter
  rw [List.reverse_concat, List.takeWhile_cons]
  cases s <;> rfl

/-- The steps that come later do not change what the earlier ones asked for. -/
theorem mapIdx_call_concat :
    (steps ++ [s]).mapIdx (fun i t => (t.requestAfter r ((steps ++ [s]).take i)).call) =
      steps.mapIdx (fun i t => (t.requestAfter r (steps.take i)).call) ++
        [(s.requestAfter r steps).call] := by
  rw [List.mapIdx_concat, List.take_left]
  congr 1
  refine List.mapIdx_eq_mapIdx_iff.mpr fun i hi => ?_
  rw [List.take_append_of_le_length (Nat.le_of_lt hi)]

end FrameStep

namespace Frame

variable {H : Type} [RecordingHandle H]

/-- What holds of a frame after some steps: its schema is that of the last projection, under the alias
that was given since, and the log has a call for each of the steps. -/
structure Follows (start : TidyRecord) (h : H) (steps : List FrameStep) (f : Frame H) : Prop where
  schema : f.schema = (FrameStep.recordAfter start steps).schema (FrameStep.aliasAfter steps)
  calls : RecordingHandle.calls f.handle = RecordingHandle.calls h ++
    steps.mapIdx fun i s => (s.requestAfter start (steps.take i)).call

namespace Follows

variable {start : TidyRecord} {h : H} {steps : List FrameStep} {f g : Frame H} {s : FrameStep}

theorem nil : Follows start h [] ⟨h, start.schema none⟩ := ⟨rfl, (List.append_nil _).symm⟩

theorem step_eq (hf : Follows start h steps f) :
    f.step s = ((s.requestAfter start steps).send f.handle).map
      (⟨·, (FrameStep.recordAfter start (steps ++ [s])).schema
        (FrameStep.aliasAfter (steps ++ [s]))⟩) := by
  obtain ⟨handle, schema⟩ := f
  obtain rfl := hf.schema
  rw [Frame.step_eq, FrameStep.recordAfter_concat, FrameStep.aliasAfter_concat]
  rfl

theorem concat (hf : Follows start h steps f) (hg : f.step s = .ok g) :
    Follows start h (steps ++ [s]) g := by
  rw [hf.step_eq] at hg
  obtain ⟨handle, hsend, rfl⟩ := map_eq_ok_iff.mp hg
  refine ⟨rfl, ?_⟩
  rw [RecordingHandle.calls_of_send hsend, hf.calls, FrameStep.mapIdx_call_concat, List.append_assoc]

end Follows

theorem follows_run (start : TidyRecord) (h : H) (steps : List FrameStep) :
    Follows start h (run ⟨h, start.schema none⟩ steps).2 (run ⟨h, start.schema none⟩ steps).1 := by
  -- From the end: the last step is made on the frame that the steps in front of it leave.
  induction steps using List.reverseRecOn with
  | nil => exact .nil
  | append_singleton steps s ih =>
    rw [run_concat]
    cases hstep : (run ⟨h, start.schema none⟩ steps).1.step s with
    | error e => exact ih
    | ok g => exact ih.concat hstep

end Frame

theorem Expr.outputName?_rename (e : Expr) (name : String) : (e.rename name).outputName? = some name := by
  cases e <;> rfl

/-- A projection selects one expression for each member of its target, under the name of its field. -/
theorem FrameStep.exists_request_select (r : TidyRecord) (tableAlias : Option String)
    (target : TidyRecord) (projection : List Expr → Vector Expr target.record.members.length) :
    ∃ exprs, (FrameStep.select target projection).request r tableAlias = .select exprs ∧
      exprs.map Expr.outputName? = target.record.members.map fun m => some m.field := by
  refine ⟨_, rfl, ?_⟩
  have hlength : (projection (r.columns tableAlias)).toList.length = target.record.members.length :=
    Vector.length_toList
  refine List.ext_getElem ?_ fun i _ _ => ?_
  · rw [List.length_map, List.length_zipWith, hlength, Nat.min_self, List.length_map]
  · rw [List.getElem_map, List.getElem_zipWith, Expr.outputName?_rename, List.getElem_map]

/-- A frame follows its handle through every run. A step is one request, in which each member is the
column of its declared field under the last alias since the last projection; the log has the requests
of the accepted steps in order. When the handle refuses one, its error is that of the step, and the
run goes on with the frame as it was. -/
theorem Frame.run_requests {H : Type} [RecordingHandle H] (start : TidyRecord) (h : H)
    (steps : List FrameStep) :
    ∃ f, Frame.of h start.record = .ok f ∧
      let g := (f.run steps).1
      let accepted := (f.run steps).2
      let r := FrameStep.recordAfter start accepted
      let tableAlias := FrameStep.aliasAfter accepted
      g.schema = r.schema tableAlias ∧
        g.schema.members = r.columns tableAlias ∧
        RecordingHandle.calls g.handle = RecordingHandle.calls h ++
          accepted.mapIdx (fun i s => (s.requestAfter start (accepted.take i)).call) ∧
        (∀ s, g.step s = ((s.request r tableAlias).send g.handle).map
          (⟨·, (FrameStep.recordAfter start (accepted ++ [s])).schema
            (FrameStep.aliasAfter (accepted ++ [s]))⟩)) ∧
        (∀ s e, (s.request r tableAlias).send g.handle = .error e →
          g.step s = .error e ∧ f.run (steps ++ [s]) = (g, accepted)) ∧
        (∀ s next, g.step s = .ok next → f.run (steps ++ [s]) = (next, accepted ++ [s])) ∧
        ∀ target projection, ∃ exprs,
          (FrameStep.select target projection).request r tableAlias = .select exprs ∧
            exprs.map Expr.outputName? = target.record.members.map fun m => some m.field := by
  refine ⟨⟨h, start.schema none⟩, ?_, ?_⟩
  · rw [Frame.of, start.schema_of]
  intro g accepted r tableAlias
  have hfollows : Follows start h accepted g := follows_run start h steps
  refine ⟨hfollows.schema, ?_, hfollows.calls, fun s => hfollows.step_eq, fun s e hsend => ?_,
    fun s next hstep => ?_, FrameStep.exists_request_select r tableAlias⟩
  · rw [hfollows.schema, TidyRecord.members_schema]
  · have hstep : g.step s = .error e := by
      rw [hfollows.step_eq]
      exact congrArg (Except.map _) hsend
    refine ⟨hstep, ?_⟩
    rw [run_concat, hstep]
  · rw [run_concat, hstep]

/-! A pipeline whose handle does not order rows. -/

def employee : TidyRecord where
  record := .declare "Employee" [⟨"id", "id", .integer⟩, ⟨"name", "Name", .string⟩]
  shape := ⟨"Employee", [.mk "id" .integer true, .mk "Name" .string true]⟩
  shape_eq := rfl
  tidy := by decide

def person : TidyRecord where
  record := .declare "Person" [⟨"name", "Name", .string⟩, ⟨"number", "number", .integer⟩]
  shape := ⟨"Person", [.mk "Name" .string true, .mk "number" .integer true]⟩
  shape_eq := rfl
  tidy := by decide

def pipeline : List FrameStep :=
  [.withAlias "e", .filterText "id > 1", .orderBy id, .select person fun members => ⟨#[
    members.getD 1 (.raw ""), members.getD 0 (.raw "")], rfl⟩]

theorem Frame.run_requests_pipeline :
    ∃ f, Frame.of ({ refusals := [.orderBy] } : Recorder) employee.record = .ok f ∧
      (f.run pipeline).1.handle.log false =
        ["alias e", "filter e.id > 1", "select e.Name AS Name, e.id AS number"] ∧
      (f.run pipeline).1.schema.members = [.column none "Name", .column none "number"] := by
  obtain ⟨f, hf, -, hmembers, -⟩ :=
    run_requests employee ({ refusals := [.orderBy] } : Recorder) pipeline
  obtain rfl := Except.ok.inj hf
  exact ⟨_, rfl, rfl, hmembers⟩

end Columnar
