import Columnar.Record.Schema

/-! Typed frames. The engine keeps the frame itself and is reached through a handle, which knows
expressions only; beside the handle stands the schema of the rows. A refused operation leaves the
frame that it was made on as it was. -/
namespace Columnar

inductive JoinKind
  | inner
  | leftOuter
  | rightOuter
  | fullOuter
  | leftSemi
  | leftAnti
  deriving DecidableEq, Repr

def JoinKind.text : JoinKind → String
  | inner => "inner"
  | leftOuter => "left_outer"
  | rightOuter => "right_outer"
  | fullOuter => "full_outer"
  | leftSemi => "left_semi"
  | leftAnti => "left_anti"

inductive FrameOperation
  | withAlias
  | select
  | filter
  | join
  | orderBy
  deriving DecidableEq, Repr

def FrameOperation.name : FrameOperation → String
  | withAlias => "alias"
  | select => "select"
  | filter => "filter"
  | join => "join"
  | orderBy => "order_by"

inductive FrameError
  | schema (error : SchemaError)
  | refused (operation : FrameOperation) (reason : String)

def FrameError.message : FrameError → String
  | schema error => error.message
  | refused operation reason => "Engine rejected `" ++ operation.name ++ "`: " ++ reason

class FrameHandle (H : Type) where
  withAlias : H → String → Except FrameError H
  select : H → List Expr → Except FrameError H
  filter : H → Expr → Except FrameError H
  join : H → H → Expr → JoinKind → Except FrameError H
  orderBy : H → List Expr → Except FrameError H

/-- An engine frame whose rows have the shape of a record. -/
structure Frame (H : Type) where
  handle : H
  schema : Schema

namespace Frame

variable {H : Type}

/-- A frame over a handle whose rows are known to have the shape of the record. -/
def of (handle : H) (record : RecordType) : Except FrameError (Frame H) :=
  match Schema.of record none with
  | .ok schema => .ok ⟨handle, schema⟩
  | .error e => .error (.schema e)

variable [FrameHandle H]

def withAlias (f : Frame H) (tableAlias : String) : Except FrameError (Frame H) :=
  (FrameHandle.withAlias f.handle tableAlias).map (⟨·, f.schema.withAlias tableAlias⟩)

def filter (f : Frame H) (predicate : Schema → Expr) : Except FrameError (Frame H) :=
  (FrameHandle.filter f.handle (predicate f.schema)).map (⟨·, f.schema⟩)

def filterText (f : Frame H) (text : String) : Except FrameError (Frame H) :=
  f.filter fun s => .raw (s.qualify text)

def orderBy (f : Frame H) (keys : Schema → List Expr) : Except FrameError (Frame H) :=
  (FrameHandle.orderBy f.handle (keys f.schema)).map (⟨·, f.schema⟩)

/-- Projects the rows into a record; each of its fields gets the expression of its member under the
name of the field. The result has no alias. -/
def select (f : Frame H) (target : RecordType) (members : Schema → List Expr) :
    Except FrameError (Frame H) :=
  match Schema.of target none with
  | .error e => .error (.schema e)
  | .ok schema =>
    let exprs := List.zipWith (fun e name => e.rename name) (members f.schema) schema.fieldNames
    (FrameHandle.select f.handle exprs).map (⟨·, schema⟩)

/-- Selects expressions given as texts. The shape of the result is not known. -/
def selectTexts (f : Frame H) (texts : List String) : Except FrameError H :=
  FrameHandle.select f.handle (texts.map fun t => Expr.ofReference (f.schema.qualify t))

/-- Joins two frames. The rows of the result combine both shapes. -/
def join (f g : Frame H) (kind : JoinKind) (condition : Schema → Schema → Expr) :
    Except FrameError H :=
  FrameHandle.join f.handle g.handle (condition f.schema g.schema) kind

end Frame

inductive FrameCall
  | withAlias (name : String)
  | select (exprs : List Expr)
  | filter (predicate : Expr)
  | join (kind : JoinKind) (condition : Expr) (right : List FrameCall)
  | orderBy (keys : List Expr)

/-- A handle that keeps the calls that it receives, the last one first, and refuses some. -/
structure Recorder where
  calls : List FrameCall := []
  refusals : List FrameOperation := []

namespace Recorder

/-- Keeps a call unless its operation is refused. -/
def record (r : Recorder) (operation : FrameOperation) (call : FrameCall) :
    Except FrameError Recorder :=
  if operation ∈ r.refusals then .error (.refused operation (operation.name ++ " is disabled"))
  else .ok { r with calls := call :: r.calls }

instance : FrameHandle Recorder where
  withAlias r name := r.record .withAlias (.withAlias name)
  select r exprs := r.record .select (.select exprs)
  filter r predicate := r.record .filter (.filter predicate)
  join r other condition kind := r.record .join (.join kind condition other.calls)
  orderBy r keys := r.record .orderBy (.orderBy keys)

end Recorder

mutual

def FrameCall.lines (force : Bool) : FrameCall → List String
  | .withAlias name => ["alias " ++ name]
  | .select exprs => ["select " ++ Expr.listText force exprs]
  | .filter predicate => ["filter " ++ predicate.text force]
  | .join kind condition right =>
    (kind.text ++ " join on " ++ condition.text force) ::
      (FrameCall.log force right).map ("  right: " ++ ·)
  | .orderBy keys => ["order by " ++ Expr.listText force keys]

/-- The log of calls, of which the last is given first. -/
def FrameCall.log (force : Bool) : List FrameCall → List String
  | [] => []
  | call :: earlier => FrameCall.log force earlier ++ FrameCall.lines force call

end

def Recorder.log (r : Recorder) (force : Bool) : List String := FrameCall.log force r.calls

end Columnar
