import Columnar.CommandLine.EnvironmentFile
import Columnar.CommandLine.Help
import Columnar.Config.Source
import Columnar.DataType.Schema
import Columnar.Expr.Printer
import Columnar.Record.Document
import Columnar.Record.Migration

/-! Running a command: what it prints, and how it ends. Files are read through a function that gives
their content or the reason why there is none. -/
namespace Columnar.CommandLine

structure Output where
  code : Nat
  stdout : String
  stderr : String
  deriving DecidableEq, Repr

/-- An error with the reasons for it, the nearest first. -/
structure Failure where
  message : String
  causes : List String

namespace Failure

def ofSchema (e : SchemaError) : Failure :=
  ⟨e.message, match e with
    | .badType _ cause => [cause.message]
    | _ => []⟩

/-- An error in the settings, met while doing something. -/
def ofConfig (context : String) (e : ConfigError) : Failure := ⟨context, e.message :: e.causes⟩

def indented (margin text : String) : String :=
  String.ofList (text.toList.flatMap fun c => if c = '\n' then '\n' :: margin.toList else [c])

def numbered : Nat → List String → String
  | _, [] => ""
  | n, cause :: rest =>
    "\n" ++ String.ofList (List.replicate (5 - (Number.digits n).length) ' ') ++ Number.natural n ++
      ": " ++ indented "       " cause ++ numbered (n + 1) rest

def causesText : List String → String
  | [] => ""
  | [cause] => "\n\nCaused by:\n    " ++ indented "    " cause
  | causes => "\n\nCaused by:" ++ numbered 0 causes

def text (f : Failure) : String := "Error: " ++ f.message ++ causesText f.causes ++ "\n"

end Failure

/-- The settings: those of a file if one is named, else those of the environment. -/
def settings {m : Type → Type} [Monad m] (readFile : String → m (Except String String))
    (vars : Variables) (path : Option String) : m (Except Failure Config) := do
  match path with
  | some path => do
    let file ← readFile path
    pure ((Config.ofFile file).mapError (.ofConfig ("loading config " ++ path)))
  | none =>
    pure ((Config.ofEnvironment (vars.lookup ·)).mapError
      (.ofConfig "reading config from environment"))

def fieldLine (force : Bool) (f : BoundField) : String :=
  f.name ++ "\t" ++ f.type.text ++ "\t" ++ f.expr.text force ++ "\n"

def describe (force : Bool) (file : Except String String) (tableAlias : Option String) :
    Except SchemaError String := do
  let definition ← RecordDefinition.ofFile file
  let shape ← definition.shape
  let fields ← definition.bind tableAlias
  .ok (shape.dataType.toJson.pretty 0 ++ "\n" ++ String.join (fields.map (fieldLine force)))

def shapeOfFile (file : Except String String) : Except SchemaError RecordShape := do
  (← RecordDefinition.ofFile file).shape

/-- The plan from one record to another, a field on a line. -/
def planText (source target : RecordShape) : String :=
  let plan := MigrationPlan.between source.fieldNames target.fieldNames
  (if plan.isNoop then source.name ++ " and " ++ target.name ++ " have the same fields\n" else "") ++
    String.join (plan.added.map fun name => "+ " ++ name ++ "\n") ++
    String.join (plan.dropped.map fun name => "- " ++ name ++ "\n")

def perform {m : Type → Type} [Monad m] (readFile : String → m (Except String String))
    (c : Config) : Command → m (Except Failure String)
  | .qualify tableAlias fields text => pure (.ok (qualify tableAlias fields text ++ "\n"))
  | .describe definition tableAlias => do
    let file ← readFile definition
    pure ((describe c.quoteIdentifiers file tableAlias).mapError .ofSchema)
  | .migrate source target => do
    match shapeOfFile (← readFile source) with
    | .error e => pure (.error (.ofSchema e))
    | .ok source => do
      match shapeOfFile (← readFile target) with
      | .error e => pure (.error (.ofSchema e))
      | .ok target => pure (.ok (planText source target))

/-- Runs the program on its arguments. The environment is completed from a file in the working
directory, if there is one. -/
def run {m : Type → Type} [Monad m] (readFile : String → m (Except String String))
    (vars : Variables) (args : List String) : m Output := do
  match Invocation.ofArguments args with
  | .error (.help topic) => pure ⟨0, topic.text, ""⟩
  | .error .version => pure ⟨0, versionText, ""⟩
  | .error (.usage message) => pure ⟨2, "", "error: " ++ message ++ "\n"⟩
  | .ok invocation => do
    let vars := match ← readFile ".env" with
      | .ok file => completeFrom file vars
      | .error _ => vars
    match ← settings readFile vars invocation.config with
    | .error f => pure ⟨1, "", f.text⟩
    | .ok c => do
      match ← perform readFile c invocation.command with
      | .error f => pure ⟨1, "", f.text⟩
      | .ok out => pure ⟨0, out, ""⟩

end Columnar.CommandLine
