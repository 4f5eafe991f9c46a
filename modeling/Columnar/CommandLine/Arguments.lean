/-! The arguments of the command line: options in front of and behind the command, and the operands of
the command. Arguments are read from left to right, and the first one out of place is reported. -/
namespace Columnar.CommandLine

inductive Topic
  | overview
  | qualify
  | describe
  | migrate
  deriving DecidableEq, Repr

inductive Command
  | qualify (tableAlias : String) (fields : List String) (text : String)
  | describe (definition : String) (tableAlias : Option String)
  | migrate (source target : String)
  deriving DecidableEq, Repr

structure Invocation where
  config : Option String
  command : Command
  deriving DecidableEq, Repr

/-- Why no command is run. -/
inductive Halt
  | help (topic : Topic)
  | version
  | usage (message : String)
  deriving DecidableEq, Repr

structure OptionRule where
  name : String
  isRepeatable : Bool := false
  isPath : Bool := false

structure Grammar where
  topic : Topic
  options : List OptionRule
  operands : Nat
  hasPaths : Bool

/-- Options with their values, and operands, in the order in which they were given. -/
structure Given where
  options : List (String × String) := []
  operands : List String := []

namespace Given

/-- The last value of an option. -/
def value? (g : Given) (name : String) : Option String :=
  ((g.options.filter (·.1 == name)).map Prod.snd).getLast?

def values (g : Given) (name : String) : List String :=
  (g.options.filter (·.1 == name)).map Prod.snd

def addOption (g : Given) (rule : OptionRule) (value : String) : Except Halt Given :=
  if rule.isPath && value == "" then
    .error (.usage ("a value is required for '--" ++ rule.name ++ "'"))
  else if !rule.isRepeatable && (g.value? rule.name).isSome then
    .error (.usage ("the argument '--" ++ rule.name ++ "' cannot be used multiple times"))
  else .ok { g with options := g.options ++ [(rule.name, value)] }

def addOperand (g : Given) (grammar : Grammar) (value : String) : Except Halt Given :=
  if grammar.operands ≤ g.operands.length then
    .error (.usage ("unexpected argument '" ++ value ++ "' found"))
  else if grammar.hasPaths && value == "" then .error (.usage "a value is required for an operand")
  else .ok { g with operands := g.operands ++ [value] }

def addOperands (g : Given) (grammar : Grammar) : List String → Except Halt Given
  | [] => .ok g
  | value :: rest => do
    let g ← g.addOperand grammar value
    g.addOperands grammar rest

end Given

inductive Shape
  | separator
  | long (name : String) (value : Option String)
  | short (letter : Char)
  | word

/-- A hyphen by itself is a word. -/
def shapeOf (arg : String) : Shape :=
  match arg.toList with
  | '-' :: '-' :: [] => .separator
  | '-' :: '-' :: name =>
    match name.dropWhile (· != '=') with
    | [] => .long (String.ofList name) none
    | _ :: value => .long (String.ofList (name.takeWhile (· != '='))) (some (String.ofList value))
  | '-' :: c :: _ => .short c
  | _ => .word

/-- Whether an argument may be the value of the option in front of it. -/
def isValue (arg : String) : Bool :=
  match shapeOf arg with
  | .word => true
  | _ => false

def unexpected {α : Type} (arg : String) : Except Halt α :=
  .error (.usage ("unexpected argument '" ++ arg ++ "' found"))

/-- Reads the arguments of a command. `pending` is an option that still waits for its value. -/
def readGiven (grammar : Grammar) (pending : Option OptionRule) (g : Given) :
    List String → Except Halt Given
  | [] =>
    match pending with
    | none => .ok g
    | some rule => .error (.usage ("a value is required for '--" ++ rule.name ++ "'"))
  | arg :: rest =>
    match pending with
    | some rule =>
      if isValue arg then do
        let g ← g.addOption rule arg
        readGiven grammar none g rest
      else .error (.usage ("a value is required for '--" ++ rule.name ++ "'"))
    | none =>
      match shapeOf arg with
      | .separator => g.addOperands grammar rest
      | .short 'h' | .long "help" none => .error (.help grammar.topic)
      | .short _ => unexpected arg
      | .long name value =>
        match grammar.options.find? (·.name == name), value with
        | some rule, some value => do
          let g ← g.addOption rule value
          readGiven grammar none g rest
        | some rule, none => readGiven grammar (some rule) g rest
        | none, _ => unexpected arg
      | .word => do
        let g ← g.addOperand grammar arg
        readGiven grammar none g rest

/-- The file of settings may be named in front of the command and behind it. -/
def configRule : OptionRule := { name := "config", isPath := true }

def qualifyGrammar : Grammar :=
  ⟨.qualify, [{ name := "alias" }, { name := "field", isRepeatable := true }, configRule], 1, false⟩

def describeGrammar : Grammar := ⟨.describe, [{ name := "alias" }, configRule], 1, true⟩

def migrateGrammar : Grammar := ⟨.migrate, [configRule], 2, true⟩

def missing {α : Type} (what : String) : Except Halt α :=
  .error (.usage ("the following required arguments were not provided: " ++ what))

/-- The command that a name and its arguments stand for. A file of settings named behind the command
counts before one named in front of it. -/
def readCommand (config : Option String) (name : String) (args : List String) :
    Except Halt Invocation :=
  match name with
  | "qualify" => do
    let g ← readGiven qualifyGrammar none {} args
    match g.value? "alias", g.operands with
    | some tableAlias, [text] =>
      .ok ⟨(g.value? "config").or config, .qualify tableAlias (g.values "field") text⟩
    | _, _ => missing "--alias <ALIAS> <EXPR>"
  | "describe" => do
    let g ← readGiven describeGrammar none {} args
    match g.operands with
    | [definition] =>
      .ok ⟨(g.value? "config").or config, .describe definition (g.value? "alias")⟩
    | _ => missing "<DEFINITION>"
  | "migrate" => do
    let g ← readGiven migrateGrammar none {} args
    match g.operands with
    | [source, target] => .ok ⟨(g.value? "config").or config, .migrate source target⟩
    | _ => missing "<FROM> <TO>"
  | "help" =>
    match args with
    | [] => .error (.help .overview)
    | ["qualify"] => .error (.help .qualify)
    | ["describe"] => .error (.help .describe)
    | ["migrate"] => .error (.help .migrate)
    | arg :: _ => .error (.usage ("unrecognized subcommand '" ++ arg ++ "'"))
  | other => .error (.usage ("unrecognized subcommand '" ++ other ++ "'"))

/-- Reads the arguments in front of the command, and then the command. -/
def readArguments (waiting : Bool) (config : Option String) : List String → Except Halt Invocation
  | [] => .error (.usage "a command is required")
  | arg :: rest =>
    if waiting then
      if isValue arg && arg != "" then readArguments false (some arg) rest
      else .error (.usage "a value is required for '--config'")
    else
      match shapeOf arg with
      | .short 'h' | .long "help" none => .error (.help .overview)
      | .short 'V' | .long "version" none => .error .version
      | .long "config" value =>
        if config.isSome then
          .error (.usage "the argument '--config' cannot be used multiple times")
        else match value with
          | none => readArguments true none rest
          | some "" => .error (.usage "a value is required for '--config'")
          | some path => readArguments false (some path) rest
      | .word => readCommand config arg rest
      | _ => unexpected arg

def Invocation.ofArguments (args : List String) : Except Halt Invocation :=
  readArguments false none args

end Columnar.CommandLine
