import Columnar.CommandLine.Arguments

/-! What the program says about itself. -/
namespace Columnar.CommandLine

def versionText : String := "typedframe 0.3.0-dev\n"

def configHelp : String :=
  "      --config <CONFIG>  YAML file with expression rendering settings (defaults to environment)\n"

def helpHelp : String := "  -h, --help             Print help\n"

def Topic.text : Topic → String
  | overview =>
    "Statically typed column algebra compiled to untyped dataframe engine expressions\n\n" ++
    "Usage: typedframe [OPTIONS] <COMMAND>\n\n" ++
    "Commands:\n" ++
    "  qualify   Qualify bare field references in an expression with a table alias\n" ++
    "  describe  Validate a record definition and print its descriptor and bound fields\n" ++
    "  migrate   Print the field additions and removals between two record definitions\n" ++
    "  help      Print this message or the help of the given subcommand(s)\n\n" ++
    "Options:\n" ++ configHelp ++ helpHelp ++
    "  -V, --version          Print version\n"
  | qualify =>
    "Qualify bare field references in an expression with a table alias\n\n" ++
    "Usage: typedframe qualify [OPTIONS] --alias <ALIAS> <EXPR>\n\n" ++
    "Arguments:\n" ++
    "  <EXPR>  Expression text\n\n" ++
    "Options:\n" ++
    "      --alias <ALIAS>    Table alias to prefix\n" ++ configHelp ++
    "      --field <FIELDS>   Field name to qualify (repeatable)\n" ++ helpHelp
  | describe =>
    "Validate a record definition and print its descriptor and bound fields\n\n" ++
    "Usage: typedframe describe [OPTIONS] <DEFINITION>\n\n" ++
    "Arguments:\n" ++
    "  <DEFINITION>  \n\n" ++
    "Options:\n" ++
    "      --alias <ALIAS>    Qualify field references with this alias\n" ++ configHelp ++ helpHelp
  | migrate =>
    "Print the field additions and removals between two record definitions\n\n" ++
    "Usage: typedframe migrate [OPTIONS] <FROM> <TO>\n\n" ++
    "Arguments:\n" ++
    "  <FROM>  \n" ++
    "  <TO>    \n\n" ++
    "Options:\n" ++ configHelp ++ helpHelp

end Columnar.CommandLine
