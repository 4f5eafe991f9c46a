import Columnar.Expr.Basic
import Columnar.Text.Case

/-! Migrating a struct to another list of fields: fields that are missing are added from columns of
the same names, fields that are not wanted are dropped, all others are kept. -/
namespace Columnar

/-- Field names are found ignoring ASCII case. -/
def hasName (names : List String) (name : String) : Bool := names.any (Text.sameName · name)

structure MigrationPlan where
  added : List String
  dropped : List String
  deriving DecidableEq, Repr

namespace MigrationPlan

/-- The plan from one list of fields to another; additions are in target order, removals in source
order. -/
def between (source target : List String) : MigrationPlan :=
  ⟨target.filter (!hasName source ·), source.filter (!hasName target ·)⟩

def isNoop (p : MigrationPlan) : Bool := p.added.isEmpty && p.dropped.isEmpty

/-- One `withField` for each addition, inside one `dropFields` for all removals. -/
def apply (p : MigrationPlan) (source : Expr) : Expr :=
  let extended := p.added.foldl (fun e name => .withField e name (.column none name)) source
  if p.dropped.isEmpty then extended else .dropFields extended p.dropped

end MigrationPlan

end Columnar
