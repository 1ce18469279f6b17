/-!
# Reports of errors

Every kind of error has its message and the messages of its causes, outermost first. An error that
is passed on without its kind is kept as the `Report` of it.
-/

set_option autoImplicit false

namespace Lockstep

structure Report where
  message : String
  causes : List String := []
  deriving Repr, DecidableEq

/-- Errors that can be reported. -/
class Reportable (ε : Type) where
  message : ε → String
  /-- The messages of the causes, outermost first. -/
  causes : ε → List String := fun _ => []

def Report.of {ε : Type} [Reportable ε] (e : ε) : Report :=
  ⟨Reportable.message e, Reportable.causes e⟩

/-- The report as a cause: its message, then what caused it. -/
def Report.chain (r : Report) : List String := r.message :: r.causes

/-- The chain of causes that starts with `e` itself. -/
def chain {ε : Type} [Reportable ε] (e : ε) : List String := (Report.of e).chain

end Lockstep
