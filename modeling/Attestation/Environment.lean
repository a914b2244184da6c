/-!
# Environment variables

The named texts that a program is started with.
-/

namespace Attestation

/-- The environment variables, with their values. -/
structure Environment where
  bindings : List (String × String) := []
  deriving DecidableEq, Repr, Inhabited

/-- The value of a variable, if it is set. -/
def Environment.get? (e : Environment) (name : String) : Option String :=
  (e.bindings.find? (·.1 = name)).map (·.2)

end Attestation
