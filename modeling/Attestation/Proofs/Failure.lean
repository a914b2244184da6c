import Attestation.Failure

/-!
# Failures

A result that has been given a cause or a context of failure is the same result when it
succeeds.

## Design notes

A chain of causes is only of interest when something fails.  For a run that succeeds these
steps are not there, and the lemmas remove them where a successful run is taken apart.
-/

namespace Attestation

theorem orFail_eq_ok_iff {ε α : Type} {cause : ε → Cause} {result : Except ε α} {a : α} :
    orFail cause result = .ok a ↔ result = .ok a := by
  cases result with
  | ok b =>
      show (Except.ok b : Except Failure α) = .ok a ↔ _
      rw [Except.ok.injEq, Except.ok.injEq]
  | error e => constructor <;> nofun

theorem inContext_eq_ok_iff {α : Type} {context : String} {result : Except Failure α} {a : α} :
    inContext context result = .ok a ↔ result = .ok a := by
  cases result with
  | ok b => exact Iff.rfl
  | error e => constructor <;> nofun

end Attestation
