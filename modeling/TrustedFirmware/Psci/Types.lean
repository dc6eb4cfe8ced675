import Mathlib.Tactic.Common

/-!
# The enumerations of `psci.h` shared by the PSCI models
-/

namespace TrustedFirmware.Psci

/-- `aff_info_state_t`: the state of a CPU as seen by `PSCI_AFFINITY_INFO`. -/
inductive AffInfoState
  | on
  | off
  | onPending
  deriving Repr, DecidableEq

/-- The `PSCI_E_*` return codes of the modelled calls. -/
inductive PsciRc
  | success
  | invalidParams
  | denied
  | alreadyOn
  | onPending
  | internFail
  deriving Repr, DecidableEq

end TrustedFirmware.Psci
