import Timeshare.Policy.Standard

/-!
# Configuration

A configuration sets the size of the memory, the number of resident pages, and
the policy with its tunables. None of its numbers may be zero. Of several zeros
the first one in the order of `ConfigError` is reported.
-/

namespace Timeshare

/-- Why a configuration cannot be used. -/
inductive ConfigError
  | zeroMemory
  | zeroResidentPages
  | zeroQuantum
  | zeroAgingThreshold
  | zeroDemotionThreshold
  deriving DecidableEq

/-- The text of a configuration error. -/
def ConfigError.message : ConfigError → String
  | zeroMemory => "memory size must be non-zero"
  | zeroResidentPages => "resident page limit must be non-zero"
  | zeroQuantum => "base quantum must be non-zero"
  | zeroAgingThreshold => "aging threshold must be non-zero"
  | zeroDemotionThreshold => "demotion threshold must be non-zero"

/-- The configuration of a machine; by default one of a mebibyte under round
robin. -/
structure Config extends PolicyParams where
  /-- The size of the address space in bytes. -/
  memorySize : Nat := 1024 * 1024
  /-- The limit of resident pages; without one, every page may be resident. -/
  residentPages : Option Nat := none
  policy : PolicyKind := .roundRobin
  deriving DecidableEq

namespace Config

/-- The policy that a configuration asks for. -/
def buildPolicy (c : Config) : Policy := c.policy.build c.toPolicyParams

/-- Refuses a configuration with a zero in it. -/
def validate (c : Config) : Except ConfigError Unit :=
  if c.memorySize = 0 then .error .zeroMemory
  else if c.residentPages = some 0 then .error .zeroResidentPages
  else if c.baseQuantum = 0 then .error .zeroQuantum
  else if c.agingThreshold = 0 then .error .zeroAgingThreshold
  else if c.demotionThreshold = 0 then .error .zeroDemotionThreshold
  else .ok ()

/-- A configuration is accepted exactly when none of its numbers is zero. -/
theorem validate_eq_ok_iff (c : Config) :
    c.validate = .ok () ↔
      c.memorySize ≠ 0 ∧ c.residentPages ≠ some 0 ∧ c.baseQuantum ≠ 0 ∧
        c.agingThreshold ≠ 0 ∧ c.demotionThreshold ≠ 0 := by
  unfold validate
  repeat' split
  all_goals simp_all

end Config

end Timeshare
