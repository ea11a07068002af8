import Ahjoor.Async.Discipline
import Ahjoor.Users.UsersService
import Mathlib.Data.List.AList
import Mathlib.Data.Rat.Defs

/-!
# `FeatureFlagService`: setting and deleting flags

All flags live in one record, which is one value of Redis. A call reads the record, changes its own
entry, and writes the whole record back. `RedisService` logs a command that fails and goes on: a
failed read is answered as if nothing were stored, and a failed write leaves what is stored.

The order of the record's keys is not kept. The local cache of an instance is left out: what is
stored does not depend on it.
-/

namespace Ahjoor.FeatureFlags

open Async Users

/-! ### Flags -/

inductive TargetingStrategy
  | ENABLED_FOR_ALL
  | ENABLED_FOR_PERCENTAGE
  | ENABLED_FOR_USERS
  | ENABLED_FOR_ROLES
  | DISABLED
  deriving DecidableEq, Repr

/-- What a call asks for: `Partial<FeatureFlagConfig>`. -/
structure PartialConfig where
  description : Option String := none
  enabled : Option Bool := none
  strategy : Option TargetingStrategy := none
  percentage : Option ℚ := none
  userIds : Option (List String) := none
  roles : Option (List UserRole) := none
  deriving DecidableEq

/-- `FeatureFlagConfig`, as it is stored. -/
structure FeatureFlagConfig where
  name : String
  description : Option String
  enabled : Bool
  strategy : TargetingStrategy
  percentage : Option ℚ
  userIds : Option (List String)
  roles : Option (List UserRole)
  createdAt : ℤ
  updatedAt : ℤ
  deriving DecidableEq

/-- The record of all flags. -/
abbrev Flags := AList fun _ : String => FeatureFlagConfig

/-- The properties that every object inherits. -/
def inherited : List String :=
  ["constructor", "__defineGetter__", "__defineSetter__", "hasOwnProperty", "__lookupGetter__",
    "__lookupSetter__", "isPrototypeOf", "propertyIsEnumerable", "toString", "valueOf", "__proto__",
    "toLocaleString"]

/-- `flags[name] = flag`. The inherited `__proto__` is a setter, and keeps nothing that is stored. -/
def put (name : String) (flag : FeatureFlagConfig) (flags : Flags) : Flags :=
  if name = "__proto__" ∧ flags.lookup name = none then flags else flags.insert name flag

/-! ### Operations -/

inductive Op
  | dateNow
  /-- `redisService.get(REDIS_KEY)` -/
  | get
  /-- `redisService.set(REDIS_KEY, flags)` -/
  | set (flags : Flags)
  deriving DecidableEq

/-- Replies. -/
abbrev Op.Ret : Op → Type
  | dateNow => ℤ
  | get => Option Flags
  | set _ => Unit

/-- What Redis holds under the key. -/
structure World where
  flags : Option Flags

/-- The freedom of the environment: a command is done, fails, or is done and its answer lost; and
the clock shows some time. -/
inductive Choice
  | succeeds
  | fails
  | answerLost
  | now (ms : ℤ)
  deriving DecidableEq

/-- What an operation does. -/
def exec : (o : Op) → ℕ → Choice → World → Option (o.Ret × World)
  | .dateNow, _, .now ms, w => some (ms, w)
  | .get, _, .succeeds, w => some (w.flags, w)
  | .get, _, .fails, w | .get, _, .answerLost, w => some (none, w)
  | .set flags, _, .succeeds, _ | .set flags, _, .answerLost, _ => some ((), ⟨some flags⟩)
  | .set _, _, .fails, w => some ((), w)
  | _, _, _, _ => none

/-! ### The service -/

abbrev Service (α : Type) := Routine Op.Ret Unit Exc α

/-- Await an operation. -/
def await (o : Op) : Service o.Ret := Routine.perform o

/-- `getAllFlags()`. -/
def getAllFlags : Service Flags := do
  let flags : Option Flags ← await .get
  pure (flags.getD ∅)

/-- The flag that `setFlag` stores. -/
def flagOf (name : String) (config : PartialConfig) (existingFlag : Option FeatureFlagConfig)
    (now : ℤ) : FeatureFlagConfig where
  name := name
  description := config.description
  enabled := config.enabled.getD true
  strategy := config.strategy.getD .DISABLED
  percentage := config.percentage
  userIds := config.userIds
  roles := config.roles
  createdAt := (existingFlag.map (·.createdAt)).getD now
  updatedAt := now

/-- `validateFlagConfig(flag)`. -/
def validateFlagConfig (flag : FeatureFlagConfig) : Service Unit := do
  Routine.throwWhen (flag.strategy = .ENABLED_FOR_PERCENTAGE &&
      !flag.percentage.any fun percentage => 0 ≤ percentage && percentage ≤ 100)
    (.error "Percentage must be between 0 and 100 for ENABLED_FOR_PERCENTAGE strategy")
  Routine.throwWhen (flag.strategy = .ENABLED_FOR_USERS && (flag.userIds.getD []).isEmpty)
    (.error "userIds array is required for ENABLED_FOR_USERS strategy")
  Routine.throwWhen (flag.strategy = .ENABLED_FOR_ROLES && (flag.roles.getD []).isEmpty)
    (.error "roles array is required for ENABLED_FOR_ROLES strategy")

/-- `setFlag(name, config)`. -/
def setFlag (name : String) (config : PartialConfig) : Service FeatureFlagConfig := do
  let allFlags ← getAllFlags
  let now : ℤ ← await .dateNow
  let flag := flagOf name config (allFlags.lookup name) now
  validateFlagConfig flag
  await (.set (put name flag allFlags))
  pure flag

/-- `deleteFlag(name)`. -/
def deleteFlag (name : String) : Service Unit := do
  let allFlags ← getAllFlags
  Routine.throwWhen ((allFlags.lookup name).isNone && name ∉ inherited)
    (notFound s!"Feature flag '{name}' not found")
  await (.set (allFlags.erase name))

/-! ### The system -/

/-- The calls. -/
inductive Call
  | setFlag (name : String) (config : PartialConfig)
  | deleteFlag (name : String)
  deriving DecidableEq

/-- The flag that a call is about. -/
def Call.name : Call → String
  | setFlag name _ | deleteFlag name => name

/-- The body of a call. -/
def request : Call → Service (Option FeatureFlagConfig)
  | .setFlag name config => do
      let flag ← setFlag name config
      pure (some flag)
  | .deleteFlag name => do
      deleteFlag name
      pure none

/-- Calls of any number of instances. -/
def system : System Op.Ret Choice World Call (Except Exc (Option FeatureFlagConfig)) where
  exec := exec
  body c := (request c ()).bind fun x => .ret x.1

/-- The history of a run. -/
abbrev History := Hist Op.Ret World Call (Except Exc (Option FeatureFlagConfig))

/-- The events of a run, newest first. -/
abbrev Events := List (Event Op.Ret World Call (Except Exc (Option FeatureFlagConfig)))

end Ahjoor.FeatureFlags
