import Ahjoor.Stellar.CircuitBreaker

/-!
# `BalanceMonitorService`

A round of the monitor checks every account once, each check inside a call of the circuit breaker
that reads the account inside another one, and compares what it has read with the accounts that the
round before found low. A webhook that cannot be dispatched is only logged, so an alert counts as
emitted when it is handed over.

A balance is the number that its text stands for.
-/

namespace Ahjoor.BalanceMonitor

open CircuitBreaker

/-- The settings of the monitor. -/
structure Config where
  /-- `STELLAR_ISSUER_ACCOUNT` -/
  issuerAccount : String := ""
  /-- `STELLAR_MIN_BALANCE_ALERT_XLM` -/
  minBalanceAlertXlm : ℚ := 5
  breaker : CircuitBreaker.Config := {}

/-- A balance of an account. -/
structure Balance where
  asset_type : String
  balance : ℚ
  deriving DecidableEq

/-- What `loadAccount` returns; its balances may be missing. -/
structure Account where
  balances : Option (List Balance)
  deriving DecidableEq

/-- `AccountBalanceCheckResult`. -/
structure AccountBalanceCheckResult where
  accountId : String
  currentBalance : ℚ
  minimumRequired : ℚ
  isLow : Bool
  timestamp : ℤ
  deriving DecidableEq

/-! ### Calls of the breaker -/

variable {T ε : Type}

/-- When a call of `execute` looks at the breaker, what the monitor of congestion reports then, and
when `fn` has ended. -/
structure Instants where
  startTime : ℤ
  report : CongestionState
  endTime : ℤ

/-- `execute(fn)`, when nobody else calls the breaker before `fn` has ended. -/
def execute (cfg : CircuitBreaker.Config) (times : Instants)
    (fn : CircuitState → Except (Failure ε) T × CircuitState) (state : CircuitState) :
    Except (Failure ε) T × CircuitState :=
  match admission cfg times.report times.startTime state with
  | .error e => (.error (.unavailable e), state)
  | .ok state =>
      match fn state with
      | (.ok result, _) => (.ok result, onSuccess)
      | (.error err, state) => (.error err, onFailure cfg times.endTime state)

/-- `execute(() => server.loadAccount(accountId))`. -/
def loadAccount (cfg : CircuitBreaker.Config) (times : Instants) (loaded : Except String Account) :
    CircuitState → Except (Failure String) Account × CircuitState :=
  execute cfg times fun state => (loaded.mapError .thrown, state)

/-! ### One account -/

/-- The native balance of an account, and 0 when it has none. -/
def nativeBalance (balances : List Balance) : ℚ :=
  match balances.find? (·.asset_type = "native") with
  | some b => b.balance
  | none => 0

/-- What `checkAccountBalance` makes of an account. -/
def result (cfg : Config) (accountId : String) (timestamp : ℤ) (account : Account) :
    Except (Failure String) AccountBalanceCheckResult :=
  match account.balances with
  | none => .error (.thrown "Cannot read properties of undefined (reading 'find')")
  | some balances => .ok {
      accountId
      currentBalance := nativeBalance balances
      minimumRequired := cfg.minBalanceAlertXlm
      isLow := nativeBalance balances < cfg.minBalanceAlertXlm
      timestamp }

/-- `checkAccountBalance(accountId)`. -/
def checkAccountBalance (cfg : Config) (accountId : String) (times : Instants)
    (loaded : Except String Account) (state : CircuitState) :
    Except (Failure String) AccountBalanceCheckResult × CircuitState :=
  match loadAccount cfg.breaker times loaded state with
  | (.ok account, state) => (result cfg accountId times.endTime account, state)
  | (.error error, state) => (.error error, state)

/-- The check of an account: how it finds the breaker, when its two calls take place, and what
`loadAccount` returns if it is called. -/
structure Check where
  state : CircuitState := {}
  outer : Instants
  inner : Instants
  loaded : Except String Account

/-- `execute(() => checkAccountBalance(accountId))`. -/
def Check.run (cfg : Config) (accountId : String) (check : Check) :
    Except (Failure String) AccountBalanceCheckResult × CircuitState :=
  execute cfg.breaker check.outer (checkAccountBalance cfg accountId check.inner check.loaded)
    check.state

/-! ### One round -/

/-- What is sent to the webhooks. -/
inductive Alert
  /-- `BALANCE_ALERT_LOW` -/
  | low (result : AccountBalanceCheckResult)
  /-- `BALANCE_ALERT_RECOVERED` -/
  | recovered (result : AccountBalanceCheckResult)
  deriving DecidableEq

/-- What a round meets: the contract addresses of the groups, unless they cannot be fetched, the
checks of the accounts, and whether the network is congested when the results are processed. -/
structure Round where
  groups : Option (List (Option String))
  checks : String → Check
  isNetworkCongested : Bool

/-- `accountsToCheck`. -/
def accountsToCheck (cfg : Config) (round : Round) : List String :=
  (if cfg.issuerAccount ≠ "" then [cfg.issuerAccount] else []) ++
    ((round.groups.getD []).filterMap id).filter (· ≠ "")

/-- `set.add(accountId)`. -/
def add (accounts : List String) (accountId : String) : List String :=
  if accountId ∈ accounts then accounts else accounts ++ [accountId]

/-- `uniqueAccounts`. -/
def uniqueAccounts (cfg : Config) (round : Round) : List String :=
  (accountsToCheck cfg round).foldl add []

/-- `results`: the checks that did not throw. -/
def results (cfg : Config) (round : Round) : List AccountBalanceCheckResult :=
  (uniqueAccounts cfg round).filterMap fun accountId =>
    ((round.checks accountId).run cfg accountId).1.toOption

/-- One turn of the loop over the results: the accounts that are low, and the alerts. -/
def processResult (congested : Bool) (previous : List String) (acc : List String × List Alert)
    (result : AccountBalanceCheckResult) : List String × List Alert :=
  if result.isLow then
    if congested then acc
    else
      (add acc.1 result.accountId,
        if result.accountId ∈ previous then acc.2 else acc.2 ++ [.low result])
  else acc

/-- `processBalanceResults(results)`: the accounts to remember, and the alerts. -/
def processBalanceResults (congested : Bool) (results : List AccountBalanceCheckResult)
    (previous : List String) : List String × List Alert :=
  let (current, alerts) := results.foldl (processResult congested previous) ([], [])
  (current, alerts ++ previous.filterMap fun accountId =>
    if accountId ∈ current then none
    else (results.find? (·.accountId = accountId)).map .recovered)

/-- `checkAllBalances()`: the accounts to remember, and the alerts. -/
def checkAllBalances (cfg : Config) (round : Round) (previous : List String) :
    List String × List Alert :=
  if uniqueAccounts cfg round = [] then (previous, [])
  else processBalanceResults round.isNetworkCongested (results cfg round) previous

/-! ### Rounds -/

/-- The rounds with their alerts, one after another, from the accounts that are remembered. -/
def emitted (cfg : Config) : List Round → List String → List (Round × List Alert)
  | [], _ => []
  | round :: rounds, previous =>
      (round, (checkAllBalances cfg round previous).2) ::
        emitted cfg rounds (checkAllBalances cfg round previous).1

end Ahjoor.BalanceMonitor
