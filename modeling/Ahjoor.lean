import Ahjoor.Contributions.Settlement
import Ahjoor.Payouts.Disbursement
import Ahjoor.Payouts.Failures
import Ahjoor.Payouts.Flags
import Ahjoor.Payouts.Stranding
import Ahjoor.Encryption.LostUpdates
import Ahjoor.Members.Capacity
import Ahjoor.Members.Fairness
import Ahjoor.Members.Returning
import Ahjoor.Members.Recipients
import Ahjoor.Payments.Serializability
import Ahjoor.Throttler.SlidingWindow
import Ahjoor.Throttler.CustomThrottlerGuard
import Ahjoor.Throttler.TrustedIpService
import Ahjoor.Stellar.OpenCircuit
import Ahjoor.Stellar.Recovery
import Ahjoor.Scheduler.Activation
import Ahjoor.Groups.Advancing
import Ahjoor.Groups.Footprint
import Ahjoor.Members.Doors
import Ahjoor.Members.Rejoining
import Ahjoor.Members.Locking
import Ahjoor.Members.Seats
import Ahjoor.Scheduler.Completion
import Ahjoor.Scheduler.Restarts
import Ahjoor.Penalties.Owed
import Ahjoor.Penalties.Deadline
import Ahjoor.Stellar.ContributionCall
import Ahjoor.Contributions.Payers
import Ahjoor.Contributions.Retries
import Ahjoor.Contributions.LastPayout
import Ahjoor.Contributions.RoundCount
import Ahjoor.Contributions.Idempotency
import Ahjoor.Members.InviteUses
import Ahjoor.Auth.Cap
import Ahjoor.Auth.Sessions
import Ahjoor.Auth.VersionCache
import Ahjoor.Auth.BackupCodes
import Ahjoor.Auth.ApiKeys
import Ahjoor.StellarAuth.Replay
import Ahjoor.Audit.OneChain
import Ahjoor.Common.IdempotencyInterceptor
import Ahjoor.EventListener.Completions
import Ahjoor.Scheduler.LockExclusion
import Ahjoor.Kyc.OwnCase
import Ahjoor.Kyc.ClosedCases
import Ahjoor.Stellar.OneCall
import Ahjoor.Stellar.BalanceAlerts
import Ahjoor.Users.Findable
import Ahjoor.Notifications.Duplicates
import Ahjoor.Bullmq.SyncCoverage
import Ahjoor.FeatureFlags.OwnFlag
import Ahjoor.FeatureFlags.LocalCache
import Ahjoor.Common.Transparency
import Ahjoor.Members.Permutations
import Ahjoor.Members.Departures
import Ahjoor.Rounds.GroupsService
import Ahjoor.Rounds.AsManyRounds
import Ahjoor.TrustScore.Score
import Ahjoor.TrustScore.Batches
import Ahjoor.TrustScore.Outstanding
import Ahjoor.Payments.Amounts
import Ahjoor.Contributions.Conversion
import Ahjoor.Scheduler.AllOrNothing
import Ahjoor.Scheduler.FailedActivation
import Ahjoor.Penalties.Deduction
import Ahjoor.Stellar.Failover
import Ahjoor.Stellar.Slippage
import Ahjoor.Bullmq.TrackerBound
import Ahjoor.Bullmq.PoisonVerdicts
import Ahjoor.Bullmq.FailureSignatures
import Ahjoor.Webhooks.EventIds
import Ahjoor.Members.InviteReplays
import Ahjoor.Rounds.TemplateMerging
import Ahjoor.Redis.RoundTrips
import Ahjoor.Common.PiiScrubber
import Ahjoor.Stellar.CongestionWindow
