import Gatehouse.Authenticator
import Gatehouse.Exporter
import Gatehouse.OneTimeCode
import Gatehouse.Proofs.Authenticator.Expiry
import Gatehouse.Proofs.Cache.Corruption
import Gatehouse.Proofs.Cache.Embedded
import Gatehouse.Proofs.Cache.Format
import Gatehouse.Proofs.Cache.LazyRemoval
import Gatehouse.Proofs.Cache.Leniency
import Gatehouse.Proofs.Cache.Lifetime
import Gatehouse.Proofs.Cache.Sweep
import Gatehouse.Proofs.Json.Canonical
import Gatehouse.Proofs.Limiter.Clearing
import Gatehouse.Proofs.Limiter.Isolation
import Gatehouse.Proofs.OneTimeCode.Deadlines
import Gatehouse.Proofs.OneTimeCode.Destination
import Gatehouse.Proofs.OneTimeCode.Retry
import Gatehouse.Proofs.OneTimeCode.SendLimit
import Gatehouse.Proofs.OneTimeCode.SingleUse
import Gatehouse.Proofs.OneTimeCode.Unfinished
import Gatehouse.Proofs.Payload.Truncation
import Gatehouse.Proofs.Revocation.Longevity
import Gatehouse.Proofs.Revocation.Repetition
import Gatehouse.Proofs.Revocation.Resumption
import Gatehouse.Proofs.Server.Pages
import Gatehouse.Proofs.Service.Accounting
import Gatehouse.Proofs.Service.Closing
import Gatehouse.Proofs.Service.Interference
import Gatehouse.Proofs.Settings.Environment
import Gatehouse.Proofs.Token.Accessors
import Gatehouse.Startup
import Gatehouse.Token.UniqueId
