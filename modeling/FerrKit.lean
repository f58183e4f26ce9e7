import FerrKit.Lib.Calls
import FerrKit.Lib.Cidr
import FerrKit.Lib.Duration
import FerrKit.Lib.Histories
import FerrKit.Lib.Json
import FerrKit.Lib.KeyMap
import FerrKit.Lib.KeySort
import FerrKit.Lib.Net
import FerrKit.Lib.PercentEncoding
import FerrKit.Lib.FormUrlencoded
import FerrKit.Lib.Base64
import FerrKit.Lib.ReadCommitted
import FerrKit.Lib.Results
import FerrKit.Lib.Runs
import FerrKit.Lib.Serde
import FerrKit.Lib.Table
import FerrKit.Lib.Text
import FerrKit.Lib.TokenBucket
import FerrKit.Lib.Gregorian
import FerrKit.Lib.Wire
import FerrKit.Lib.Decimal
import FerrKit.Lib.JsonText
import FerrKit.Queue.Model
import FerrKit.Queue.Facts
import FerrKit.Queue.Terminal
import FerrKit.Queue.Lease
import FerrKit.Queue.Budget
import FerrKit.Queue.Frame
import FerrKit.Queue.Attempts
import FerrKit.Queue.Columns
import FerrKit.Queue.Enqueue
import FerrKit.Queue.Dedup
import FerrKit.Queue.RunLoop
import FerrKit.Queue.Shutdown
import FerrKit.Queue.Overtaking
import FerrKit.Queue.Finish
import FerrKit.Queue.Retry
import FerrKit.Queue.Inspect
import FerrKit.Auth.SessionModel
import FerrKit.Auth.SessionFacts
import FerrKit.Auth.SessionInvariant
import FerrKit.Auth.Rotation
import FerrKit.Auth.Burn
import FerrKit.Auth.Jwt
import FerrKit.Auth.Audience
import FerrKit.Auth.KeyRing
import FerrKit.Auth.Expiry
import FerrKit.Auth.Usable
import FerrKit.Auth.RecoveryCodes
import FerrKit.Auth.Totp
import FerrKit.Vault.KvUrl
import FerrKit.Vault.KvStore
import FerrKit.Github.InstallationToken
import FerrKit.Github.Ownership
import FerrKit.RateLimit.Limiter
import FerrKit.RateLimit.Prune
import FerrKit.RateLimit.ClientIp
import FerrKit.Cache.SwrLock
import FerrKit.Cache.GetOrLoad
import FerrKit.Cache.ConnectionUrl
import FerrKit.Cache.SwrStore
import FerrKit.Http.Address
import FerrKit.Http.Blocks
import FerrKit.Http.SafeGet
import FerrKit.Http.Confined
import FerrKit.OAuth.OidcModel
import FerrKit.OAuth.JwksCache
import FerrKit.OAuth.Issuer
import FerrKit.OAuth.Authorize
import FerrKit.OAuth.IdToken
import FerrKit.OAuth.Login
import FerrKit.Permissions.Scopes
import FerrKit.Permissions.ScopeStrings
import FerrKit.Permissions.ScopeSerde
import FerrKit.Webhooks.Signature
import FerrKit.Webhooks.Acceptance
import FerrKit.Billing.StripeSignature
import FerrKit.Billing.SignatureHeader
import FerrKit.Billing.Events
import FerrKit.Billing.Client
import FerrKit.Billing.Subscriptions
import FerrKit.License.Token
import FerrKit.Webhooks.SignedInput
import FerrKit.Crypto.Envelope
import FerrKit.Crypto.KmsCache
import FerrKit.Api.Version
import FerrKit.Api.VersionText
import FerrKit.Api.Transform
import FerrKit.Api.Registry
import FerrKit.Api.Policy
import FerrKit.Api.Layer
import FerrKit.Middleware.Cors
import FerrKit.Telemetry.Metrics
import FerrKit.Http.PostForm
import FerrKit.Crypto.HealthCheck
import FerrKit.Testkit.Golden
