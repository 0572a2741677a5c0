import CredBroker.Interaction.History
import CredBroker.Interaction.Abort
import CredBroker.Reliability.Admission
import CredBroker.Requests
import CredBroker.Runs
import CredBroker.Expiry
import CredBroker.Invocation.Cancel
import CredBroker.Audit
import CredBroker.ActiveLimit
import CredBroker.RefreshTokens
import CredBroker.Uncached
import CredBroker.Reliability.Holders
import CredBroker.Evidence
import CredBroker.Reliability.RetryRuns
import CredBroker.TokenEndpoint
import CredBroker.OAuthState
import CredBroker.Crypto.Genuine
import CredBroker.Invocation.Recovery
import CredBroker.Reservation
import CredBroker.Names
import CredBroker.LogFilter
import CredBroker.RateWindow
import CredBroker.Finality
import CredBroker.Tokens
import CredBroker.Outcomes
import CredBroker.AtMostOnce
import CredBroker.Entitlement
import CredBroker.ConnectFlow
import CredBroker.RateLimits
import CredBroker.Provenance
