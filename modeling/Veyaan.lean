import Veyaan.Atomicity
import Veyaan.Authenticity
import Veyaan.Blocking
import Veyaan.Bookkeeping
import Veyaan.Caching
import Veyaan.Decisions
import Veyaan.Delivery
import Veyaan.Expiry
import Veyaan.Gate
import Veyaan.History
import Veyaan.Isolation
import Veyaan.Pairing
import Veyaan.Payload
import Veyaan.Provenance
import Veyaan.Publishing
import Veyaan.Redelivery
import Veyaan.Retries
import Veyaan.Revocation
import Veyaan.Sessions
import Veyaan.Stops
import Veyaan.Switches
import Veyaan.Transitions
import Veyaan.RateLimiter
import Veyaan.Trust
import Veyaan.Creation
import Veyaan.Activation
import Veyaan.Enrolment
import Veyaan.Errors
import Veyaan.ConnectionManager
import Veyaan.Replacement
import Veyaan.Presence
import Veyaan.Coherence
import Veyaan.FirstRequest
import Veyaan.Lib.Pages
import Veyaan.Listings
import Veyaan.StateEvents
import Veyaan.AuthPhase
import Veyaan.FirstFrame
import Veyaan.ClientMessages
import Veyaan.Violations
import Veyaan.Lib.JsonText
import Veyaan.Migration
import Veyaan.Silence
import Veyaan.Subjects
import Veyaan.Shown
import Veyaan.Board
import Veyaan.Ledger
import Veyaan.Lib.UniqueIndex
import Veyaan.Constraints
import Veyaan.Registry
import Veyaan.SupabaseAuth
import Veyaan.Tenancy
import Veyaan.Draining
import Veyaan.Deadlock
