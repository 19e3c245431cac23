import Pubky.Common.KeyHierarchy
import Pubky.Common.PathLaws
import Pubky.Homeserver.AdminLists
import Pubky.Homeserver.Bandwidth.Limits
import Pubky.Homeserver.Cookie.Verifier
import Pubky.Homeserver.Directories
import Pubky.Homeserver.Events.Polling
import Pubky.Homeserver.Events.Reverse
import Pubky.Homeserver.Grant.Bearers
import Pubky.Homeserver.Grant.Replay
import Pubky.Homeserver.Grant.Signup
import Pubky.Homeserver.Migrations.SanitizeCapabilities
import Pubky.Homeserver.PathKeys
import Pubky.Homeserver.Republisher
import Pubky.Homeserver.RetryAfter
import Pubky.Homeserver.Storage.Batches
import Pubky.Homeserver.Storage.Blobs
import Pubky.Homeserver.Storage.Chunking
import Pubky.Homeserver.Storage.Consistency
import Pubky.Homeserver.Storage.Isolation
import Pubky.Homeserver.Storage.LockLifetimes
import Pubky.Homeserver.Storage.SizeHint
import Pubky.Homeserver.Storage.Stability
import Pubky.Homeserver.Storage.WriteLocks
import Pubky.Sdk.DomainSeparation
import Pubky.Sdk.EventCodec
import Pubky.Sdk.EventStream
import Pubky.Sdk.Pkdns
import Pubky.Sdk.RecoveryFile
import Pubky.Sdk.SharedSession
import Pubky.Sdk.SignedApproval
