import ESign.Completion
import ESign.SigningOnce
import ESign.Finalization
import ESign.AuditWriter
import ESign.Anchoring
import ESign.Evidence
import ESign.Finality
import ESign.Selection
import ESign.FlattenFailure
import ESign.Linearity
import ESign.JobProcessor
import ESign.AuditSweep
import ESign.DocumentRepositories
import ESign.PayloadPolicy
import ESign.ObjectKeys
import ESign.FieldStorage
import ESign.SignerSubmission
import ESign.FieldCommit
import ESign.ClientIp
import ESign.CookieHeader
import ESign.PdfStructure
import ESign.DocumentExpiry
import ESign.ObjectCleanup
import ESign.KeyRetries
import ESign.FieldLayout
import ESign.DisplayName
import ESign.RateLimiter
import ESign.CanonicalJson
import ESign.PageCount
import ESign.ClosingJobs
import ESign.JobSites
import ESign.DeadLetters
import ESign.WriteSites
import ESign.AuditReplay
import ESign.AuditTrail
import ESign.Desk
import ESign.SigningRoutes
import ESign.DeskOutline
import ESign.Receipts
import ESign.OutboxJobs
import ESign.AccountGateway
import ESign.AccountSessions
import ESign.AccountConfinement
import ESign.ServedAlone
import ESign.SigningProgress
import ESign.FinalizationReached
import ESign.Downloads
import ESign.Previews
import ESign.SignerWrites
import ESign.FileStorage
