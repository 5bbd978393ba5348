import TenantFlow.Api
import TenantFlow.Modules.Files
import TenantFlow.Library.Isolation
import TenantFlow.Library.Keyset
import TenantFlow.Verification.Assignees
import TenantFlow.Verification.KeyExpiry
import TenantFlow.Verification.Pagination
import TenantFlow.Verification.PublishBoundary
import TenantFlow.Verification.Polling
import TenantFlow.Verification.ReferenceMonitor
import TenantFlow.Verification.Storability
import TenantFlow.Verification.CleanNames
import TenantFlow.Verification.References
import TenantFlow.Verification.AuditTrail
import TenantFlow.Verification.StripeOnce
import TenantFlow.Verification.StripeOverlapRuns
import TenantFlow.Verification.StripeKeys
import TenantFlow.Verification.Events
import TenantFlow.Verification.Patches
import TenantFlow.Verification.Outbound
import TenantFlow.Verification.Invitations
import TenantFlow.Verification.GetOrCreate
import TenantFlow.Verification.NextRetry
import TenantFlow.Verification.CanonicalPayloads
import TenantFlow.Verification.ObjectKeys
import TenantFlow.Verification.Cleanup
import TenantFlow.Verification.AccountJournals
import TenantFlow.Verification.Memberships
import TenantFlow.Verification.Owners
import TenantFlow.Verification.RefreshTokens
import TenantFlow.Verification.DeliveryBounds
import TenantFlow.Verification.ConcurrentTenants
