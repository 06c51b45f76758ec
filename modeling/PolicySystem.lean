import PolicySystem.Gateway.Reconciler
import PolicySystem.Gateway.ReplayGate
import PolicySystem.Gateway.LogTransactions
import PolicySystem.Audit.Inserts
import PolicySystem.Passkey.Expiry
import PolicySystem.Cleanup.NearMissCommute
import PolicySystem.Governance.Interleavings
import PolicySystem.Restore.Replaced
import PolicySystem.Ingestion.InstrumentId
import PolicySystem.IngestionRuns.Runs
import PolicySystem.DomainMapper.NothingLost
import PolicySystem.Authz.AuditTrail
import PolicySystem.CompanyMerge.DedupSound
import PolicySystem.Export.Serialize
import PolicySystem.Gateway.CanonicalDigest
import PolicySystem.Cleanup.RoleDependency
import PolicySystem.Cleanup.RoleRoundTrip
import PolicySystem.Cleanup.PreviewFidelity
import PolicySystem.Cleanup.Discovery
import PolicySystem.DomainMapper.RoleNames
import PolicySystem.CellarEli.EffectiveDate
import PolicySystem.ChangeMonitor.Poll
import PolicySystem.PolicyLifecycle.Adding
import PolicySystem.DomainMapper.NativeReading
import PolicySystem.Gateway.ExactRead
import PolicySystem.InternalSeed.Reconcile
import PolicySystem.Restore.BaselineReader
import PolicySystem.Migrations.SplitStatements
import PolicySystem.Gateway.Recovery
