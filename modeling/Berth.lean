import Berth.Server.OutcomeTheorems
import Berth.Server.TenantTheorems
import Berth.Lease.K8sStoreTheorems
import Berth.Acquire.SidecarTheorems
import Berth.Operator.Admission
import Berth.Operator.Reconciler
import Berth.Operator.Cluster
import Berth.Operator.ClusterTheorems
import Berth.Operator.SiteTheorems
import Berth.Operator.Ledger
import Berth.Operator.Steps
import Berth.Operator.Discipline
import Berth.Operator.Rules
import Berth.Operator.AdmissionTheorems
import Berth.Operator.CommitTheorems
import Berth.Operator.WorkloadTheorems
import Berth.Operator.ReconcilerTheorems
import Berth.Operator.PodTheorems
import Berth.Operator.ActiveTheorems
import Berth.Operator.CleanupTheorems
import Berth.Operator.FenceTheorems
import Berth.Operator.BindingTheorems
import Berth.Operator.HistoryTheorems
import Berth.Acquire.GateTheorems
import Berth.Checks.First
import Berth.Path.Clean
import Berth.Webhook.Config
import Berth.Webhook.Inject
import Berth.Webhook.ProbeTheorems
import Berth.Webhook.InjectTheorems
import Berth.Webhook.ValidateTheorems
import Berth.GoTime.Duration
import Berth.Acquire.Config
import Berth.Acquire.ConfigTheorems
import Berth.Webhook.EnvTheorems
import Berth.Lease.KeyTheorems
import Berth.Interleave.Trace
import Berth.Server.RunTheorems
import Berth.Server.LinearTheorems
import Berth.Server.SweepTheorems
import Berth.Acquire.Marker
import Berth.Acquire.FreshTheorems
import Berth.Interleave.Serve
import Berth.Lease.Backends
import Berth.Lease.BackendTheorems
import Berth.Broker.Loop
import Berth.Broker.LoopTheorems
import Berth.Auth.Static
import Berth.Acquire.EnforcerTheorems
import Berth.Api.StatusTheorems
import Berth.Auth.StaticTheorems
import Berth.Operator.WakeTheorems
import Berth.Json.Nested
import Berth.Operator.Stamp
import Berth.Operator.StampTheorems
import Berth.Operator.StampView
import Berth.Acquire.Disk
import Berth.Acquire.DiskTheorems
import Berth.Api.Wire
import Berth.Api.WireTheorems
import Berth.Client.Wire
import Berth.Client.WireTheorems
import Berth.Lease.SqlTime
import Berth.Api.Readiness
import Berth.ClientAuth.TokenSource
import Berth.Lease.SqlServerTheorems
