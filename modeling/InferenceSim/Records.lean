import InferenceSim.Cluster.Basic
import InferenceSim.Document.Written
import InferenceSim.Workload.Trace

/-! The values that are written to files and read back: requests and what policies see of
them, decisions, figures and settings. -/
namespace InferenceSim

instance : Written SharedPrefix := ⟨SharedPrefix.toDocument, SharedPrefix.ofDocument?⟩

instance : Written SloClass := ⟨SloClass.toDocument, SloClass.ofDocument?⟩

instance : Written RequestState := ⟨RequestState.toDocument, RequestState.ofDocument?⟩

instance : Written RequestTiming := ⟨RequestTiming.toDocument, RequestTiming.ofDocument?⟩

instance : Written RequestView := ⟨RequestView.toDocument, RequestView.ofDocument?⟩

instance : Written Priority := ⟨Priority.toDocument, Priority.ofDocument?⟩

instance : Written Request := ⟨Request.toDocument, Request.ofDocument?⟩

instance : Written Role := ⟨Role.toDocument, Role.ofDocument?⟩

instance : Written Snapshot := ⟨Snapshot.toDocument, Snapshot.ofDocument?⟩

instance : Written ClusterView := ⟨ClusterView.toDocument, ClusterView.ofDocument?⟩

instance : Written Verdict := ⟨Verdict.toDocument, Verdict.ofDocument?⟩

instance : Written Target := ⟨Target.toDocument, Target.ofDocument?⟩

instance : Written Route := ⟨Route.toDocument, Route.ofDocument?⟩

instance : Written RejectionStage := ⟨RejectionStage.toDocument, RejectionStage.ofDocument?⟩

instance : Written Candidate := ⟨Candidate.toDocument, Candidate.ofDocument?⟩

instance : Written DecisionRecord := ⟨DecisionRecord.toDocument, DecisionRecord.ofDocument?⟩

instance : Written TraceSummary := ⟨TraceSummary.toDocument, TraceSummary.ofDocument?⟩

instance : Written LoggedEvent := ⟨LoggedEvent.toDocument, LoggedEvent.ofDocument?⟩

instance : Written Completion := ⟨Completion.toDocument, Completion.ofDocument?⟩

instance : Written Anomaly := ⟨Anomaly.toDocument, Anomaly.ofDocument?⟩

instance : Written Percentiles := ⟨Percentiles.toDocument, Percentiles.ofDocument?⟩

instance : Written RunSummary := ⟨RunSummary.toDocument, RunSummary.ofDocument?⟩

instance : Written HostTierStats := ⟨HostTierStats.toDocument, HostTierStats.ofDocument?⟩

instance : Written KvStats := ⟨KvStats.toDocument, KvStats.ofDocument?⟩

instance : Written InstanceStats := ⟨InstanceStats.toDocument, InstanceStats.ofDocument?⟩

instance : Written Tier := ⟨Tier.toDocument, Tier.ofDocument?⟩

instance : Written Clock := ⟨Clock.toDocument, Clock.ofDocument?⟩

instance : Written BatchLimits := ⟨BatchLimits.toDocument, BatchLimits.ofDocument?⟩

instance : Written HostTierConfig := ⟨HostTierConfig.toDocument, HostTierConfig.ofDocument?⟩

instance : Written Throughput := ⟨Throughput.toDocument, Throughput.ofDocument?⟩

instance : Written LatencyModel := ⟨LatencyModel.toDocument, LatencyModel.ofDocument?⟩

instance : Written AdmissionRule := ⟨AdmissionRule.toDocument, AdmissionRule.ofDocument?⟩

instance : Written PriorityRule := ⟨PriorityRule.toDocument, PriorityRule.ofDocument?⟩

instance : Written RoutingRule := ⟨RoutingRule.toDocument, RoutingRule.ofDocument?⟩

instance : Written Scorer := ⟨Scorer.toDocument, Scorer.ofDocument?⟩

instance : Written ScorerWeight := ⟨ScorerWeight.toDocument, ScorerWeight.ofDocument?⟩

instance : Written SchedulerRule := ⟨SchedulerRule.toDocument, SchedulerRule.ofDocument?⟩

instance : Written RefreshMode := ⟨RefreshMode.toDocument, RefreshMode.ofDocument?⟩

instance : Written SnapshotConfig := ⟨SnapshotConfig.toDocument, SnapshotConfig.ofDocument?⟩

instance : Written WorkloadConfig := ⟨WorkloadConfig.toDocument, WorkloadConfig.ofDocument?⟩

instance : Written TraceRecord := ⟨TraceRecord.toDocument, TraceRecord.ofDocument?⟩

instance : Written RunSettings := ⟨RunSettings.toDocument, RunSettings.ofDocument?⟩

instance : Written Disaggregation := ⟨Disaggregation.toDocument, Disaggregation.ofDocument?⟩

instance : Written ClusterSettings := ⟨ClusterSettings.toDocument, ClusterSettings.ofDocument?⟩

instance : Written PolicySettings := ⟨PolicySettings.toDocument, PolicySettings.ofDocument?⟩

instance : Written TraceSettings := ⟨TraceSettings.toDocument, TraceSettings.ofDocument?⟩

instance : Written Config := ⟨Config.toDocument, Config.ofDocument?⟩

end InferenceSim
