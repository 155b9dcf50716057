import InferenceSim.Clock
import InferenceSim.Cluster.Basic
import InferenceSim.Cluster.Decision
import InferenceSim.Cluster.Dispatch
import InferenceSim.Cluster.Run
import InferenceSim.Cluster.SnapshotBoard
import InferenceSim.CommandLine.Command
import InferenceSim.CommandLine.Console
import InferenceSim.CommandLine.Execute
import InferenceSim.CommandLine.Help
import InferenceSim.CommandLine.Options
import InferenceSim.CommandLine.Workspace
import InferenceSim.Config.Basic
import InferenceSim.Config.Error
import InferenceSim.Counting
import InferenceSim.Decimal.Binary64
import InferenceSim.Decimal.Notation
import InferenceSim.Decimal.Reading
import InferenceSim.Decimal.Shortest
import InferenceSim.Document.Basic
import InferenceSim.Document.Fields
import InferenceSim.Document.Json
import InferenceSim.Document.Toml
import InferenceSim.Document.Written
import InferenceSim.Event.Basic
import InferenceSim.Event.Label
import InferenceSim.Event.Queue
import InferenceSim.Fault
import InferenceSim.Hash.Xxh3
import InferenceSim.Instance.Basic
import InferenceSim.Instance.Batch
import InferenceSim.Instance.Solo
import InferenceSim.Kv.BlockHash
import InferenceSim.Kv.Cache
import InferenceSim.Kv.HostTier
import InferenceSim.Kv.Stats
import InferenceSim.Latency
import InferenceSim.Main
import InferenceSim.Metrics.Anomaly
import InferenceSim.Metrics.Completion
import InferenceSim.Metrics.Percentiles
import InferenceSim.Metrics.Report
import InferenceSim.Metrics.Summary
import InferenceSim.Policy.Admission
import InferenceSim.Policy.Error
import InferenceSim.Policy.Observation
import InferenceSim.Policy.PrefixIndex
import InferenceSim.Policy.Priority
import InferenceSim.Policy.Routing
import InferenceSim.Policy.Scheduler
import InferenceSim.Policy.Scorer
import InferenceSim.Proofs.Batch.Boundary
import InferenceSim.Proofs.Batch.Budget
import InferenceSim.Proofs.Batch.Continuing
import InferenceSim.Proofs.Batch.Fitting
import InferenceSim.Proofs.Batch.Forming
import InferenceSim.Proofs.Batch.Holdings
import InferenceSim.Proofs.Batch.Lookups
import InferenceSim.Proofs.Batch.Ordering
import InferenceSim.Proofs.Batch.Rounds
import InferenceSim.Proofs.Batch.Shares
import InferenceSim.Proofs.Cluster.Accounting
import InferenceSim.Proofs.Cluster.Burden
import InferenceSim.Proofs.Cluster.Bursts
import InferenceSim.Proofs.Cluster.Charges
import InferenceSim.Proofs.Cluster.Coherence
import InferenceSim.Proofs.Cluster.Completion
import InferenceSim.Proofs.Cluster.Conservation
import InferenceSim.Proofs.Cluster.Counters
import InferenceSim.Proofs.Cluster.Deeds
import InferenceSim.Proofs.Cluster.Draining
import InferenceSim.Proofs.Cluster.Effects
import InferenceSim.Proofs.Cluster.Entries
import InferenceSim.Proofs.Cluster.Guises
import InferenceSim.Proofs.Cluster.Holding
import InferenceSim.Proofs.Cluster.Horizons
import InferenceSim.Proofs.Cluster.Injection
import InferenceSim.Proofs.Cluster.Journeys
import InferenceSim.Proofs.Cluster.Laws
import InferenceSim.Proofs.Cluster.Lines
import InferenceSim.Proofs.Cluster.Pacing
import InferenceSim.Proofs.Cluster.Pairs
import InferenceSim.Proofs.Cluster.Phases
import InferenceSim.Proofs.Cluster.Pipeline
import InferenceSim.Proofs.Cluster.Progress
import InferenceSim.Proofs.Cluster.Reaching
import InferenceSim.Proofs.Cluster.Running
import InferenceSim.Proofs.Cluster.Service
import InferenceSim.Proofs.Cluster.Stages
import InferenceSim.Proofs.Cluster.Starting
import InferenceSim.Proofs.Cluster.Stories
import InferenceSim.Proofs.Cluster.Targets
import InferenceSim.Proofs.Cluster.Waking
import InferenceSim.Proofs.Document.Fields
import InferenceSim.Proofs.Document.Json
import InferenceSim.Proofs.Document.Tokens
import InferenceSim.Proofs.Draws
import InferenceSim.Proofs.Events
import InferenceSim.Proofs.Instance.Alone
import InferenceSim.Proofs.Instance.Charging
import InferenceSim.Proofs.Instance.Coherence
import InferenceSim.Proofs.Instance.Lines
import InferenceSim.Proofs.Instance.Prefilling
import InferenceSim.Proofs.Instance.Settling
import InferenceSim.Proofs.Instance.Shares
import InferenceSim.Proofs.Instance.Stepping
import InferenceSim.Proofs.Instance.Turns
import InferenceSim.Proofs.Kv.Allocation
import InferenceSim.Proofs.Kv.Backing
import InferenceSim.Proofs.Kv.Capacity
import InferenceSim.Proofs.Kv.Chains
import InferenceSim.Proofs.Kv.Chunks
import InferenceSim.Proofs.Kv.Contents
import InferenceSim.Proofs.Kv.Filling
import InferenceSim.Proofs.Kv.Fixed
import InferenceSim.Proofs.Kv.Labels
import InferenceSim.Proofs.Kv.Ownership
import InferenceSim.Proofs.Kv.Release
import InferenceSim.Proofs.Kv.Reloads
import InferenceSim.Proofs.Kv.Repeats
import InferenceSim.Proofs.Kv.Representation
import InferenceSim.Proofs.Kv.Residency
import InferenceSim.Proofs.Kv.Supply
import InferenceSim.Proofs.Kv.Taking
import InferenceSim.Proofs.Kv.TierAccounts
import InferenceSim.Proofs.Kv.TierRecency
import InferenceSim.Proofs.Kv.TierTraffic
import InferenceSim.Proofs.Kv.Usage
import InferenceSim.Proofs.Metrics.Inversions
import InferenceSim.Proofs.Requests
import InferenceSim.Proofs.Results
import InferenceSim.Proofs.Routing.Affinity
import InferenceSim.Proofs.Routing.Choice
import InferenceSim.Proofs.Routing.Freshness
import InferenceSim.Proofs.Routing.Preference
import InferenceSim.Proofs.Routing.Recency
import InferenceSim.Proofs.Routing.Rotation
import InferenceSim.Proofs.Routing.Validity
import InferenceSim.Proofs.Scheduling
import InferenceSim.Proofs.Streams
import InferenceSim.Proofs.Tables
import InferenceSim.Proofs.Text.Lines
import InferenceSim.Proofs.Timing
import InferenceSim.Proofs.Totals
import InferenceSim.Proofs.Workload.Generated
import InferenceSim.Proofs.Workload.Reading
import InferenceSim.Proofs.Workload.Trace
import InferenceSim.Random.ChaCha
import InferenceSim.Random.Generator
import InferenceSim.Random.Streams
import InferenceSim.Records
import InferenceSim.Request.Basic
import InferenceSim.Request.Form
import InferenceSim.Request.Priority
import InferenceSim.Request.State
import InferenceSim.Text.Blank
import InferenceSim.Violation
import InferenceSim.Workload.Config
import InferenceSim.Workload.Generator
import InferenceSim.Workload.Problem
import InferenceSim.Workload.Source
import InferenceSim.Workload.Trace
