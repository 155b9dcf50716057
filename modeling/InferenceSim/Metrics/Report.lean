import InferenceSim.Metrics.Summary

/-! Reports: the table of one run, and the table that sets several runs side by
side. -/
namespace InferenceSim

namespace RunSummary

def tableWidth : Nat := 70

def comparisonWidth : Nat := 90

def rule (width : Nat) (fill : Char) (title : String) : String :=
  Decimal.padRight width title fill ++ "\n"

def cell (width : Nat) (s : String) : String := Decimal.padLeft width s ' '

def number (width places : Nat) (x : Float) : String := cell width (Decimal.fixed places x)

def latencyLine (name : String) (p : Percentiles) : String :=
  s!"  {name} P50={number 8 1 p.p50}  P90={number 8 1 p.p90}  P99={number 8 1 p.p99}\n"

def inFlightLine (s : RunSummary) : String :=
  if 0 < s.stillQueued + s.stillRunning + s.stillInTransit then
    s!"  In flight at horizon: {s.stillQueued} queued, {s.stillRunning} running, " ++
      s!"{s.stillInTransit} in transit\n"
  else ""

def percent (rate : Float) : String := Decimal.fixed 1 (rate * 100.0)

def thrashLine (s : RunSummary) : String :=
  if s.thrashRate > 0.0 then s!"  KV thrash rate: {percent s.thrashRate}%\n" else ""

def listed (ns : List Nat) : String := "[" ++ ", ".intercalate (ns.map toString) ++ "]"

def anomalyLines (s : RunSummary) : String :=
  if s.anomalies.isEmpty then ""
  else
    rule tableWidth '-' "  Anomalies  " ++
      s!"  Priority inversions: {s.inversions}  " ++
      s!"HOL-blocked instances: {listed s.blockedInstances}  Total: {s.anomalies.length}\n"

def policyLines (s : RunSummary) : String :=
  if s.policyCounters.isEmpty then ""
  else
    rule tableWidth '-' "  Policy  " ++
      String.join (s.policyCounters.toList.map fun (name, value) =>
        s!"  {name}: {Decimal.fixed 4 value}\n")

/-- The table of one run. -/
def table (s : RunSummary) : String :=
  "\n" ++ rule tableWidth '=' s!"  {s.label} Results  " ++
    s!"  Duration: {Decimal.fixed 1 (s.durationMs / 1000.0)}s | Injected: {s.injected} | " ++
    s!"Completed: {s.completed} | Rejected: {s.rejected}\n" ++
    s.inFlightLine ++
    rule tableWidth '-' "  Latency  " ++
    latencyLine "TTFT (ms)      " s.ttft ++
    latencyLine "ITL (ms)       " s.gaps ++
    latencyLine "E2E (ms)       " s.e2e ++
    latencyLine "Queue wait (ms)" s.queueWait ++
    rule tableWidth '-' "  Throughput  " ++
    s!"  Requests/sec: {Decimal.fixed 1 s.requestsPerSecond}  " ++
    s!"Tokens/sec: {Decimal.fixed 0 s.totalTokensPerSecond} " ++
    s!"(input: {Decimal.fixed 0 s.inputTokensPerSecond}, " ++
    s!"output: {Decimal.fixed 0 s.outputTokensPerSecond})\n" ++
    s!"  Steps: {s.steps}  Preemptions: {s.preemptions}  " ++
    s!"Admission delays: {s.admissionDelays}\n" ++
    rule tableWidth '-' "  Cache  " ++
    s!"  Cache hit rate: {percent s.cacheHitRate}%\n" ++
    s.thrashLine ++
    rule tableWidth '-' "  Fairness  " ++
    s!"  Load CV: {Decimal.fixed 3 s.loadVariation}  " ++
    s!"Jain's index: {Decimal.fixed 4 s.jainIndex}\n" ++
    s.anomalyLines ++
    s.policyLines ++
    rule tableWidth '=' ""

/-- Cells separated by blanks, the first one at the left of a column of 18. -/
def row (name : String) (cells : List String) : String :=
  " ".intercalate (Decimal.padRight 18 name ' ' :: cells) ++ "\n"

def comparisonHead : String :=
  row "Policy" ([(8, "TTFT p50"), (8, "TTFT p99"), (8, "E2E p50"), (8, "E2E p99"), (8, "Req/s"),
    (7, "Cache%"), (8, "Jain's"), (7, "Rejects")].map fun (width, s) => cell width s)

def comparisonRow (s : RunSummary) : String :=
  row s.label [number 8 1 s.ttft.p50, number 8 1 s.ttft.p99, number 8 1 s.e2e.p50,
    number 8 1 s.e2e.p99, number 8 1 s.requestsPerSecond,
    number 6 1 (s.cacheHitRate * 100.0) ++ "%", number 8 4 s.jainIndex,
    cell 7 (toString s.rejected)]

/-- The table of several runs, one line each. -/
def comparison (runs : List RunSummary) : String :=
  if runs.isEmpty then "No results to compare.\n"
  else
    "\n" ++ rule comparisonWidth '=' "  Policy Comparison  " ++ comparisonHead ++
      rule comparisonWidth '-' "" ++ String.join (runs.map comparisonRow) ++
      rule comparisonWidth '=' ""

end RunSummary

end InferenceSim
