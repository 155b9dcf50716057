import InferenceSim.Policy.PrefixIndex
import InferenceSim.Policy.Scorer
import InferenceSim.Random.Generator

/-! Routing: the instance, or the pair of instances, that a request is sent to. A
policy sees the request and the snapshots, and changes nothing but its own
state. -/
namespace InferenceSim

/-- Where a request is sent. -/
inductive Target where
  | single (host : Nat)
  /-- The prompt on one instance, the decoding on another. -/
  | split (prefill decode : Nat)
  | reject
  deriving DecidableEq, Repr, Inhabited

/-- The answer of routing: the target, the reason, and the score of each candidate,
the higher the better. -/
structure Route where
  target : Target
  reason : String
  scores : Std.ExtTreeMap Nat Float := ∅
  /-- A priority in place of the computed one. -/
  priorityHint : Option Priority := none

namespace Target

def toDocument : Target → Document
  | .single host => .table [("Instance", .count host)]
  | .split prefill decode =>
    .table [("Disaggregated",
      .table [("prefill", .count prefill), ("decode", .count decode)])]
  | .reject => .text "Reject"

def ofDocument? (d : Document) : Option Target :=
  match d.asName? with
  | some "Reject" => some .reject
  | _ => do
    let (name, d) ← d.variant?
    match name with
    | "Instance" => return .single (← d.asCount? 32)
    | "Disaggregated" =>
      let f ← d.fields? ["prefill", "decode"]
      return .split (← f.count 32 "prefill") (← f.count 32 "decode")
    | _ => none

end Target

namespace Route

def scoresDocument (scores : Std.ExtTreeMap Nat Float) : Document :=
  .table (scores.toList.map fun (id, score) => (toString id, .real score))

def scoresOfDocument? (d : Document) : Option (Std.ExtTreeMap Nat Float) :=
  (d.asNumbered? 32 Document.asReal?).map fun ms =>
    ms.foldl (fun m (id, score) => m.insert id score) ∅

def toDocument (r : Route) : Document :=
  .table [("target", r.target.toDocument), ("reason", .text r.reason),
    ("scores", scoresDocument r.scores),
    ("priority_hint", .option .real (r.priorityHint.map (·.toFloat)))]

def ofDocument? (d : Document) : Option Route := do
  let f ← d.fields? ["target", "reason", "scores", "priority_hint"]
  return {
    target := ← f.required "target" Target.ofDocument?
    reason := ← f.text "reason"
    scores := ← f.required "scores" scoresOfDocument?
    priorityHint := (← f.optional "priority_hint" Document.asReal?).map .ofFloat }

end Route

/-- Which routing policy to use. -/
inductive RoutingRule where
  | roundRobin
  | random
  | leastLoaded
  | weighted (scorers : List ScorerWeight)
  | prefixAffinity
  /-- Separate instances for prompts and for decoding. -/
  | pdSplit
  /-- The worst choice: always the busiest instance. -/
  | alwaysBusiest
  deriving Inhabited

namespace RoutingRule

def name : RoutingRule → String
  | .roundRobin => "round-robin"
  | .random => "random"
  | .leastLoaded => "least-loaded"
  | .weighted _ => "weighted"
  | .prefixAffinity => "prefix-affinity"
  | .pdSplit => "pd-split"
  | .alwaysBusiest => "always-busiest"

def all : List RoutingRule :=
  [.roundRobin, .random, .leastLoaded, .weighted ScorerWeight.defaults, .prefixAffinity,
    .pdSplit, .alwaysBusiest]

def names : List String := all.map name

def ofName? (name : String) : Option RoutingRule := (all.map fun r => (r.name, r)).lookup name

def isDisaggregated : RoutingRule → Bool
  | .pdSplit => true
  | _ => false

def toDocument (r : RoutingRule) : Document :=
  match r with
  | .weighted scorers =>
    .table [("name", .text r.name), ("scorers", .ofList ScorerWeight.toDocument scorers)]
  | _ => .table [("name", .text r.name)]

def ofDocument? (d : Document) : Option RoutingRule := do
  let (name, d) ← d.tagged? "name"
  match ← ofName? name with
  | .weighted scorers =>
    let f ← d.fields? ["scorers"]
    return .weighted
      (← f.withDefault "scorers" (Document.asList? ScorerWeight.ofDocument?) scorers)
  | r =>
    d.bare?
    return r

end RoutingRule

/-- Routing by the longest recorded prefix, with its counters. -/
structure PrefixAffinity where
  index : PrefixIndex
  hits : Nat := 0
  fallbacks : Nat := 0

/-- Routing by weighted scores; the index is there if a scorer needs it. -/
structure WeightedScoring where
  scorers : List ScorerWeight
  index : Option PrefixIndex

/-- A routing policy with its state. -/
inductive RoutingPolicy where
  /-- The instance chosen last, if any. -/
  | roundRobin (last : Option Nat)
  | random (generator : Random.Generator)
  | leastLoaded
  | weighted (w : WeightedScoring)
  | prefixAffinity (p : PrefixAffinity)
  | pdSplit
  | alwaysBusiest

/-- The first candidate above the last one, or else the first of all. -/
def nextInTurn (last : Option Nat) (candidates : List Snapshot) : Option Snapshot :=
  match last with
  | some last => (candidates.find? fun s => last < s.id).or candidates.head?
  | none => candidates.head?

def share (part whole : Nat) : Float := Binary64.ofCount part / Binary64.ofCount whole

namespace WeightedScoring

def new (scorers : List ScorerWeight) (blockSize : Nat) : Except PolicyError WeightedScoring :=
  (ScorerWeight.normalize scorers).map fun scorers =>
    { scorers
      index := if scorers.any (·.scorer = .prefixAffinity)
        then some (.new blockSize PrefixIndex.defaultCapacity) else none }

/-- The value that a scorer gives to one of the candidates. -/
def value (w : WeightedScoring) (scorer : Scorer) (candidates : List Snapshot)
    (hashes : List BlockHash) (s : Snapshot) : Float :=
  match scorer with
  | .queueDepth =>
    let loads := candidates.map Snapshot.effectiveLoad
    let least := loads.min?.getD 0
    let most := loads.max?.getD 0
    if most = least then 1.0 else share (most - s.effectiveLoad) (most - least)
  | .kvUtilization => 1.0 - s.kvUtilization
  | .loadBalance => 1.0 / (1.0 + Binary64.ofCount s.effectiveLoad)
  | .prefixAffinity =>
    match w.index with
    | some index =>
      if hashes.isEmpty then 0.0 else share (index.matchLength hashes s.id) hashes.length
    | none => 0.0

/-- The weighted sum of the values of one candidate, each kept within 0 and 1. -/
def combine (w : WeightedScoring) (candidates : List Snapshot) (hashes : List BlockHash)
    (s : Snapshot) : Float :=
  w.scorers.foldl (fun total sw =>
    total + sw.weight * Binary64.clamp 0.0 1.0 (w.value sw.scorer candidates hashes s)) 0.0

/-- The first of the highest scores. -/
def best : List (Nat × Float) → Option (Nat × Float)
  | [] => none
  | first :: rest => some (rest.foldl (fun best t => if t.2 > best.2 then t else best) first)

def route (w : WeightedScoring) (request : RequestView) (view : ClusterView) :
    Route × WeightedScoring :=
  let candidates := (prefillCandidates view.snapshots).mergeSort fun a b => a.id ≤ b.id
  let hashes := match w.index with
    | some index => index.hashes request
    | none => []
  let scores := candidates.foldl
    (fun m s => m.insert s.id (w.combine candidates hashes s)) (∅ : Std.ExtTreeMap Nat Float)
  match best scores.toList with
  | none => ({ target := .reject, reason := "weighted: no prefill-capable instance" }, w)
  | some (chosen, score) =>
    ({ target := .single chosen, reason := s!"weighted: score {Decimal.fixed 3 score}", scores },
      { w with index := w.index.map fun index => index.record hashes chosen })

end WeightedScoring

namespace PrefixAffinity

def new (blockSize capacity : Nat) : PrefixAffinity := { index := .new blockSize capacity }

/-- Whether a candidate with its match goes before another one: the longer match,
then the smaller load. -/
def better (a b : Snapshot × Nat) : Bool :=
  b.2 < a.2 || (a.2 = b.2 && a.1.effectiveLoad < b.1.effectiveLoad)

def best : List (Snapshot × Nat) → Option (Snapshot × Nat)
  | [] => none
  | first :: rest => some (rest.foldl (fun best c => if better c best then c else best) first)

def route (p : PrefixAffinity) (request : RequestView) (view : ClusterView) :
    Route × PrefixAffinity :=
  let candidates := prefillCandidates view.snapshots
  let hashes := p.index.hashes request
  let matched := candidates.map fun s => (s, p.index.matchLength hashes s.id)
  let scores := if hashes.isEmpty then ∅
    else matched.foldl (fun m (s, n) => m.insert s.id (share n hashes.length))
      (∅ : Std.ExtTreeMap Nat Float)
  let fallback : Route × PrefixAffinity :=
    match leastLoaded candidates with
    | some s =>
      ({ target := .single s.id, reason := "prefix-affinity: no match, least-loaded", scores },
        { p with fallbacks := p.fallbacks + 1, index := p.index.record hashes s.id })
    | none => ({ target := .reject, reason := "prefix-affinity: no prefill-capable instance" }, p)
  match best matched with
  | some (s, n) =>
    if 0 < n then
      ({ target := .single s.id, reason := s!"prefix-affinity: {n}/{hashes.length} blocks"
         scores },
        { p with hits := p.hits + 1, index := p.index.record hashes s.id })
    else fallback
  | none => fallback

end PrefixAffinity

namespace RoutingPolicy

/-- A policy at its start. `seed` feeds random routing; the block size has to be
that of the caches, so that hashes agree. -/
def ofRule (rule : RoutingRule) (blockSize : Nat) (seed : UInt64) :
    Except PolicyError RoutingPolicy :=
  match rule with
  | .roundRobin => .ok (.roundRobin none)
  | .random => .ok (.random (.ofSeed seed))
  | .leastLoaded => .ok .leastLoaded
  | .weighted scorers => (WeightedScoring.new scorers blockSize).map .weighted
  | .prefixAffinity => .ok (.prefixAffinity (.new blockSize PrefixIndex.defaultCapacity))
  | .pdSplit => .ok .pdSplit
  | .alwaysBusiest => .ok .alwaysBusiest

def name : RoutingPolicy → String
  | .roundRobin _ => "round-robin"
  | .random _ => "random"
  | .leastLoaded => "least-loaded"
  | .weighted _ => "weighted"
  | .prefixAffinity _ => "prefix-affinity"
  | .pdSplit => "pd-split"
  | .alwaysBusiest => "always-busiest"

/-- Counters of a policy for the summary of a run, by name. -/
def counters : RoutingPolicy → List (String × Float)
  | .prefixAffinity p =>
    [("affinity_fallbacks", Binary64.ofCount p.fallbacks),
      ("affinity_hits", Binary64.ofCount p.hits)]
  | _ => []

/-- The route of a request, and the policy afterwards. -/
def route (policy : RoutingPolicy) (request : RequestView) (view : ClusterView) :
    Route × RoutingPolicy :=
  let candidates := prefillCandidates view.snapshots
  match policy with
  | .roundRobin last =>
    match nextInTurn last candidates with
    | some s => ({ target := .single s.id, reason := "round-robin" }, .roundRobin (some s.id))
    | none =>
      ({ target := .reject, reason := "round-robin: no prefill-capable instance" }, policy)
  | .random g =>
    match g.below64 candidates.length with
    | (.ok i, g) =>
      match candidates[i]? with
      | some s => ({ target := .single s.id, reason := "random" }, .random g)
      | none => ({ target := .reject, reason := "random: no prefill-capable instance" }, .random g)
    | (.error _, _) =>
      ({ target := .reject, reason := "random: no prefill-capable instance" }, policy)
  | .leastLoaded =>
    match InferenceSim.leastLoaded candidates with
    | some s =>
      ({ target := .single s.id, reason := s!"least-loaded: load {s.effectiveLoad}" }, policy)
    | none =>
      ({ target := .reject, reason := "least-loaded: no prefill-capable instance" }, policy)
  | .weighted w =>
    let (route, w) := w.route request view
    (route, .weighted w)
  | .prefixAffinity p =>
    let (route, p) := p.route request view
    (route, .prefixAffinity p)
  | .pdSplit =>
    match InferenceSim.leastLoaded (withRole .prefill view.snapshots),
      InferenceSim.leastLoaded (withRole .decode view.snapshots) with
    | some p, some d =>
      ({ target := .split p.id d.id
         reason := s!"pd-split: prefill load {p.effectiveLoad}, decode load {d.effectiveLoad}" },
        policy)
    | _, _ =>
      ({ target := .reject, reason := "pd-split: need both prefill and decode instances" },
        policy)
  | .alwaysBusiest =>
    match firstBy Snapshot.busier candidates with
    | some s =>
      ({ target := .single s.id, reason := s!"always-busiest: load {s.effectiveLoad}" }, policy)
    | none =>
      ({ target := .reject, reason := "always-busiest: no prefill-capable instance" }, policy)

end RoutingPolicy

end InferenceSim
