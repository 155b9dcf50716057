import Mathlib.Data.List.Induction
import InferenceSim.Proofs.Routing.Validity

/-! How fresh the view of the router is. Of every group of fields a board shows the live values
of the latest refresh: every reading is one, or only those that come late enough, or none, and
always when all is refreshed. -/
namespace InferenceSim

/-- A reading has a value that was refreshed last at `last` refreshed. -/
def RefreshMode.Renews : RefreshMode → (last clock : Nat) → Prop
  | .immediate, _, _ => True
  | .periodic interval, last, clock => last + interval ≤ clock
  | .onDemand, _, _ => False

instance (mode : RefreshMode) (last clock : Nat) : Decidable (mode.Renews last clock) := by
  cases mode <;> unfold RefreshMode.Renews <;> infer_instance

theorem RefreshMode.due_iff (mode : RefreshMode) {last clock : Nat} (past : last ≤ clock) :
    mode.due last clock = true ↔ mode.Renews last clock := by
  cases mode with
  | immediate => exact iff_of_true rfl trivial
  | periodic interval =>
      rw [due, decide_eq_true_iff, Nat.le_sub_iff_add_le' past]
      rfl
  | onDemand => exact iff_of_false Bool.false_ne_true id

namespace PostedSnapshot

theorem refreshDue_eq (p : PostedSnapshot) (c : SnapshotConfig) (live : LiveLoad) (clock : Nat) :
    p.refreshDue c live clock =
      { snapshot := { p.snapshot with
          queueDepth := if c.queueDepth.due p.queueDepthAt clock then live.queueDepth
            else p.snapshot.queueDepth
          batchSize := if c.batchSize.due p.batchSizeAt clock then live.batchSize
            else p.snapshot.batchSize
          kvUtilization := if c.kv.due p.kvAt clock then live.kvUtilization
            else p.snapshot.kvUtilization
          freeKvBlocks := if c.kv.due p.kvAt clock then live.freeKvBlocks
            else p.snapshot.freeKvBlocks
          cacheHitRate := if c.kv.due p.kvAt clock then live.cacheHitRate
            else p.snapshot.cacheHitRate }
        queueDepthAt := if c.queueDepth.due p.queueDepthAt clock then clock else p.queueDepthAt
        batchSizeAt := if c.batchSize.due p.batchSizeAt clock then clock else p.batchSizeAt
        kvAt := if c.kv.due p.kvAt clock then clock else p.kvAt } := by
  by_cases queue : c.queueDepth.due p.queueDepthAt clock <;>
    by_cases batch : c.batchSize.due p.batchSizeAt clock <;>
    by_cases kv : c.kv.due p.kvAt clock <;>
    simp only [refreshDue, refreshQueueDepth, refreshBatchSize, refreshKv, queue, batch, kv, if_true,
      if_false, Bool.false_eq_true]

end PostedSnapshot

/-- Fields of a snapshot that are refreshed together. -/
structure FieldGroup (α : Type) where
  mode : SnapshotConfig → RefreshMode
  shown : Snapshot → α
  live : LiveLoad → α
  /-- What is shown of an idle instance. -/
  idle : α
  refreshedAt : PostedSnapshot → Nat

namespace FieldGroup
variable {α : Type}

def queueDepth : FieldGroup Nat where
  mode := SnapshotConfig.queueDepth
  shown := Snapshot.queueDepth
  live := LiveLoad.queueDepth
  idle := 0
  refreshedAt := PostedSnapshot.queueDepthAt

def batchSize : FieldGroup Nat where
  mode := SnapshotConfig.batchSize
  shown := Snapshot.batchSize
  live := LiveLoad.batchSize
  idle := 0
  refreshedAt := PostedSnapshot.batchSizeAt

/-- Utilization, free blocks and cache hit rate. -/
def kv : FieldGroup (Float × Nat × Float) where
  mode := SnapshotConfig.kv
  shown s := (s.kvUtilization, s.freeKvBlocks, s.cacheHitRate)
  live l := (l.kvUtilization, l.freeKvBlocks, l.cacheHitRate)
  idle := (0.0, 0, 0.0)
  refreshedAt := PostedSnapshot.kvAt

/-- What is posted of a group: its values and the time of its last refresh. -/
def posted (g : FieldGroup α) (p : PostedSnapshot) : α × Nat := (g.shown p.snapshot, g.refreshedAt p)

/-- What refreshes make of a group. -/
structure Lawful (g : FieldGroup α) : Prop where
  new : ∀ id role, g.posted { snapshot := { id, role } } = (g.idle, 0)
  due : ∀ p c live clock, g.posted (PostedSnapshot.refreshDue p c live clock) =
    if (g.mode c).due (g.refreshedAt p) clock then (g.live live, clock) else g.posted p
  all : ∀ p live clock, g.posted (PostedSnapshot.refresh p live clock) = (g.live live, clock)
  counters : ∀ (p : PostedSnapshot) pending inFlight timestamp,
    g.posted { p with snapshot := { p.snapshot with pending, inFlight, timestamp } } = g.posted p

theorem queueDepth_lawful : queueDepth.Lawful where
  new _ _ := rfl
  due p c live clock := by
    rw [p.refreshDue_eq]
    by_cases due : c.queueDepth.due p.queueDepthAt clock <;> simp [posted, queueDepth, due]
  all _ _ _ := rfl
  counters _ _ _ _ := rfl

theorem batchSize_lawful : batchSize.Lawful where
  new _ _ := rfl
  due p c live clock := by
    rw [p.refreshDue_eq]
    by_cases due : c.batchSize.due p.batchSizeAt clock <;> simp [posted, batchSize, due]
  all _ _ _ := rfl
  counters _ _ _ _ := rfl

theorem kv_lawful : kv.Lawful where
  new _ _ := rfl
  due p c live clock := by
    rw [p.refreshDue_eq]
    by_cases due : c.kv.due p.kvAt clock <;> simp [posted, kv, due]
  all _ _ _ := rfl
  counters _ _ _ _ := rfl

end FieldGroup

inductive BoardCall where
  | read (host : Nat) (live : LiveLoad) (pending inFlight clock : Nat)
  | refreshAll (loads : List LiveLoad) (clock : Nat)

/-- A refresh of some fields, with the live load that was passed. -/
structure Refresh where
  time : Nat
  live : LiveLoad

/-- When fields were refreshed last; a new board counts from tick 0. -/
def Refresh.since (last : Option Refresh) : Nat := last.elim 0 Refresh.time

namespace BoardCall

def clock : BoardCall → Nat
  | .read _ _ _ _ clock => clock
  | .refreshAll _ clock => clock

def isRead : BoardCall → Bool
  | .read _ _ _ _ _ => true
  | .refreshAll _ _ => false

def run (b : SnapshotBoard) : BoardCall → SnapshotBoard
  | .read host live pending inFlight clock => (b.read host live pending inFlight clock).2
  | .refreshAll loads clock => b.refreshAll loads clock

/-- The refresh of fields of an instance that a call is, if it is one. -/
def refresh? (mode : RefreshMode) (host : Nat) (last : Option Refresh) : BoardCall → Option Refresh
  | .read id live _ _ clock =>
    if id = host ∧ mode.Renews (Refresh.since last) clock then some { time := clock, live } else none
  | .refreshAll loads clock => loads[host]?.map fun live => { time := clock, live }

end BoardCall

/-- The last refresh of fields of an instance by some calls. -/
def latestRefresh (mode : RefreshMode) (host : Nat) (calls : List BoardCall) : Option Refresh :=
  calls.foldl (fun last call => (call.refresh? mode host last).or last) none

namespace SnapshotBoard
variable {α : Type} {g : FieldGroup α} {b : SnapshotBoard} {host : Nat} {last : Option Refresh}

def after (b : SnapshotBoard) (calls : List BoardCall) : SnapshotBoard := calls.foldl BoardCall.run b

/-- What is posted of an instance was refreshed last as `last` says. -/
def Tracks (g : FieldGroup α) (host : Nat) (b : SnapshotBoard) (last : Option Refresh) : Prop :=
  ∃ p, b.posted[host]? = some p ∧
    g.posted p = (last.elim g.idle fun r => g.live r.live, Refresh.since last)

theorem tracks_new (lawful : g.Lawful) (config : SnapshotConfig) {roles : List Role}
    (known : host < roles.length) : Tracks g host (new config roles) none := by
  refine ⟨{ snapshot := { id := host, role := roles[host] } }, ?_, lawful.new _ _⟩
  simp [new, known]

theorem read_known {p : PostedSnapshot} (found : b.posted[host]? = some p) (live : LiveLoad)
    (pending inFlight clock : Nat) :
    ∃ q, b.read host live pending inFlight clock =
        (q.snapshot, { b with posted := b.posted.setIfInBounds host q }) ∧
      q = { p.refreshDue b.config live clock with
        snapshot := { (p.refreshDue b.config live clock).snapshot with
          pending, inFlight, timestamp := clock } } := by
  refine ⟨_, ?_, rfl⟩
  simp only [read, found]

theorem read_unknown (unknown : b.posted[host]? = none) (live : LiveLoad)
    (pending inFlight clock : Nat) :
    b.read host live pending inFlight clock = ({ id := host, role := .unified }, b) := by
  simp only [read, unknown]

theorem run_config (b : SnapshotBoard) (call : BoardCall) : (call.run b).config = b.config := by
  cases call with
  | read id live pending inFlight clock =>
      cases found : b.posted[id]? with
      | none => rw [BoardCall.run, read_unknown found]
      | some p =>
          obtain ⟨q, reads, _⟩ := read_known found live pending inFlight clock
          rw [BoardCall.run, reads]
  | refreshAll loads clock => rfl

/-- A call refreshes the fields of an instance, or leaves them as they are. -/
theorem Tracks.run (lawful : g.Lawful) (k : Tracks g host b last) (call : BoardCall)
    (past : Refresh.since last ≤ call.clock) :
    Tracks g host (call.run b) ((call.refresh? (g.mode b.config) host last).or last) := by
  obtain ⟨p, found, posted⟩ := k
  have inside := (Array.getElem?_eq_some_iff.mp found).1
  cases call with
  | read id live pending inFlight clock =>
      replace past : Refresh.since last ≤ clock := past
      by_cases own : id = host
      · subst own
        obtain ⟨q, reads, made⟩ := read_known found live pending inFlight clock
        refine ⟨q, by simp [BoardCall.run, reads, inside], ?_⟩
        have due := (g.mode b.config).due_iff past
        rw [made, lawful.counters, lawful.due, (Prod.mk.inj posted).2]
        by_cases renews : (g.mode b.config).Renews (Refresh.since last) clock
        · rw [if_pos (due.mpr renews), BoardCall.refresh?, if_pos ⟨rfl, renews⟩]
          rfl
        · rw [if_neg (mt due.mp renews), BoardCall.refresh?, if_neg fun both => renews both.2]
          exact posted
      · rw [BoardCall.refresh?, if_neg fun both => own both.1]
        refine ⟨p, ?_, posted⟩
        cases other : b.posted[id]? with
        | none => rw [BoardCall.run, read_unknown other, found]
        | some p' =>
            obtain ⟨q, reads, _⟩ := read_known other live pending inFlight clock
            rw [BoardCall.run, reads, Array.getElem?_setIfInBounds_ne own, found]
  | refreshAll loads clock =>
      cases passed : loads[host]? with
      | none =>
          refine ⟨p, by simp [BoardCall.run, refreshAll, found, passed], ?_⟩
          rw [BoardCall.refresh?, passed]
          exact posted
      | some live =>
          refine ⟨p.refresh live clock, by simp [BoardCall.run, refreshAll, found, passed], ?_⟩
          rw [BoardCall.refresh?, passed]
          exact lawful.all p live clock

end SnapshotBoard

section
variable {mode : RefreshMode} {host time : Nat} {last : Option Refresh} {calls : List BoardCall}

theorem BoardCall.refresh_time {call : BoardCall} {r : Refresh}
    (refreshed : call.refresh? mode host last = some r) : r.time = call.clock := by
  cases call with
  | read id live pending inFlight clock =>
      rw [refresh?] at refreshed
      split at refreshed
      · rw [← Option.some.inj refreshed]
        rfl
      · cases refreshed
  | refreshAll loads clock =>
      obtain ⟨live, _, rfl⟩ := Option.map_eq_some_iff.mp refreshed
      rfl

theorem BoardCall.since_refresh_le {call : BoardCall} (past : Refresh.since last ≤ time)
    (now : call.clock ≤ time) : Refresh.since ((call.refresh? mode host last).or last) ≤ time := by
  cases refreshed : call.refresh? mode host last with
  | none => exact past
  | some r => exact Nat.le_trans (Nat.le_of_eq (refresh_time refreshed)) now

theorem latestRefresh_concat (calls : List BoardCall) (call : BoardCall) :
    latestRefresh mode host (calls ++ [call]) =
      (call.refresh? mode host (latestRefresh mode host calls)).or (latestRefresh mode host calls) :=
  List.foldl_append

theorem since_latestRefresh_le (past : ∀ call ∈ calls, call.clock ≤ time) :
    Refresh.since (latestRefresh mode host calls) ≤ time := by
  induction calls using List.reverseRecOn with
  | nil => exact Nat.zero_le time
  | append_singleton calls call ih =>
      rw [latestRefresh_concat]
      obtain ⟨before, now⟩ := List.forall_mem_append.mp past
      exact BoardCall.since_refresh_le (ih before) (now call List.mem_cons_self)

theorem latestRefresh_onDemand (host : Nat) (calls : List BoardCall) :
    latestRefresh .onDemand host calls =
      latestRefresh .onDemand host (calls.filter fun call => !call.isRead) := by
  rw [latestRefresh, latestRefresh, List.foldl_filter]
  congr 1
  funext last call
  cases call with
  | read => simp [BoardCall.isRead, BoardCall.refresh?, RefreshMode.Renews]
  | refreshAll => rfl

end

namespace SnapshotBoard
variable {α : Type} {g : FieldGroup α} {host : Nat}

theorem after_config (b : SnapshotBoard) (calls : List BoardCall) :
    (b.after calls).config = b.config := by
  induction calls generalizing b with
  | nil => rfl
  | cons call rest ih => exact (ih _).trans (b.run_config call)

theorem tracks_after (lawful : g.Lawful) (config : SnapshotConfig) {roles : List Role}
    (known : host < roles.length) {calls : List BoardCall}
    (ordered : calls.Pairwise fun a b => a.clock ≤ b.clock) :
    Tracks g host ((new config roles).after calls) (latestRefresh (g.mode config) host calls) := by
  -- From the end, since whether a call refreshes depends on the refreshes before it.
  induction calls using List.reverseRecOn with
  | nil => exact tracks_new lawful config known
  | append_singleton calls call ih =>
      obtain ⟨before, _, past⟩ := List.pairwise_append.mp ordered
      have next := (ih before).run lawful call
        (since_latestRefresh_le fun a ha => past a ha call List.mem_cons_self)
      rw [after_config] at next
      rw [after, List.foldl_append, latestRefresh_concat]
      exact next

/-- How fresh the fields of a group are that a snapshot shows of an instance after some calls, the
last of which is a reading at `clock`. -/
structure Fresh (g : FieldGroup α) (config : SnapshotConfig) (host : Nat) (calls : List BoardCall)
    (clock : Nat) (s : Snapshot) : Prop where
  shows : g.shown s = (latestRefresh (g.mode config) host calls).elim g.idle fun r => g.live r.live
  young : ∀ interval, g.mode config = .periodic interval → 0 < interval →
    Refresh.since (latestRefresh (g.mode config) host calls) ≤ clock ∧
    clock < Refresh.since (latestRefresh (g.mode config) host calls) + interval
  demanded : g.mode config = .onDemand → latestRefresh (g.mode config) host calls =
    latestRefresh (g.mode config) host (calls.filter fun call => !call.isRead)

theorem fresh_read (lawful : g.Lawful) (config : SnapshotConfig) {roles : List Role}
    (known : host < roles.length) {calls : List BoardCall} {live : LiveLoad}
    {pending inFlight clock : Nat}
    (ordered : (calls ++ [BoardCall.read host live pending inFlight clock]).Pairwise fun a b =>
      a.clock ≤ b.clock) :
    Fresh g config host (calls ++ [.read host live pending inFlight clock]) clock
      (((new config roles).after calls).read host live pending inFlight clock).1 := by
  obtain ⟨before, _, past⟩ := List.pairwise_append.mp ordered
  obtain ⟨p, found, _⟩ := tracks_after lawful config known before
  obtain ⟨p', found', posted⟩ := tracks_after lawful config known ordered
  obtain ⟨q, reads, _⟩ := read_known found live pending inFlight clock
  have inside := (Array.getElem?_eq_some_iff.mp found).1
  constructor
  case shows =>
    rw [after, List.foldl_append] at found'
    simp only [List.foldl_cons, List.foldl_nil, BoardCall.run] at found'
    rw [← after, reads, Array.getElem?_setIfInBounds_self_of_lt inside] at found'
    rw [reads, Option.some.inj found']
    exact (Prod.mk.inj posted).1
  case young =>
    intro interval mode positive
    have upTo : Refresh.since (latestRefresh (g.mode config) host calls) ≤ clock :=
      since_latestRefresh_le fun a ha => past a ha _ List.mem_cons_self
    rw [latestRefresh_concat, mode, BoardCall.refresh?]
    by_cases renews : (RefreshMode.periodic interval).Renews
        (Refresh.since (latestRefresh (.periodic interval) host calls)) clock
    · rw [if_pos ⟨rfl, renews⟩]
      exact ⟨Nat.le_refl clock, Nat.lt_add_of_pos_right positive⟩
    · rw [if_neg fun both => renews both.2]
      exact ⟨mode ▸ upTo, Nat.lt_of_not_le renews⟩
  case demanded =>
    intro mode
    rw [mode]
    exact latestRefresh_onDemand host _

/-- What a reading of an instance answers after some calls, which end in it. -/
structure Answers (config : SnapshotConfig) (calls : List BoardCall)
    (host pending inFlight clock : Nat) (s : Snapshot) : Prop where
  own : s.id = host
  queueDepth : Fresh .queueDepth config host calls clock s
  batchSize : Fresh .batchSize config host calls clock s
  kv : Fresh .kv config host calls clock s
  counters : s.pending = pending ∧ s.inFlight = inFlight ∧ s.timestamp = clock

theorem posted_after (config : SnapshotConfig) (roles : List Role) (calls : List BoardCall) :
    Posted roles ((new config roles).after calls) := by
  induction calls using List.reverseRecOn with
  | nil => exact Posted.new config roles
  | append_singleton calls call ih =>
      rw [after, List.foldl_append]
      cases call with
      | read id live pending inFlight clock =>
          by_cases known : id < roles.length
          · exact (ih.read known live pending inFlight clock).2.2
          · have unknown := Array.getElem?_eq_none (ih.size.symm ▸ Nat.le_of_not_lt known)
            simp only [List.foldl_cons, List.foldl_nil, BoardCall.run]
            rw [← after, read_unknown unknown]
            exact ih
      | refreshAll loads clock => exact ih.refreshAll loads clock

/-- Whatever a new board is read and refreshed for, as long as time does not go back, a reading of
an instance shows each of its fields as of the latest refresh, and the counters as they are. What
the board does not know it shows as idle, and it stays as it is. -/
theorem reads_show_latest (config : SnapshotConfig) (roles : List Role) (calls : List BoardCall)
    (host : Nat) (live : LiveLoad) (pending inFlight clock : Nat)
    (ordered : (calls ++ [BoardCall.read host live pending inFlight clock]).Pairwise fun a b =>
      a.clock ≤ b.clock) :
    (host < roles.length → Answers config (calls ++ [.read host live pending inFlight clock]) host
      pending inFlight clock
      (((new config roles).after calls).read host live pending inFlight clock).1) ∧
    (roles.length ≤ host →
      ((new config roles).after calls).read host live pending inFlight clock =
        ({ id := host, role := .unified }, (new config roles).after calls)) := by
  have posted := posted_after config roles calls
  constructor
  · intro known
    obtain ⟨p, found⟩ : ∃ p, ((new config roles).after calls).posted[host]? = some p :=
      ⟨_, Array.getElem?_eq_getElem (posted.size.symm ▸ known)⟩
    obtain ⟨q, reads, made⟩ := read_known found live pending inFlight clock
    constructor
    case own => exact (posted.read known live pending inFlight clock).1
    case queueDepth => exact fresh_read FieldGroup.queueDepth_lawful config known ordered
    case batchSize => exact fresh_read FieldGroup.batchSize_lawful config known ordered
    case kv => exact fresh_read FieldGroup.kv_lawful config known ordered
    case counters =>
      rw [reads, made]
      exact ⟨rfl, rfl, rfl⟩
  · intro unknown
    exact read_unknown (Array.getElem?_eq_none (posted.size.symm ▸ unknown)) live pending inFlight
      clock

/-- A queue depth that is seen ten ticks late, and a batch size on demand. -/
theorem late_board_shows_latest :
    let config : SnapshotConfig := { queueDepth := .periodic 10, batchSize := .onDemand }
    let load (n : Nat) : LiveLoad := ⟨n, n, 0.5, n, 0.25⟩
    let calls : List BoardCall := [.read 0 (load 1) 0 0 9, .read 0 (load 2) 0 0 10,
      .refreshAll [load 3] 12, .read 1 (load 4) 0 0 13, .read 0 (load 5) 0 0 21]
    let s := (((SnapshotBoard.new config [.prefill, .decode]).after calls).read 0 (load 6) 7 8 21).1
    (calls ++ [BoardCall.read 0 (load 6) 7 8 21]).Pairwise (fun a b => a.clock ≤ b.clock) ∧
    s.queueDepth = 3 ∧ s.batchSize = 3 ∧ s.freeKvBlocks = 6 ∧
    Answers config (calls ++ [.read 0 (load 6) 7 8 21]) 0 7 8 21 s := by
  intro config load calls s
  have ordered : (calls ++ [BoardCall.read 0 (load 6) 7 8 21]).Pairwise
      (fun a b => a.clock ≤ b.clock) := by decide
  exact ⟨ordered, by decide, by decide, by decide,
    (reads_show_latest config _ calls 0 (load 6) 7 8 21 ordered).1 (by decide)⟩

end SnapshotBoard
end InferenceSim
