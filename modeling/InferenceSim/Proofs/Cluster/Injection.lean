import InferenceSim.Proofs.Cluster.Guises
import Mathlib.Data.List.Forall2

/-! The order in which requests are injected. Requests that arrive at different times come in
order of these, so only the order among those of one time matters; a run looks the same but for
the numbers that its arrivals got at their injection. -/
namespace InferenceSim

/-- Requests that arrive at one time come in the same order. -/
def SameTies (rs ss : List Request) : Prop :=
  ∀ t, rs.filter (·.arrivalTime = t) = ss.filter (·.arrivalTime = t)

/-- Entries that tell the same, but for the number of an arrival at the cluster. -/
structure LoggedEvent.Alike (a b : LoggedEvent) : Prop where
  time : a.time = b.time
  kind : a.kind = b.kind
  host : a.host = b.host
  request : a.request = b.request
  seq : a.kind ≠ EventLabel.clusterArrival.name → a.seq = b.seq

section Ties
variable {α : Type} {key : α → Nat} {xs ys : List α}

theorem eq_of_filters_eq (hxs : xs.Pairwise fun a b => key a ≤ key b)
    (hys : ys.Pairwise fun a b => key a ≤ key b)
    (same : ∀ t, xs.filter (key · = t) = ys.filter (key · = t)) : xs = ys := by
  have mem : ∀ a, a ∈ xs ↔ a ∈ ys := fun a => by
    have found := congrArg (a ∈ ·) (same (key a))
    simpa using found
  induction xs generalizing ys with
  | nil => exact (List.eq_nil_iff_forall_not_mem.mpr fun a ha => List.not_mem_nil ((mem a).mpr ha)).symm
  | cons x xs ih =>
      cases ys with
      | nil => exact absurd ((mem x).mp List.mem_cons_self) List.not_mem_nil
      | cons y ys =>
          obtain ⟨first, sorted⟩ := List.pairwise_cons.mp hxs
          obtain ⟨first', sorted'⟩ := List.pairwise_cons.mp hys
          have least : key x = key y := by
            refine Nat.le_antisymm ?_ ?_
            · rcases List.mem_cons.mp ((mem y).mpr List.mem_cons_self) with rfl | later
              · exact Nat.le_refl _
              · exact first y later
            · rcases List.mem_cons.mp ((mem x).mp List.mem_cons_self) with rfl | later
              · exact Nat.le_refl _
              · exact first' x later
          have heads := same (key x)
          rw [List.filter_cons_of_pos (by simp), List.filter_cons_of_pos (by simp [least])] at heads
          obtain ⟨rfl, _⟩ := List.cons.inj heads
          have rest : ∀ t, xs.filter (key · = t) = ys.filter (key · = t) := fun t => by
            have whole := same t
            rw [List.filter_cons, List.filter_cons] at whole
            split at whole
            · exact (List.cons.inj whole).2
            · exact whole
          rw [ih sorted sorted' rest fun a => by simpa using congrArg (a ∈ ·) (rest (key a))]

end Ties

theorem sameTies_of_nodup {rs ss : List Request} (same : rs.Perm ss)
    (differ : (rs.map (·.arrivalTime)).Nodup) : SameTies rs ss := by
  intro t
  have tied := same.filter (·.arrivalTime = t)
  have alone := (differ.sublist (List.filter_sublist.map _) :
    ((rs.filter (·.arrivalTime = t)).map (·.arrivalTime)).Nodup)
  have at' : ∀ r ∈ rs.filter (·.arrivalTime = t), r.arrivalTime = t := fun r hr => by
    simpa using (List.mem_filter.mp hr).2
  generalize rs.filter (·.arrivalTime = t) = xs at *
  match xs with
  | [] => exact tied.nil_eq
  | [r] => exact tied.singleton_eq
  | r :: s :: _ =>
      rw [List.map_cons, List.map_cons, at' r (by simp), at' s (by simp)] at alone
      simp at alone

namespace EventQueue
variable {q d : EventQueue} {rs : List Request} {r : Request} {e : Event} {es : List Event}

theorem filter_insert (arrives : e.action.isArrival = true)
    (others : ∀ x ∈ es, x.action.isArrival = true ∧ x.seq < e.seq)
    (sorted : es.Pairwise fun a b => a.time ≤ b.time) (t : Nat) :
    (insert e es).filter (·.time = t) = es.filter (·.time = t) ++ [e].filter (·.time = t) := by
  induction es with
  | nil => rfl
  | cons head rest ih =>
      obtain ⟨first, sorted'⟩ := List.pairwise_cons.mp sorted
      obtain ⟨⟨arrives', older⟩, others'⟩ := List.forall_mem_cons.mp others
      unfold insert
      split
      · next earlier =>
        have before : e.time < head.time := by
          simp only [Event.before, e.action.priority_of_isArrival arrives,
            head.action.priority_of_isArrival arrives', Bool.or_eq_true, Bool.and_eq_true,
            decide_eq_true_eq] at earlier
          omega
        rw [List.filter_cons, List.filter_singleton]
        by_cases now : e.time = t
        · have none : (head :: rest).filter (·.time = t) = [] := by
            refine List.filter_eq_nil_iff.mpr (List.forall_mem_cons.mpr ⟨?_, fun x hx => ?_⟩)
            · simpa using show head.time ≠ t by omega
            · have := first x hx
              simpa using show x.time ≠ t by omega
          rw [none, if_pos (decide_eq_true now)]
          simp [now]
        · simp [now]
      · rw [List.filter_cons, List.filter_cons, ih others' sorted']
        split <;> rfl

/-- Only arrivals are to come, in order of their times, and those of one time in the order of
their injection. -/
structure Receives (rs : List Request) (q : EventQueue) : Prop where
  now : q.now = 0
  count : q.nextSeq = rs.length
  older : ∀ e ∈ q.pending, e.action.isArrival = true ∧ e.seq < q.nextSeq
  sorted : q.pending.Pairwise fun a b => a.time ≤ b.time
  ties : ∀ t, (q.pending.filter (·.time = t)).map (·.action)
    = (rs.filter (·.arrivalTime = t)).map .clusterArrival

theorem Receives.schedule (k : Receives rs q) :
    ∃ n d, q.schedule r.arrivalTime (.clusterArrival r) = .ok (n, d) ∧ Receives (rs ++ [r]) d := by
  refine ⟨q.nextSeq, _, if_neg (by rw [k.now]; exact Nat.not_lt_zero _), k.now, ?_, ?_,
    insert_sorted _ k.sorted, fun t => ?_⟩
  · rw [List.length_append, ← k.count]
    rfl
  · intro e he
    rcases List.mem_cons.mp ((insert_perm _ _).mem_iff.mp he) with rfl | old
    · exact ⟨rfl, Nat.lt_succ_self _⟩
    · exact ⟨(k.older e old).1, Nat.lt_succ_of_lt (k.older e old).2⟩
  · rw [filter_insert rfl k.older k.sorted, List.map_append, k.ties, List.filter_append,
      List.map_append]
    congr 1
    by_cases now : r.arrivalTime = t <;> simp [now]

end EventQueue

namespace Guise

/-- The numbers of arrivals are hidden. -/
def unnumbered : Guise where
  horizon := id
  event e := if e.action.isArrival then { e with seq := 0 } else e
  time e := by split <;> rfl
  action e := by split <;> rfl
  later e h := by rw [h]; rfl
  entry x := if x.kind = EventLabel.clusterArrival.name then { x with seq := 0 } else x
  logged e := by
    have kind : e.action.isArrival = true ↔
        (LoggedEvent.ofEvent e).kind = EventLabel.clusterArrival.name := by
      unfold LoggedEvent.ofEvent
      cases e.action <;> simp [Action.isArrival, Action.label, EventLabel.name]
    by_cases h : e.action.isArrival = true
    · rw [if_pos h, if_pos (kind.mp h)]
      rfl
    · rw [if_neg h, if_neg fun named => h (kind.mpr named)]

theorem alike_of_unnumbered {a b : LoggedEvent} (same : unnumbered.entry a = unnumbered.entry b) :
    a.Alike b := by
  have entry : ∀ x : LoggedEvent, unnumbered.entry x = { x with seq := (unnumbered.entry x).seq } :=
    fun x => by
      unfold unnumbered
      dsimp only
      split <;> rfl
  obtain ⟨time, seq, kind, host, request⟩ := LoggedEvent.mk.inj ((entry a).symm.trans (same.trans (entry b)))
  refine ⟨time, kind, host, request, fun other => ?_⟩
  simpa [unnumbered, other, ← kind] using seq

theorem filter_unnumbered {rs : List Request} {q : EventQueue} (k : q.Receives rs) (t : Nat) :
    (unnumbered.queue q).pending.filter (·.time = t)
      = (rs.filter (·.arrivalTime = t)).map fun r => ⟨t, 0, .clusterArrival r⟩ := by
  have bare : ∀ e ∈ q.pending.filter (·.time = t), unnumbered.event e = ⟨t, 0, e.action⟩ := by
    intro e he
    obtain ⟨pending, now⟩ := List.mem_filter.mp he
    rw [← of_decide_eq_true now]
    exact if_pos (k.older e pending).1
  have times : (fun e : Event => decide (e.time = t)) ∘ unnumbered.event
      = fun e => decide (e.time = t) := funext fun e => by simp [unnumbered.time]
  rw [queue, List.filter_map, times, List.map_congr_left bare]
  have ties := congrArg (List.map fun a => (⟨t, 0, a⟩ : Event)) (k.ties t)
  rwa [List.map_map, List.map_map] at ties

end Guise

namespace Cluster

/-- A run over some requests has the same summary, decisions and log as a run over others, but
for the numbers of the arrivals in the log. -/
def RunsAlike (c : Cluster) (rs ss : List Request) : Prop :=
  ∃ s d e, c.runWith rs = (.ok s, d) ∧ c.runWith ss = (.ok s, e) ∧ d.trace = e.trace ∧
    d.eventLog.isSome ∧ e.eventLog.isSome ∧ List.Forall₂ LoggedEvent.Alike d.entries e.entries

variable {config : Config} {rs ss : List Request} {c d e : Cluster}

theorem receives_of_injectAll {todo : List Request} (k : c.events.Receives rs)
    (done : c.injectAll todo = .ok d) :
    d.events.Receives (rs ++ todo) ∧
      d = { c with events := d.events, injected := c.injected + todo.length } := by
  induction todo generalizing rs c with
  | nil =>
      obtain rfl := Except.ok.inj done
      exact ⟨(List.append_nil rs).symm ▸ k, rfl⟩
  | cons r rest ih =>
      obtain ⟨b, first, done⟩ := ok_of_bind done
      obtain ⟨n, q, scheduled, k'⟩ := k.schedule (r := r)
      simp only [inject, Cluster.schedule, scheduled] at first
      obtain rfl := Except.ok.inj first
      obtain ⟨left, same⟩ := ih k' done
      refine ⟨by rwa [List.append_assoc] at left, same.trans ?_⟩
      rw [List.length_cons, Nat.add_comm rest.length, ← Nat.add_assoc]

theorem unnumbered_of_injectAll (empty : c.events = {}) (same : rs.Perm ss) (ties : SameTies rs ss)
    (one : c.injectAll rs = .ok d) (other : c.injectAll ss = .ok e) :
    Guise.unnumbered.wear d = Guise.unnumbered.wear e := by
  have none : c.events.Receives [] := by
    rw [empty]
    exact ⟨rfl, rfl, List.forall_mem_nil _, .nil, fun _ => rfl⟩
  obtain ⟨k, hd⟩ := receives_of_injectAll none one
  obtain ⟨k', he⟩ := receives_of_injectAll none other
  have sorted : ∀ {ts : List Request} {q : EventQueue}, q.Receives ts →
      (Guise.unnumbered.queue q).pending.Pairwise fun a b => a.time ≤ b.time := fun k => by
    refine List.pairwise_map.mpr (k.sorted.imp fun le => ?_)
    rwa [Guise.unnumbered.time, Guise.unnumbered.time]
  have pending : (Guise.unnumbered.queue d.events).pending
      = (Guise.unnumbered.queue e.events).pending := by
    refine eq_of_filters_eq (sorted k) (sorted k') fun t => ?_
    rw [Guise.filter_unnumbered k, Guise.filter_unnumbered k']
    exact congrArg _ (ties t)
  have queues : Guise.unnumbered.queue d.events = Guise.unnumbered.queue e.events := by
    refine EventQueue.mk.injEq .. ▸ ⟨pending, ?_, k.now.trans k'.now.symm⟩
    exact k.count.trans (same.length_eq.trans k'.count.symm)
  rw [hd, he]
  simp only [Guise.wear, queues, same.length_eq]

theorem runsAlike_of_worn {b b' : Cluster} {s s' : RunSummary}
    (worn : Guise.unnumbered.wear b = Guise.unnumbered.wear b')
    (one : c.injectAll rs = .ok b) (other : c.injectAll ss = .ok b')
    (ran : b.run = (.ok s, d)) (ran' : b'.run = (.ok s', e))
    (logging : d.eventLog.isSome) (logging' : e.eventLog.isSome) : c.RunsAlike rs ss := by
  have runs := congrArg Cluster.run worn
  rw [Guise.run rfl, Guise.run rfl, ran, ran'] at runs
  obtain ⟨summary, same⟩ := Prod.mk.inj runs
  obtain rfl := Except.ok.inj summary
  have one' : c.runWith rs = b.run := by rw [runWith, one]
  have other' : c.runWith ss = b'.run := by rw [runWith, other]
  have traces : d.trace = e.trace := show (Guise.unnumbered.wear d).trace = _ from same ▸ rfl
  have entries := congrArg Cluster.entries same
  rw [Guise.entries, Guise.entries] at entries
  rw [← List.forall₂_eq_eq_eq, List.forall₂_map_left_iff, List.forall₂_map_right_iff] at entries
  exact ⟨s, d, e, one'.trans ran, other'.trans ran', traces, logging, logging',
    entries.imp fun _ _ => Guise.alike_of_unnumbered⟩

/-- Requests may be injected in any order that keeps those of one time in theirs, so in any order
at all if they arrive at different times. -/
theorem injection_order_free (valid : config.validate = .ok ()) (trace : DecisionTrace)
    (fresh : ∀ r ∈ rs, r.Fresh) (distinct : (rs.map (·.id)).Nodup) (same : rs.Perm ss) :
    ∃ c, new config trace = .ok c ∧ (SameTies rs ss → c.withEventLog.RunsAlike rs ss) ∧
      ((rs.map (·.arrivalTime)).Nodup → c.withEventLog.RunsAlike rs ss) := by
  have promised := promised_of_validate valid
  obtain ⟨c, d, launched, made, injected, started, coherent, logged, recalls⟩ :=
    logged_launch_ok valid trace fresh
  obtain ⟨c', d', launched', made', injected', started', coherent', logged', recalls'⟩ :=
    logged_launch_ok valid trace fun r hr => fresh r (same.mem_iff.mpr hr)
  obtain rfl := Except.ok.inj (made.symm.trans made')
  have alike : SameTies rs ss → c.withEventLog.RunsAlike rs ss := fun ties => by
    have empty : c.withEventLog.events = {} := by
      obtain ⟨_, _, rfl⟩ := new_inv made
      rfl
    obtain ⟨s, f, ran, logs, _⟩ :=
      logged_run_ok promised.valid distinct started coherent logged recalls
    obtain ⟨s', f', ran', logs', _⟩ :=
      logged_run_ok promised.valid ((same.map _).nodup_iff.mp distinct) started' coherent' logged'
        recalls'
    exact runsAlike_of_worn (unnumbered_of_injectAll empty same ties injected injected') injected
      injected' ran ran' logs logs'
  exact ⟨c, made, alike, fun differ => alike (sameTies_of_nodup same differ)⟩

theorem tied_runs_alike : ∃ c, new {} { topK := 2 } = .ok c ∧
    c.withEventLog.RunsAlike
      [{ id := 5, arrivalTime := 4, inputTokens := 30, outputTokens := 2 },
        { id := 2, arrivalTime := 1, inputTokens := 9, outputTokens := 6 },
        { id := 9, arrivalTime := 4, inputTokens := 30, outputTokens := 1 }]
      [{ id := 2, arrivalTime := 1, inputTokens := 9, outputTokens := 6 },
        { id := 5, arrivalTime := 4, inputTokens := 30, outputTokens := 2 },
        { id := 9, arrivalTime := 4, inputTokens := 30, outputTokens := 1 }] := by
  refine (injection_order_free ?_ { topK := 2 } ?_ ?_ ?_).imp fun c alike =>
    ⟨alike.1, alike.2.1 fun t => ?_⟩
  · rfl
  · exact List.forall_mem_cons.mpr
      ⟨rfl, List.forall_mem_cons.mpr ⟨rfl, List.forall_mem_singleton.mpr rfl⟩⟩
  · decide
  · exact .swap _ _ _
  · by_cases first : 1 = t
    · subst first
      rfl
    · simp [List.filter_cons, first]

end Cluster

end InferenceSim
