import InferenceSim.Proofs.Cluster.Journeys
import InferenceSim.Proofs.Instance.Lines

/-! First come, first served in a run. A request joins the queue of an instance once: what may
still come to it has not been there, since nothing is decoded where its prompt was computed. So
every instance serves in the order in which its queue was joined. -/
namespace InferenceSim

namespace Instance

/-- The request that joins the queue when some request arrives, if it does. -/
def joining (i : Instance) (r : Request) (now : Nat) (q : EventQueue) : Option Nat :=
  match (i.enqueue r now q).1 with
  | .ok .queued => some r.id
  | _ => none

/-- The requests that a step admits. -/
def admitting (i : Instance) (now : Nat) : Option (List Nat) :=
  match formBatch i.limits i.scheduler now ⟨i.running, i.queue, i.kv.setClock now⟩ with
  | .ok (o, _) => some o.admitted
  | .error _ => none

end Instance

namespace Stand

/-- A request that may still join the queue of an instance. -/
def Coming (host : Nat) (s : Stand) : Prop :=
  match s.place with
  | .arriving | .asking | .routed => True
  | .sent h | .crossing h => h = host ∨ s.stem.decodeTarget = some host
  | .held _ => s.stem.decodeTarget = some host

/-- A request that is not going to be decoded on the instance that it is at or is sent to. -/
def Parted (s : Stand) : Prop :=
  match s.place with
  | .arriving | .asking | .routed => True
  | .sent h | .held h | .crossing h => s.stem.decodeTarget ≠ some h

/-- A request has nothing to come for where it is held. -/
theorem Parted.gone {s : Stand} {host : Nat} (k : s.Parted) (held : s.place = .held host) :
    ¬s.Coming host := by
  unfold Parted Coming at *
  rw [held] at k ⊢
  exact k

end Stand

theorem ClusterSettings.Assigns.ne {c : ClusterSettings} {host : Nat} {decode : Option Nat}
    (k : c.Assigns host decode) : decode ≠ some host := by
  rintro rfl
  obtain ⟨_, prefills, decodes⟩ := k
  cases prefills.symm.trans decodes

section
variable {settings : ClusterSettings} {s t : Stand} {n : News}

/-- What may come to an instance might have come to it before. -/
theorem Moved.coming (k : Moved settings s n t) {host : Nat} (coming : t.Coming host) :
    s.Coming host := by
  cases k with
  | stay => exact coming
  | ask | delay | grant | send => exact trivial
  | join | resume => exact .inr coming
  | handOff _ target further =>
      subst further
      rcases coming with rfl | more
      · exact target
      · cases more

theorem Moved.parted (k : Moved settings s n t) (parted : s.Parted) : t.Parted := by
  cases k with
  | stay | join | resume => exact parted
  | ask | delay | grant => exact trivial
  | send _ assigned => exact assigned.ne
  | handOff _ target further =>
      subst further
      exact (Option.some_ne_none _).symm

end

namespace Cluster

/-- What an action of the next event shows, once the event has begun. -/
def next? {α : Type} (f : Cluster → Action → Option α) (c : Cluster) : Option α :=
  match c.events.pop? with
  | some (e, q) =>
    match c.begin e q with
    | .ok b => f b e.action
    | .error _ => none
  | none => none

/-- The request that joins the queue of an instance. -/
def joining (host : Nat) (c : Cluster) : Action → Option Nat
  | .instanceArrival h r | .kvTransferComplete h r =>
    if h = host then (c.instances[host]?).bind fun i => i.joining r c.now c.events else none
  | _ => none

def admitting (host : Nat) (c : Cluster) : Action → Option (List Nat)
  | .step h => if h = host then (c.instances[host]?).bind fun i => i.admitting c.now else none
  | _ => none

/-- The requests that join the queue of an instance in a run, in order. -/
def joined (host limit : Nat) (c : Cluster) : List Nat :=
  (c.path limit).filterMap (next? (joining host))

/-- The requests that each step of an instance admits in a run. -/
def admissions (host limit : Nat) (c : Cluster) : List (List Nat) :=
  (c.path limit).filterMap (next? (admitting host))

/-- Every instance of a cluster that has passed through some states has served in order. -/
structure InOrder (past : List Cluster) (c : Cluster) : Prop where
  parted : ∀ s ∈ c.stands, s.Parted
  gone : ∀ host, ∀ x ∈ past.filterMap (next? (joining host)), ∀ s ∈ c.stands, s.id = x →
    ¬s.Coming host
  lined : ∀ (host : Nat) (i : Instance), c.instances[host]? = some i →
    i.Lined (past.filterMap (next? (joining host))) (past.filterMap (next? (admitting host)))

variable {config : Config} {rs : List Request} {b c d : Cluster} {l m : Ledger} {a : Action}
  {e : Event} {past : List Cluster} {host x : Nat} {i j : Instance} {joined : List Nat}
  {admissions : List (List Nat)}

theorem Ran.next?_eq {α : Type} (ran : Ran c e b d) (f : Cluster → Action → Option α) :
    c.next? f = f b e.action := by
  obtain ⟨q, popped, begun⟩ := ran.popped
  simp only [next?, popped, begun]

theorem joining_inv (joins : b.joining host a = some x) : ∃ r, r.id = x ∧
    (a = .instanceArrival host r ∨ a = .kvTransferComplete host r) := by
  have arrives : ∀ {h : Nat} {r : Request}, (if h = host then
      (b.instances[host]?).bind fun i => i.joining r b.now b.events else none) = some x →
      h = host ∧ r.id = x := by
    intro h r joins
    split at joins
    · next here =>
      obtain ⟨i, _, joins⟩ := Option.bind_eq_some_iff.mp joins
      unfold Instance.joining at joins
      split at joins
      · exact ⟨here, Option.some.inj joins⟩
      · cases joins
    · cases joins
  cases a with
  | instanceArrival h r =>
      obtain ⟨rfl, own⟩ := arrives joins
      exact ⟨r, own, .inl rfl⟩
  | kvTransferComplete h r =>
      obtain ⟨rfl, own⟩ := arrives joins
      exact ⟨r, own, .inr rfl⟩
  | _ => cases joins

theorem coming_of_joining (joins : b.joining host a = some x) :
    ∃ s, a.stand? = some s ∧ s.id = x ∧ s.Coming host := by
  obtain ⟨r, rfl, rfl | rfl⟩ := joining_inv joins <;> exact ⟨_, rfl, rfl, Or.inl rfl⟩

theorem joining_host (joins : b.joining host a = some x) : ∃ i, b.instances[host]? = some i := by
  obtain ⟨r, _, rfl | rfl⟩ := joining_inv joins
  all_goals
    rw [joining, if_pos rfl] at joins
    obtain ⟨i, at', _⟩ := Option.bind_eq_some_iff.mp joins
    exact ⟨i, at'⟩

theorem joining_other (other : a.host? ≠ some host) : b.joining host a = none := by
  refine Option.eq_none_iff_forall_ne_some.mpr fun x joins => other ?_
  obtain ⟨r, _, rfl | rfl⟩ := joining_inv joins <;> rfl

theorem admitting_other (other : a ≠ .step host) : b.admitting host a = none := by
  cases a with
  | step h => exact if_neg fun here => other (congrArg _ here)
  | _ => rfl

theorem lined_enqueue {r : Request} {out : Enqueued} {now : Nat} {q d : EventQueue}
    (done : i.enqueue r now q = (.ok out, j, d)) (new : ∀ x, i.joining r now q = some x → x ∉ joined)
    (lined : i.Lined joined admissions) :
    j.Lined (joined ++ (i.joining r now q).toList) admissions := by
  rw [Instance.joining, done] at new ⊢
  cases out with
  | queued => exact lined.join (new _ rfl) done
  | rejected s reason =>
      obtain ⟨_, rfl⟩ := Instance.rejected_inv done
      rw [Option.toList_none, List.append_nil]
      exact lined.narrow rfl (.refl _) rfl

theorem lined_turn (k : Coherent config rs [a] b l) (at' : b.instances[host]? = some i)
    (turn : Turn b host i a j) (new : ∀ x, b.joining host a = some x → x ∉ joined)
    (lined : i.Lined joined admissions) :
    j.Lined (joined ++ (b.joining host a).toList) (admissions ++ (b.admitting host a).toList) := by
  have arrives : ∀ r, (if host = host then
      (b.instances[host]?).bind fun i => i.joining r b.now b.events else none) =
      i.joining r b.now b.events := fun r => by rw [if_pos rfl, at', Option.bind_some]
  cases turn with
  | rest other =>
      have still : a ≠ .step host := fun step => other (step ▸ rfl)
      rw [joining_other other, admitting_other still, Option.toList_none, List.append_nil,
        Option.toList_none, List.append_nil]
      exact lined
  | @arrive r out j q done | @transfer r out j q done =>
      rw [joining, arrives] at new ⊢
      rw [admitting_other Action.noConfusion, Option.toList_none, List.append_nil]
      exact lined_enqueue done new lined
  | step done =>
      obtain ⟨o, t, formed, left⟩ := lined.step done
      have admits : b.admitting host (.step host) = some o.admitted := by
        rw [admitting, if_pos rfl, at', Option.bind_some, Instance.admitting, formed]
      have nobody : b.joining host (.step host) = none := rfl
      rw [admits, nobody, Option.toList_none, List.append_nil]
      exact left
  | complete done rescored =>
      obtain ⟨_, o, flight⟩ := Instance.flight_of_awaited (k.awaits at' (decide_eq_true rfl))
      have left := lined.complete (k.employs host i at').coherent flight done
      have nobody : b.joining host (.stepComplete host) = none := rfl
      have none : b.admitting host (.stepComplete host) = none := rfl
      rw [nobody, none, Option.toList_none, List.append_nil, Option.toList_none, List.append_nil]
      rcases rescored with rfl | ⟨rule, rfl⟩
      · exact left
      · exact left.rescore rule

theorem held_of_joining (own : j.id = host) (at' : b.instances[host]? = some i)
    (turn : Turn b host i a j) (joins : b.joining host a = some x) :
    ∃ s ∈ j.stands, s.id = x ∧ s.place = .held host := by
  have queued : ∀ {r : Request} {out : Enqueued} {q : EventQueue},
      i.enqueue r b.now b.events = (.ok out, j, q) →
      (if host = host then (b.instances[host]?).bind fun i => i.joining r b.now b.events
        else none) = some x → ∃ s ∈ j.stands, s.id = x ∧ s.place = .held host := by
    intro r out q done joins
    rw [if_pos rfl, at', Option.bind_some, Instance.joining, done] at joins
    cases out with
    | rejected => cases joins
    | queued =>
        obtain ⟨s, ⟨state, host', rfl⟩, same⟩ := Instance.queued_inv done
        refine ⟨⟨r.stem, .held j.id⟩, ?_, Option.some.inj joins, congrArg _ own⟩
        rw [same]
        exact List.mem_map.mpr ⟨_, List.mem_append_right _ (List.mem_append_right _
          List.mem_cons_self), rfl⟩
  cases turn with
  | rest other => cases (joining_other other).symm.trans joins
  | arrive done => exact queued done joins
  | transfer done => exact queued done joins
  | step | complete => cases joins

/-- One event keeps every instance in order. -/
theorem InOrder.ran (valid : config.cluster.Valid) (distinct : (rs.map (·.id)).Nodup)
    (k : Coherent config rs [] c l) (g : Logged config rs c l) (ran : Ran c e b d)
    (after : Coherent config rs [] d m) (before : InOrder past c) : InOrder (past ++ [c]) d := by
  obtain ⟨k', instances, _⟩ := ran.begins k g
  obtain ⟨notes, reported⟩ := ran.reported valid distinct k g
  have passage := reported.passage
  have parted : ∀ t ∈ d.stands, t.Parted := fun t ht => by
    obtain ⟨s, hs, _, moved⟩ := passage.moved t ht
    exact moved.parted (before.parted s hs)
  have adds : ∀ {α : Type} (f : Cluster → Action → Option α),
      (past ++ [c]).filterMap (next? f) = past.filterMap (next? f) ++ (f b e.action).toList := by
    intro α f
    rw [List.filterMap_append, List.filterMap_cons, List.filterMap_nil, ran.next?_eq]
    cases f b e.action <;> rfl
  have new : ∀ host x, b.joining host e.action = some x →
      x ∉ past.filterMap (next? (joining host)) := by
    intro host x joins inside
    have here : e.action ∈ c.events.actions := by
      rw [ran.actions k g]
      exact List.mem_cons_self
    obtain ⟨s, stands, own, coming⟩ := coming_of_joining joins
    exact before.gone host x inside s (mem_stands here stands) own coming
  refine ⟨parted, fun host x hx t ht own coming => ?_, fun host j at'' => ?_⟩
  · rw [adds] at hx
    rcases List.mem_append.mp hx with old | now
    · obtain ⟨s, hs, same, moved⟩ := passage.moved t ht
      exact before.gone host x old s hs (same.trans own) (moved.coming coming)
    · have joins : b.joining host e.action = some x := Option.mem_toList.mp now
      obtain ⟨i, at'⟩ := joining_host joins
      obtain ⟨j, at'', turn⟩ := ran.effect.turns at'
      obtain ⟨s, hs, same, held⟩ :=
        held_of_joining (after.employs host j at'').own at' turn joins
      have here : s ∈ d.stands :=
        List.mem_append_right _ (List.mem_flatMap.mpr ⟨_, List.mem_of_getElem? at'', hs⟩)
      obtain rfl : t = s := List.inj_on_of_nodup_map (after.standing_nodup distinct) ht here
        (own.trans same.symm)
      exact (parted t ht).gone held coming
  · obtain ⟨i, at', turn⟩ := ran.effect.turned at''
    rw [adds, adds]
    exact lined_turn k' at' turn (new host) (before.lined host i (instances ▸ at'))

theorem InOrder.of_launch {launched : Cluster} {trace : DecisionTrace}
    (fcfs : config.policies.scheduler = .fcfs) (made : new config trace = .ok c)
    (injected : c.injectAll rs = .ok d) (started : d.start = .ok launched) :
    InOrder [] launched := by
  have awaits := ((awaits_of_new made).injectAll injected).start started
  obtain ⟨_, _, rfl⟩ := new_inv made
  obtain ⟨_, _, rfl⟩ := injectAll_inv injected
  obtain ⟨_, rfl⟩ := start_inv started
  refine ⟨fun s hs => ?_, fun _ => List.forall_mem_nil _, fun host i at' => ?_⟩
  · obtain ⟨r, _, rfl⟩ := awaits.arriving s hs
    exact trivial
  · obtain ⟨n, hm, rfl⟩ := List.mem_map.mp (List.mem_of_getElem? at')
    obtain ⟨⟨role, id⟩, _, rfl⟩ := List.mem_map.mp hm
    exact fcfs ▸ .new id role

theorem findIdx_le_of_fair {admissions : List (List Nat)} {a b : Nat}
    (fair : ∀ past, past <+: admissions → b ∈ past.flatten → a ∈ past.flatten) :
    admissions.findIdx (a ∈ ·) ≤ admissions.findIdx (b ∈ ·) := by
  refine Nat.le_of_not_lt fun sooner => ?_
  have inside : admissions.findIdx (b ∈ ·) < admissions.length :=
    Nat.lt_of_lt_of_le sooner List.findIdx_le_length
  have admitted := of_decide_eq_true (List.findIdx_getElem (w := inside))
  have before := fair _ (List.take_prefix (admissions.findIdx (b ∈ ·) + 1) admissions)
    (List.mem_flatten.mpr ⟨_, List.mem_take_iff_getElem.mpr ⟨_, by omega, rfl⟩, admitted⟩)
  obtain ⟨ids, step, own⟩ := List.mem_flatten.mp before
  obtain ⟨m, least, rfl⟩ := List.mem_take_iff_getElem.mp step
  have earlier : m < admissions.findIdx (a ∈ ·) := by omega
  exact of_decide_eq_false (List.not_of_lt_findIdx earlier) own

/-- Whoever is first in the line of an instance is served first. However far a run has come, the
requests that run and those that wait stand in the order in which they joined the queue, and so of
two requests that joined it the later one does not run while the other one waits, nor is it
admitted in an earlier step. -/
theorem fcfs_serves_in_order (valid : config.validate = .ok ())
    (fcfs : config.policies.scheduler = .fcfs) (trace : DecisionTrace)
    (fresh : ∀ r ∈ rs, r.Fresh) (distinct : (rs.map (·.id)).Nodup) :
    ∃ c d e, new config trace = .ok c ∧ c.injectAll rs = .ok d ∧ d.start = .ok e ∧
      ∀ limit, ∃ f, e.runEvents limit = (.ok (), f) ∧
        ∀ (host : Nat) (i : Instance), f.instances[host]? = some i →
          ((i.running ++ i.queue).map (·.id)).Sublist (e.joined host limit) ∧
          (e.joined host limit).Nodup ∧
          (e.joined host limit).Pairwise fun a b =>
            ¬(b ∈ i.running.map (·.id) ∧ a ∈ i.queue.map (·.id)) ∧
            (e.admissions host limit).findIdx (a ∈ ·) ≤
              (e.admissions host limit).findIdx (b ∈ ·) := by
  have promised := promised_of_validate valid
  obtain ⟨c, d, e, made, injected, started, _, coherent, logged⟩ := launch_ok valid trace fresh
  refine ⟨c, d, e, made, injected, started, fun limit => ?_⟩
  obtain ⟨f, _, ran, _, _⟩ := runEvents_ok promised.valid distinct coherent logged limit
  have ordered := run_keeps InOrder promised.valid distinct
    (fun k g ran after before => before.ran promised.valid distinct k g ran after)
    coherent logged [] (.of_launch fcfs made injected started) limit
  rw [ran] at ordered
  refine ⟨f, ran, fun host i at' => ?_⟩
  have lined := ordered.lined host i at'
  refine ⟨lined.order, lined.nodup, List.pairwise_iff_forall_sublist.mpr fun {a b} pair => ⟨?_, ?_⟩⟩
  · rintro ⟨runs, waits⟩
    have swapped : [b, a].Sublist (i.running.map (·.id) ++ i.queue.map (·.id)) :=
      (List.singleton_sublist.mpr runs).append (List.singleton_sublist.mpr waits)
    rw [← List.map_append] at swapped
    exact not_sublist_swap lined.nodup pair (swapped.trans lined.order)
  · exact findIdx_le_of_fair (List.pairwise_iff_forall_sublist.mp lined.fair pair)

theorem tight_serves_in_order : ∃ c d e,
    new { cluster := { kvBlocks := 4 } } .off = .ok c ∧
    c.injectAll [{ id := 7, arrivalTime := 0, inputTokens := 30, outputTokens := 9 },
      { id := 3, arrivalTime := 0, inputTokens := 30, outputTokens := 9 }] = .ok d ∧
    d.start = .ok e ∧
    ∀ limit, ∃ f, e.runEvents limit = (.ok (), f) ∧
      ∀ (host : Nat) (i : Instance), f.instances[host]? = some i →
        ((i.running ++ i.queue).map (·.id)).Sublist (e.joined host limit) ∧
        (e.joined host limit).Nodup ∧
        (e.joined host limit).Pairwise fun a b =>
          ¬(b ∈ i.running.map (·.id) ∧ a ∈ i.queue.map (·.id)) ∧
          (e.admissions host limit).findIdx (a ∈ ·) ≤
            (e.admissions host limit).findIdx (b ∈ ·) :=
  fcfs_serves_in_order rfl rfl .off
    (List.forall_mem_cons.mpr ⟨rfl, List.forall_mem_singleton.mpr rfl⟩) (by decide)

end Cluster
end InferenceSim
