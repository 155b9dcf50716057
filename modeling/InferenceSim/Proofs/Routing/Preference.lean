import InferenceSim.Proofs.Routing.Recency

/-! The choice of routing by recorded prefixes. Whether there is a match or none, the chosen
instance is the first one by the length of its match, then by its load, then by its id. -/
namespace InferenceSim

/-- Whether one instance is to be chosen before another: for its longer match, or else its smaller
load, or else its lower id. -/
def PrefixIndex.Prefers (index : PrefixIndex) (hs : List BlockHash) (s t : Snapshot) : Prop :=
  index.matchLength hs t.id < index.matchLength hs s.id ∨
    index.matchLength hs s.id = index.matchLength hs t.id ∧
      (s.effectiveLoad < t.effectiveLoad ∨ s.effectiveLoad = t.effectiveLoad ∧ s.id < t.id)

namespace PrefixAffinity

/-- The order of candidates with their matches, each before itself. -/
def Leads (a b : Snapshot × Nat) : Prop :=
  b.2 < a.2 ∨ a.2 = b.2 ∧ (a.1.effectiveLoad < b.1.effectiveLoad ∨
    a.1.effectiveLoad = b.1.effectiveLoad ∧ a.1.id ≤ b.1.id)

theorem Leads.refl (a : Snapshot × Nat) : Leads a a := .inr ⟨rfl, .inr ⟨rfl, Nat.le_refl a.1.id⟩⟩

theorem Leads.trans {a b c : Snapshot × Nat} (ab : Leads a b) (bc : Leads b c) : Leads a c := by
  unfold Leads at ab bc ⊢
  omega

theorem best_leads {matched : List (Snapshot × Nat)} {m : Snapshot × Nat}
    (ascending : matched.Pairwise fun a b => a.1.id < b.1.id) (chosen : best matched = some m) :
    ∀ c ∈ matched, Leads m c := by
  cases matched with
  | nil => cases chosen
  | cons first rest =>
      rw [← Option.some.inj chosen]
      refine foldl_pick_le_of_pairwise (fun a b => better a b) Leads _ Leads.refl Leads.trans
        ?_ ?_ first rest ascending
      · intro a b wins
        simp only [better, Bool.or_eq_true, Bool.and_eq_true, decide_eq_true_eq] at wins
        simp only [Leads]
        omega
      · intro a b loses before
        simp only [better, Bool.or_eq_true, Bool.and_eq_true, decide_eq_true_eq] at loses
        simp only [Leads]
        omega

theorem leastLoaded_leads {l : List Snapshot} {s : Snapshot} (least : leastLoaded l = some s)
    (n : Nat) : ∀ t ∈ l, Leads (s, n) (t, n) := by
  cases l with
  | nil => cases least
  | cons first rest =>
      rw [← Option.some.inj least]
      refine foldl_pick_le (fun a b => a.lighter b) (fun a b => Leads (a, n) (b, n))
        (fun a => .refl (a, n)) Leads.trans ?_ ?_ first rest
      · intro a b wins
        simp only [Snapshot.lighter, Bool.or_eq_true, Bool.and_eq_true, decide_eq_true_eq] at wins
        simp only [Leads, Nat.lt_irrefl, false_or, true_and]
        omega
      · intro a b loses
        simp only [Snapshot.lighter, Bool.or_eq_true, Bool.and_eq_true, decide_eq_true_eq] at loses
        simp only [Leads, Nat.lt_irrefl, false_or, true_and]
        omega

variable {p : PrefixAffinity} {request : RequestView} {view : ClusterView} {s : Snapshot}

theorem Leads.prefers {t : Snapshot} {hs : List BlockHash}
    (leads : Leads (s, p.index.matchLength hs s.id) (t, p.index.matchLength hs t.id))
    (other : s.id ≠ t.id) : p.index.Prefers hs s t := by
  simp only [Leads] at leads
  simp only [PrefixIndex.Prefers]
  omega

theorem route_leads (p : PrefixAffinity) (request : RequestView)
    (ascending : view.snapshots.Pairwise fun s t => s.id < t.id)
    (more : prefillCandidates view.snapshots ≠ []) :
    ∃ s ∈ prefillCandidates view.snapshots, (p.route request view).1.target = .single s.id ∧
      (∀ c ∈ p.matched request view,
        Leads (s, p.index.matchLength (p.index.hashes request) s.id) c) ∧
      (p.route request view).2 =
        if 0 < p.index.matchLength (p.index.hashes request) s.id then
          { p with
            hits := p.hits + 1
            index := p.index.record (p.index.hashes request) s.id }
        else
          { p with
            fallbacks := p.fallbacks + 1
            index := p.index.record (p.index.hashes request) s.id } := by
  obtain ⟨s, hs, chosen, ⟨some', target, state⟩ | ⟨none, t, ht, least, target, state⟩⟩ :=
    p.route_best request more
  · refine ⟨s, hs, target, best_leads (List.pairwise_map.mpr (ascending.filter _)) chosen, ?_⟩
    rw [if_pos some']
    exact state
  · have unmatched : ∀ u ∈ prefillCandidates view.snapshots,
        p.index.matchLength (p.index.hashes request) u.id = 0 := by
      intro u hu
      have longest := best_longest chosen _ (List.mem_map_of_mem hu)
      exact Nat.eq_zero_of_le_zero (none ▸ longest)
    refine ⟨t, ht, target, ?_, ?_⟩
    · refine List.forall_mem_map.mpr ?_
      intro u hu
      rw [unmatched t ht, unmatched u hu]
      exact leastLoaded_leads least 0 u hu
    · rw [unmatched t ht, if_neg (Nat.lt_irrefl 0)]
      exact state

/-- What becomes of a request and of the policy if the request is sent to an instance, for the
match that is there or because there is none. -/
structure Chooses (p : PrefixAffinity) (request : RequestView) (view : ClusterView)
    (s : Snapshot) : Prop where
  candidate : s ∈ prefillCandidates view.snapshots
  target : (p.route request view).1.target = .single s.id
  first : ∀ t ∈ prefillCandidates view.snapshots, t ≠ s →
    p.index.Prefers (p.index.hashes request) s t
  hit : (∃ t ∈ prefillCandidates view.snapshots,
      0 < p.index.matchLength (p.index.hashes request) t.id) →
    (p.route request view).2.hits = p.hits + 1 ∧
      (p.route request view).2.fallbacks = p.fallbacks
  fallback : (∀ t ∈ prefillCandidates view.snapshots,
      p.index.matchLength (p.index.hashes request) t.id = 0) →
    (p.route request view).2.hits = p.hits ∧
      (p.route request view).2.fallbacks = p.fallbacks + 1
  recorded : (p.route request view).2.index = p.index.record (p.index.hashes request) s.id
  apart : ∀ host, host ≠ s.id →
    (p.route request view).2.index.instances[host]? = p.index.instances[host]?
  holds : ∀ before, p.index.Remembers before → ∀ host,
    (p.route request view).2.index.Holds host (latest p.index.capacity
      (before host ++ if s.id = host then p.index.hashes request else []))

/-- A request goes to the instance with the longest match, of these to the least loaded one, and of
these to the first, where it is recorded. -/
theorem route_optimal (p : PrefixAffinity) (request : RequestView)
    (ascending : view.snapshots.Pairwise fun s t => s.id < t.id)
    (more : prefillCandidates view.snapshots ≠ []) : ∃ s, p.Chooses request view s := by
  obtain ⟨s, hs, target, leads, state⟩ := p.route_leads request ascending more
  replace leads := List.forall_mem_map.mp leads
  have recorded : (p.route request view).2.index =
      p.index.record (p.index.hashes request) s.id := by
    rw [state]
    split
    · rfl
    · rfl
  have ids : ((prefillCandidates view.snapshots).map Snapshot.id).Nodup :=
    List.pairwise_map.mpr ((ascending.filter _).imp Nat.ne_of_lt)
  refine ⟨s, ?_⟩
  constructor
  case candidate => exact hs
  case target => exact target
  case first =>
    intro t ht other
    refine (leads t ht).prefers ?_
    intro same
    exact other (List.inj_on_of_nodup_map ids ht hs same.symm)
  case hit =>
    rintro ⟨t, ht, some'⟩
    have behind := leads t ht
    simp only [Leads] at behind
    rw [state, if_pos (by omega)]
    exact ⟨rfl, rfl⟩
  case fallback =>
    intro none
    rw [state, if_neg (by rw [none s hs]; exact Nat.lt_irrefl 0)]
    exact ⟨rfl, rfl⟩
  case recorded => exact recorded
  case apart =>
    intro host other
    rw [recorded]
    simp only [PrefixIndex.record, Std.ExtTreeMap.getElem?_insert,
      Std.LawfulEqOrd.compare_eq_iff_eq, if_neg other.symm]
  case holds =>
    intro before k host
    rw [recorded]
    exact (k.record (p.index.hashes request) s.id).holds host

/-- A policy that knows the first block of group 7 on the instances 2 and 4. -/
def knowing : PrefixAffinity where
  index := ((PrefixIndex.new 16 4).record ((groupVisit 1 0 0).1.blocks 16) 2).record
    ((groupVisit 1 0 0).1.blocks 16) 4

/-- Instances of which one only decodes and the idle one knows nothing. -/
def unevenView : ClusterView :=
  { clock := 0
    snapshots := [{ id := 0, role := .unified }, { id := 2, role := .unified, queueDepth := 5 },
      { id := 3, role := .decode }, { id := 4, role := .prefill, pending := 5 }] }

/-- The request goes to the lower of two instances that know its first block and are equally
loaded. -/
theorem uneven_view_chosen :
    (unevenView.snapshots.Pairwise fun s t => s.id < t.id) ∧
    prefillCandidates unevenView.snapshots ≠ [] ∧
    ∃ s, knowing.Chooses (groupVisit 2 0 0).1 unevenView s ∧ s.id = 2 := by
  have ascending : unevenView.snapshots.Pairwise fun s t => s.id < t.id := by decide
  have more : prefillCandidates unevenView.snapshots ≠ [] := by decide
  obtain ⟨s, chosen⟩ := route_optimal knowing (groupVisit 2 0 0).1 ascending more
  have second : (knowing.route (groupVisit 2 0 0).1 unevenView).1.target = .single 2 := by
    decide +kernel
  exact ⟨ascending, more, s, chosen, Target.single.inj (chosen.target.symm.trans second)⟩

end PrefixAffinity
end InferenceSim
