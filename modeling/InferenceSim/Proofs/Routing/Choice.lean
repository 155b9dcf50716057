import InferenceSim.Policy.Routing
import InferenceSim.Proofs.Draws

/-! The choices of routing. Whenever there are instances to choose from, every policy
chooses one of them. -/
namespace InferenceSim

theorem foldl_pick {α : Type} (better : α → α → Prop) [∀ a b, Decidable (better a b)] (first : α)
    (rest : List α) :
    rest.foldl (fun best a => if better a best then a else best) first ∈ first :: rest := by
  induction rest generalizing first with
  | nil => exact List.mem_cons_self
  | cons a rest ih =>
      rw [List.foldl_cons]
      split
      · exact List.mem_cons_of_mem first (ih a)
      · rcases List.mem_cons.mp (ih first) with same | later
        · rw [same]
          exact List.mem_cons_self
        · exact List.mem_cons_of_mem first (List.mem_cons_of_mem a later)

theorem foldl_pick_le_of_pairwise {α : Type} (better le earlier : α → α → Prop)
    [∀ a b, Decidable (better a b)] (refl : ∀ a, le a a)
    (trans : ∀ {a b c}, le a b → le b c → le a c) (won : ∀ {a b}, better a b → le a b)
    (lost : ∀ {a b}, ¬better a b → earlier b a → le b a) (first : α) (rest : List α)
    (ordered : (first :: rest).Pairwise earlier) : ∀ a ∈ first :: rest,
      le (rest.foldl (fun best a => if better a best then a else best) first) a := by
  induction rest generalizing first with
  | nil => exact List.forall_mem_singleton.mpr (refl first)
  | cons next rest ih =>
      obtain ⟨before, ordered⟩ := List.pairwise_cons.mp ordered
      obtain ⟨before', later⟩ := List.forall_mem_cons.mp before
      have ordered' : ((if better next first then next else first) :: rest).Pairwise earlier := by
        split
        · exact ordered
        · exact List.pairwise_cons.mpr ⟨later, (List.pairwise_cons.mp ordered).2⟩
      rw [List.foldl_cons]
      obtain ⟨here, others⟩ := List.forall_mem_cons.mp (ih _ ordered')
      refine List.forall_mem_cons.mpr ⟨trans here ?_, List.forall_mem_cons.mpr ⟨trans here ?_, others⟩⟩
      · split
        · next wins => exact won wins
        · exact refl first
      · split
        · exact refl next
        · next loses => exact lost loses before'

theorem foldl_pick_le {α : Type} (better le : α → α → Prop) [∀ a b, Decidable (better a b)]
    (refl : ∀ a, le a a) (trans : ∀ {a b c}, le a b → le b c → le a c)
    (won : ∀ {a b}, better a b → le a b) (lost : ∀ {a b}, ¬better a b → le b a) (first : α)
    (rest : List α) : ∀ a ∈ first :: rest,
      le (rest.foldl (fun best a => if better a best then a else best) first) a :=
  foldl_pick_le_of_pairwise better le (fun _ _ => True) refl trans won (fun loses _ => lost loses)
    first rest (List.pairwise_of_forall fun _ _ => trivial)

theorem foldl_pick_map {α β : Type} (f : α → β) (better : α → α → Bool) (better' : β → β → Bool)
    (same : ∀ a b, better' (f a) (f b) = better a b) (first : α) (rest : List α) :
    f (rest.foldl (fun best a => if better a best then a else best) first) =
      (rest.map f).foldl (fun best b => if better' b best then b else best) (f first) := by
  induction rest generalizing first with
  | nil => rfl
  | cons a rest ih => rw [List.foldl_cons, ih, List.map_cons, List.foldl_cons, same, apply_ite f]

theorem firstBy_mem (before : Snapshot → Snapshot → Bool) {l : List Snapshot} (more : l ≠ []) :
    ∃ s ∈ l, firstBy before l = some s := by
  cases l with
  | nil => exact absurd rfl more
  | cons first rest => exact ⟨_, foldl_pick (fun a b => before a b) first rest, rfl⟩

theorem mem_of_leastLoaded {l : List Snapshot} {s : Snapshot} (least : leastLoaded l = some s) :
    s ∈ l := by
  cases l with
  | nil => cases least
  | cons first rest =>
      rw [← Option.some.inj least]
      exact foldl_pick (fun a b => a.lighter b) first rest

theorem leastLoaded_le {l : List Snapshot} {s : Snapshot} (least : leastLoaded l = some s) :
    ∀ t ∈ l, s.effectiveLoad ≤ t.effectiveLoad := by
  cases l with
  | nil => cases least
  | cons first rest =>
      rw [← Option.some.inj least]
      refine foldl_pick_le (fun a b => a.lighter b) (fun a b => a.effectiveLoad ≤ b.effectiveLoad)
        (fun _ => Nat.le_refl _) Nat.le_trans (fun wins => ?_) (fun loses => ?_) first rest
      · simp only [Snapshot.lighter, Bool.or_eq_true, Bool.and_eq_true, decide_eq_true_eq] at wins
        omega
      · simp only [Snapshot.lighter, Bool.or_eq_true, Bool.and_eq_true, decide_eq_true_eq] at loses
        omega

/-- What the least loaded of some instances is chosen by: the id and the load. -/
def Snapshot.standing (s : Snapshot) : Nat × Nat := (s.id, s.effectiveLoad)

theorem leastLoaded_congr {l l' : List Snapshot}
    (same : l.map Snapshot.standing = l'.map Snapshot.standing) :
    (leastLoaded l).map Snapshot.standing = (leastLoaded l').map Snapshot.standing := by
  have chosen := fun first rest => foldl_pick_map Snapshot.standing Snapshot.lighter
    (fun p q => p.2 < q.2 || (p.2 = q.2 && p.1 < q.1)) (fun _ _ => rfl) first rest
  cases l with
  | nil =>
      cases l' with
      | nil => rfl
      | cons => cases same
  | cons first rest =>
      cases l' with
      | nil => cases same
      | cons first' rest' =>
          obtain ⟨here, later⟩ := List.cons_eq_cons.mp same
          refine congrArg some ((chosen first rest).trans ?_)
          rw [here, later]
          exact (chosen first' rest').symm

theorem nextInTurn_mem (last : Option Nat) {l : List Snapshot} (more : l ≠ []) :
    ∃ s ∈ l, nextInTurn last l = some s := by
  cases l with
  | nil => exact absurd rfl more
  | cons first rest =>
      cases last with
      | none => exact ⟨first, List.mem_cons_self, rfl⟩
      | some last =>
          cases found : (first :: rest).find? fun s => decide (last < s.id) with
          | none => exact ⟨first, List.mem_cons_self, by simp only [nextInTurn, found]; rfl⟩
          | some s =>
              exact ⟨s, List.mem_of_find?_eq_some found, by simp only [nextInTurn, found]; rfl⟩

namespace WeightedScoring

theorem mem_scores (score : Snapshot → Float) (l : List Snapshot) (m : Std.ExtTreeMap Nat Float)
    (id : Nat) : id ∈ l.foldl (fun m s => m.insert s.id (score s)) m ↔
      id ∈ m ∨ ∃ s ∈ l, s.id = id := by
  induction l generalizing m with
  | nil => simp
  | cons s rest ih =>
      rw [List.foldl_cons, ih, Std.ExtTreeMap.mem_insert]
      simp only [List.mem_cons, exists_eq_or_imp, Std.LawfulEqOrd.compare_eq_iff_eq]
      rw [or_left_comm, or_assoc]

theorem best_mem {scores : List (Nat × Float)} (more : scores ≠ []) :
    ∃ s ∈ scores, best scores = some s := by
  cases scores with
  | nil => exact absurd rfl more
  | cons first rest => exact ⟨_, foldl_pick (fun a b => a.2 > b.2) first rest, rfl⟩

theorem scores_listed {score : Snapshot → Float} {l : List Snapshot} {chosen : Option (Nat × Float)}
    (more : l ≠ []) (highest : best (l.foldl (fun m s => m.insert s.id (score s))
      (∅ : Std.ExtTreeMap Nat Float)).toList = chosen) : ∃ s ∈ l, ∃ x, chosen = some (s.id, x) := by
  obtain ⟨scores, hscores⟩ : ∃ scores : Std.ExtTreeMap Nat Float,
    scores = l.foldl (fun m s => m.insert s.id (score s)) ∅ := ⟨_, rfl⟩
  have keys : ∀ id, id ∈ scores ↔ ∃ s ∈ l, s.id = id := fun id => by
    rw [hscores, mem_scores score]
    simp
  have some' : scores.toList ≠ [] := by
    obtain ⟨s, hs⟩ := List.exists_mem_of_ne_nil l more
    have scored := (keys s.id).mpr ⟨s, hs, rfl⟩
    intro none
    have listed := Std.ExtTreeMap.mem_toList_iff_getElem?_eq_some.mpr
      (Std.ExtTreeMap.getElem?_eq_some_getElem scored)
    rw [none] at listed
    cases listed
  obtain ⟨⟨id, x⟩, listed, same⟩ := best_mem some'
  have scored : id ∈ scores := by
    rw [Std.ExtTreeMap.mem_iff_isSome_getElem?,
      Std.ExtTreeMap.mem_toList_iff_getElem?_eq_some.mp listed]
    rfl
  obtain ⟨s, hs, rfl⟩ := (keys id).mp scored
  rw [← hscores, same] at highest
  exact ⟨s, hs, x, highest.symm⟩

theorem route_mem (w : WeightedScoring) (request : RequestView) {view : ClusterView}
    (more : prefillCandidates view.snapshots ≠ []) :
    ∃ s ∈ prefillCandidates view.snapshots, (w.route request view).1.target = .single s.id := by
  obtain ⟨l, hl⟩ : ∃ l, l = (prefillCandidates view.snapshots).mergeSort
    fun a b => decide (a.id ≤ b.id) := ⟨_, rfl⟩
  have sorted : l.Perm (prefillCandidates view.snapshots) := hl ▸ List.mergeSort_perm _ _
  have more' : l ≠ [] := fun none => more (none ▸ sorted).symm.eq_nil
  unfold route
  simp only [← hl]
  split
  · next none =>
    obtain ⟨s, _, x, chosen⟩ := scores_listed more' none
    cases chosen
  · next id score some =>
    obtain ⟨s, hs, x, chosen⟩ := scores_listed more' some
    obtain ⟨rfl, _⟩ := Prod.mk.inj (Option.some.inj chosen)
    exact ⟨s, sorted.mem_iff.mp hs, rfl⟩

end WeightedScoring

namespace PrefixAffinity

theorem best_mem {matched : List (Snapshot × Nat)} (more : matched ≠ []) :
    ∃ s ∈ matched, best matched = some s := by
  cases matched with
  | nil => exact absurd rfl more
  | cons first rest => exact ⟨_, foldl_pick (fun a b => better a b) first rest, rfl⟩

/-- The candidates with the lengths of their matches. -/
def matched (p : PrefixAffinity) (request : RequestView) (view : ClusterView) :
    List (Snapshot × Nat) :=
  (prefillCandidates view.snapshots).map fun s =>
    (s, p.index.matchLength (p.index.hashes request) s.id)

theorem route_best (p : PrefixAffinity) (request : RequestView) {view : ClusterView}
    (more : prefillCandidates view.snapshots ≠ []) :
    ∃ s ∈ prefillCandidates view.snapshots,
      best (p.matched request view) =
        some (s, p.index.matchLength (p.index.hashes request) s.id) ∧
      ((0 < p.index.matchLength (p.index.hashes request) s.id ∧
          (p.route request view).1.target = .single s.id ∧
          (p.route request view).2 =
            { p with
              hits := p.hits + 1
              index := p.index.record (p.index.hashes request) s.id }) ∨
        (p.index.matchLength (p.index.hashes request) s.id = 0 ∧
          ∃ t ∈ prefillCandidates view.snapshots,
            leastLoaded (prefillCandidates view.snapshots) = some t ∧
            (p.route request view).1.target = .single t.id ∧
            (p.route request view).2 =
              { p with
                fallbacks := p.fallbacks + 1
                index := p.index.record (p.index.hashes request) t.id })) := by
  have listed : p.matched request view ≠ [] := mt List.map_eq_nil_iff.mp more
  obtain ⟨m, inMatched, chosen⟩ := best_mem listed
  obtain ⟨s, hs, rfl⟩ := List.mem_map.mp inMatched
  refine ⟨s, hs, chosen, ?_⟩
  rw [matched] at chosen
  rcases Nat.eq_zero_or_pos (p.index.matchLength (p.index.hashes request) s.id) with none | some'
  · obtain ⟨t, ht, least⟩ := firstBy_mem Snapshot.lighter more
    refine .inr ⟨none, t, ht, least, ?_⟩
    simp only [route, leastLoaded, chosen, least, none, if_neg (Nat.lt_irrefl 0), and_self]
  · refine .inl ⟨some', ?_⟩
    simp only [route, chosen, if_pos some', and_self]

theorem route_mem (p : PrefixAffinity) (request : RequestView) {view : ClusterView}
    (more : prefillCandidates view.snapshots ≠ []) :
    ∃ s ∈ prefillCandidates view.snapshots, (p.route request view).1.target = .single s.id := by
  obtain ⟨s, hs, -, ⟨-, target, -⟩ | ⟨-, t, ht, -, target, -⟩⟩ := p.route_best request more
  · exact ⟨s, hs, target⟩
  · exact ⟨t, ht, target⟩

end PrefixAffinity

namespace RoutingPolicy

def splits : RoutingPolicy → Bool
  | .pdSplit => true
  | _ => false

theorem splits_ofRule {rule : RoutingRule} {blockSize : Nat} {seed : UInt64} {p : RoutingPolicy}
    (made : ofRule rule blockSize seed = .ok p) : p.splits = rule.isDisaggregated := by
  cases rule with
  | weighted scorers =>
      cases weighted : WeightedScoring.new scorers blockSize with
      | error e =>
          rw [ofRule, weighted] at made
          cases made
      | ok w =>
          rw [ofRule, weighted] at made
          exact Except.ok.inj made ▸ rfl
  | _ => exact Except.ok.inj made ▸ rfl

variable {view : ClusterView} {p : RoutingPolicy}

theorem splits_route (p : RoutingPolicy) (request : RequestView) (view : ClusterView) :
    (p.route request view).2.splits = p.splits := by
  cases p with
  | weighted w => rfl
  | prefixAffinity p => rfl
  | random g =>
      simp only [route]
      split
      · split <;> rfl
      · rfl
  | _ =>
      simp only [route]
      split <;> rfl

def Steady (p : RoutingPolicy) : Prop := ∀ request view, (p.route request view).2 = p

theorem steady_leastLoaded : Steady .leastLoaded := by
  intro request view
  rw [route]
  split <;> rfl

theorem steady_pdSplit : Steady .pdSplit := by
  intro request view
  rw [route]
  split <;> rfl

theorem route_whole (request : RequestView) (whole : p.splits = false)
    (more : prefillCandidates view.snapshots ≠ []) :
    ∃ s ∈ prefillCandidates view.snapshots, (p.route request view).1.target = .single s.id := by
  cases p with
  | roundRobin last =>
      obtain ⟨s, hs, next⟩ := nextInTurn_mem last more
      exact ⟨s, hs, by simp only [route, next]⟩
  | random g =>
      obtain ⟨i, g', drawn, below⟩ :=
        Random.Generator.below64_ok (List.length_pos_iff.mpr more) g
      refine ⟨_, List.getElem_mem below, ?_⟩
      simp only [route, drawn, List.getElem?_eq_getElem below]
  | leastLoaded =>
      obtain ⟨s, hs, least⟩ := firstBy_mem Snapshot.lighter more
      exact ⟨s, hs, by simp only [route, InferenceSim.leastLoaded, least]⟩
  | weighted w => exact w.route_mem request more
  | prefixAffinity p => exact p.route_mem request more
  | pdSplit => cases whole
  | alwaysBusiest =>
      obtain ⟨s, hs, busiest⟩ := firstBy_mem Snapshot.busier more
      exact ⟨s, hs, by simp only [route, busiest]⟩

theorem route_pair (request : RequestView) (pairs : p.splits = true)
    (prefill : withRole .prefill view.snapshots ≠ [])
    (decode : withRole .decode view.snapshots ≠ []) :
    ∃ s ∈ withRole .prefill view.snapshots, ∃ t ∈ withRole .decode view.snapshots,
      (p.route request view).1.target = .split s.id t.id := by
  cases p with
  | pdSplit =>
      obtain ⟨s, hs, first⟩ := firstBy_mem Snapshot.lighter prefill
      obtain ⟨t, ht, second⟩ := firstBy_mem Snapshot.lighter decode
      refine ⟨s, hs, t, ht, ?_⟩
      simp only [route, InferenceSim.leastLoaded, first, second]
  | _ => cases pairs

theorem route_unpaired (request : RequestView) (pairs : p.splits = true)
    (none : withRole .decode view.snapshots = []) : (p.route request view).1.target = .reject := by
  cases p with
  | pdSplit =>
      simp only [route, none]
      split
      · next least => cases least
      · rfl
  | _ => cases pairs

end RoutingPolicy

end InferenceSim
