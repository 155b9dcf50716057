import Mathlib.Data.Finset.Card
import InferenceSim.Proofs.Kv.Chains
import InferenceSim.Proofs.Routing.Choice
import InferenceSim.Proofs.Tables

/-! Routing by recorded prefixes keeps requests with the same first block together. While no
hash has to be forgotten, the index knows of each instance exactly the blocks of the requests
that were sent there, so the first block of a prompt is known where its like went before, and
nowhere else. -/
namespace InferenceSim

namespace RecordedBlocks
variable {b : RecordedBlocks} {h h' : BlockHash}

theorem mem_touch (b : RecordedBlocks) (h : BlockHash) (stamp : Nat) :
    h' ∈ (b.touch h stamp).lastUsed ↔ h' = h ∨ h' ∈ b.lastUsed := by
  rw [touch, Std.ExtTreeMap.mem_insert, Std.LawfulEqOrd.compare_eq_iff_eq, eq_comm]

theorem mem_touches (hs : List BlockHash) (b : RecordedBlocks) (stamp : Nat) :
    h' ∈ (hs.foldl (fun (blocks, stamp) h => (blocks.touch h (stamp + 1), stamp + 1))
      (b, stamp)).1.lastUsed ↔ h' ∈ hs ∨ h' ∈ b.lastUsed := by
  induction hs generalizing b stamp with
  | nil => simp
  | cons h rest ih => rw [List.foldl_cons, ih, mem_touch, List.mem_cons, or_left_comm, or_assoc]

theorem size_le_card {hs : List BlockHash} (known : ∀ h ∈ b.lastUsed, h ∈ hs) :
    b.lastUsed.size ≤ hs.toFinset.card := by
  have distinct : b.lastUsed.keys.Nodup := Std.ExtTreeMap.nodup_keys
  rw [← Std.ExtTreeMap.length_keys, ← List.toFinset_card_of_nodup distinct]
  refine Finset.card_le_card fun h among => List.mem_toFinset.mpr (known h ?_)
  exact Std.ExtTreeMap.mem_keys.mp (List.mem_toFinset.mp among)

theorem trim_of_fits {capacity : Nat} (fits : b.lastUsed.size ≤ capacity) :
    b.trim capacity = b := by
  rw [trim, Nat.sub_eq_zero_of_le fits]
  rfl

end RecordedBlocks

namespace PrefixIndex
variable {index : PrefixIndex} {hs : List BlockHash} {host : Nat}

def Knows (index : PrefixIndex) (host : Nat) (h : BlockHash) : Prop :=
  ∃ blocks, index.instances[host]? = some blocks ∧ h ∈ blocks.lastUsed

theorem knows_iff_getD {h : BlockHash} :
    index.Knows host h ↔ h ∈ ((index.instances[host]?).getD {}).lastUsed := by
  unfold Knows
  cases index.instances[host]? with
  | none => simp
  | some blocks => simp

theorem knows_record {all : List BlockHash} (among : ∀ h, h ∈ hs ∨ index.Knows host h → h ∈ all)
    (fits : all.toFinset.card ≤ index.capacity) (host' : Nat) (h' : BlockHash) :
    (index.record hs host).Knows host' h' ↔
      index.Knows host' h' ∨ host' = host ∧ h' ∈ hs := by
  obtain ⟨blocks, hblocks⟩ : ∃ blocks, blocks = (hs.foldl
    (fun (blocks, stamp) h => (RecordedBlocks.touch blocks h (stamp + 1), stamp + 1))
    ((index.instances[host]?).getD {}, index.stamp)).1 := ⟨_, rfl⟩
  have added : ∀ h, h ∈ blocks.lastUsed ↔ h ∈ hs ∨ index.Knows host h := fun h => by
    rw [hblocks, RecordedBlocks.mem_touches, knows_iff_getD]
  have kept : blocks.trim index.capacity = blocks :=
    RecordedBlocks.trim_of_fits
      (Nat.le_trans (RecordedBlocks.size_le_card fun h known => among h ((added h).mp known)) fits)
  have entry : (index.record hs host).instances[host']? =
      if host' = host then some blocks else index.instances[host']? := by
    simp only [record, ← hblocks, kept, Std.ExtTreeMap.getElem?_insert,
      Std.LawfulEqOrd.compare_eq_iff_eq, eq_comm (a := host)]
  by_cases same : host' = host
  · subst same
    rw [knows_iff_getD, entry, if_pos rfl, Option.getD_some, added, or_comm]
    simp
  · simp [Knows, entry, same]

theorem matchLength_pos :
    0 < index.matchLength hs host ↔ ∃ h, hs.head? = some h ∧ index.Knows host h := by
  unfold matchLength Knows
  cases index.instances[host]? with
  | none => simp
  | some blocks =>
      cases hs with
      | nil => simp
      | cons h rest =>
          by_cases known : h ∈ blocks.lastUsed
          · simp [known]
          · simp [known]

end PrefixIndex

namespace PrefixAffinity

theorem foldl_better (first : Snapshot × Nat) (rest : List (Snapshot × Nat)) :
    ∀ c ∈ first :: rest,
      c.2 ≤ (rest.foldl (fun best c => if better c best then c else best) first).2 := by
  refine foldl_pick_le (fun a b => better a b) (fun a b => b.2 ≤ a.2) (fun _ => Nat.le_refl _)
    (fun le le' => Nat.le_trans le' le) (fun wins => ?_) (fun loses => ?_) first rest
  · unfold better at wins
    grind
  · unfold better at loses
    grind

theorem best_longest {matched : List (Snapshot × Nat)} {m : Snapshot × Nat}
    (chosen : best matched = some m) : ∀ c ∈ matched, c.2 ≤ m.2 := by
  cases matched with
  | nil => cases chosen
  | cons first rest => exact Option.some.inj chosen ▸ foldl_better first rest

theorem route_cases (p : PrefixAffinity) (request : RequestView) {view : ClusterView}
    (more : prefillCandidates view.snapshots ≠ []) :
    ∃ s ∈ prefillCandidates view.snapshots, (p.route request view).1.target = .single s.id ∧
      (p.route request view).2.index = p.index.record (p.index.hashes request) s.id ∧
      ∀ t ∈ prefillCandidates view.snapshots,
        0 < p.index.matchLength (p.index.hashes request) t.id →
        0 < p.index.matchLength (p.index.hashes request) s.id := by
  obtain ⟨s, hs, chosen, ⟨some', target, state⟩ | ⟨none, t, ht, -, target, state⟩⟩ :=
    p.route_best request more
  · exact ⟨s, hs, target, by rw [state], fun _ _ _ => some'⟩
  · refine ⟨t, ht, target, by rw [state], ?_⟩
    intro u hu known
    have longest := best_longest chosen _ (List.mem_map_of_mem hu)
    exact absurd (Nat.lt_of_lt_of_le known longest) (Nat.not_lt_of_le (Nat.le_of_eq none))

/-- The targets of requests that come one after the other. -/
def answers (p : PrefixAffinity) :
    List (RequestView × ClusterView) → List (RequestView × Target)
  | [] => []
  | (request, view) :: rest =>
    (request, (p.route request view).1.target) :: (p.route request view).2.answers rest

end PrefixAffinity

def RequestView.blocks (request : RequestView) (blockSize : Nat) : List BlockHash :=
  promptBlockHashes request.id request.shared request.inputTokens blockSize

def RequestView.inputs (request : RequestView) (blockSize : Nat) :
    List (Option BlockHash × ContentKey) :=
  chainInputs request.id request.shared blockSize (request.inputTokens / blockSize)

/-- The blocks of the requests that were sent to an instance. -/
def sentTo (blockSize : Nat) (answers : List (RequestView × Target)) (host : Nat) :
    List BlockHash :=
  (answers.filter fun a => a.2 = .single host).flatMap fun a => a.1.blocks blockSize

/-- The instances that fresh requests may be sent to, by their ids. -/
def ClusterView.candidates (view : ClusterView) : Finset Nat :=
  ((prefillCandidates view.snapshots).map (·.id)).toFinset

section
variable {blockSize : Nat} {past : List (RequestView × Target)}

theorem mem_sentTo {host : Nat} {h : BlockHash} :
    h ∈ sentTo blockSize past host ↔ ∃ a ∈ past, a.2 = .single host ∧ h ∈ a.1.blocks blockSize := by
  simp [sentTo, and_assoc]

theorem first_of_mem {inputs : List (Option BlockHash × ContentKey)} {a b : RequestView}
    {h : BlockHash} (apart : Uncollided inputs) (ha : a.inputs blockSize ⊆ inputs)
    (hb : b.inputs blockSize ⊆ inputs) (first : (a.blocks blockSize).head? = some h)
    (among : h ∈ b.blocks blockSize) : (b.blocks blockSize).head? = some h := by
  unfold RequestView.blocks promptBlockHashes at first among ⊢
  rw [List.head?_eq_getElem?] at first ⊢
  obtain ⟨j, inside', here⟩ := List.mem_iff_getElem.mp among
  rw [length_blockHashes] at inside'
  have inside : 0 < a.inputTokens / blockSize := by
    rw [← length_blockHashes a.id a.shared (a.inputTokens / blockSize) blockSize]
    exact (List.getElem?_eq_some_iff.mp first).1
  have here' := (List.getElem?_eq_some_iff.mpr ⟨_, here⟩)
  have same := first.trans here'.symm
  rw [getElem?_blockHashes_of_lt inside, getElem?_blockHashes_of_lt inside'] at same
  obtain ⟨rfl, -⟩ := place_of_blockName_eq inside inside'
    (apart.mono (List.append_subset.mpr ⟨ha, hb⟩)) (Option.some.inj same)
  exact here'

end

namespace PrefixAffinity

/-- The index knows exactly the blocks of the requests that were sent to an instance. -/
structure Recalls (p : PrefixAffinity) (size capacity : Nat)
    (past : List (RequestView × Target)) : Prop where
  blockSize : p.index.blockSize = size
  capacity : p.index.capacity = capacity
  knows : ∀ host h, p.index.Knows host h ↔ h ∈ sentTo size past host

/-- All requests were sent to some of the instances, those with the same first block to the
same one. -/
structure Together (size : Nat) (hosts : Finset Nat) (past : List (RequestView × Target)) :
    Prop where
  sent : ∀ a ∈ past, ∃ host ∈ hosts, a.2 = .single host
  same : ∀ a ∈ past, ∀ b ∈ past, ∀ h, (a.1.blocks size).head? = some h →
    (b.1.blocks size).head? = some h → a.2 = b.2

theorem card_sentTo_le (p : PrefixAffinity) (size host : Nat)
    (visits : List (RequestView × ClusterView)) :
    (sentTo size (p.answers visits) host).toFinset.card ≤
      totalOf (visits.map fun v => v.1.inputTokens / size) := by
  refine Nat.le_trans (List.toFinset_card_le _) ?_
  induction visits generalizing p with
  | nil => exact Nat.le_refl 0
  | cons v rest ih =>
      have rest' := ih (p.route v.1 v.2).2
      rw [answers, sentTo, List.filter_cons, List.map_cons, totalOf_cons]
      split
      · rw [List.flatMap_cons, List.length_append, RequestView.blocks, promptBlockHashes,
          length_blockHashes]
        exact Nat.add_le_add_left rest' _
      · exact Nat.le_trans rest' (Nat.le_add_left _ _)

variable {p : PrefixAffinity} {size capacity : Nat} {hosts : Finset Nat}
  {past : List (RequestView × Target)} {request : RequestView} {view : ClusterView}

theorem recalls_new (size capacity : Nat) :
    (new size capacity).Recalls size (new size capacity).index.capacity [] := by
  refine ⟨rfl, rfl, fun host h => ?_⟩
  simp [PrefixIndex.Knows, new, PrefixIndex.new, sentTo]

theorem candidates_ne_nil (some' : view.candidates.Nonempty) :
    prefillCandidates view.snapshots ≠ [] := by
  rintro none
  rw [ClusterView.candidates, none] at some'
  exact Finset.not_nonempty_empty some'

theorem Recalls.hashes (k : p.Recalls size capacity past) (request : RequestView) :
    p.index.hashes request = request.blocks size := by
  rw [PrefixIndex.hashes, k.blockSize]
  rfl

/-- One more request that is sent somewhere is known there, as long as nothing is forgotten. -/
theorem Recalls.route (k : p.Recalls size capacity past) (some' : view.candidates.Nonempty)
    (fits : ∀ host, (sentTo size (past ++ [(request, (p.route request view).1.target)])
      host).toFinset.card ≤ capacity) :
    (p.route request view).2.Recalls size capacity
      (past ++ [(request, (p.route request view).1.target)]) := by
  obtain ⟨s, hs, target, index, -⟩ := p.route_cases request
    (candidates_ne_nil some')
  rw [k.hashes] at index
  have added : ∀ host h, h ∈ sentTo size (past ++ [(request, (p.route request view).1.target)])
      host ↔ h ∈ sentTo size past host ∨ host = s.id ∧ h ∈ request.blocks size := by
    intro host h
    rw [target]
    simp only [mem_sentTo, List.mem_append, List.mem_singleton, or_and_right, exists_or,
      exists_eq_left, Target.single.injEq, eq_comm (a := host)]
  refine ⟨by rw [index]; exact k.blockSize, by rw [index]; exact k.capacity, fun host h => ?_⟩
  rw [index, added, ← k.knows]
  refine PrefixIndex.knows_record (fun h either => (added s.id h).mpr ?_)
    (k.capacity ▸ fits s.id) host h
  rcases either with new | known
  · exact .inr ⟨rfl, new⟩
  · exact .inl ((k.knows s.id h).mp known)

/-- A request whose first block came before is sent where that block is known, and it is known
only where its like were sent. -/
theorem Together.route {inputs : List (Option BlockHash × ContentKey)}
    (t : Together size hosts past) (k : p.Recalls size capacity past)
    (some' : hosts.Nonempty) (fixed : view.candidates = hosts) (apart : Uncollided inputs)
    (before : ∀ a ∈ past, a.1.inputs size ⊆ inputs) :
    Together size hosts (past ++ [(request, (p.route request view).1.target)]) := by
  obtain ⟨s, hs, target, -, longest⟩ := p.route_cases request
    (candidates_ne_nil (fixed.symm ▸ some'))
  rw [target]
  have among : ∀ {u : Snapshot}, u ∈ prefillCandidates view.snapshots → u.id ∈ hosts := by
    intro u hu
    rw [← fixed, ClusterView.candidates, List.mem_toFinset]
    exact List.mem_map_of_mem hu
  have joins : ∀ a ∈ past, ∀ h, (a.1.blocks size).head? = some h →
      (request.blocks size).head? = some h → a.2 = .single s.id := by
    intro a ha h first first'
    obtain ⟨host, inHosts, sent⟩ := t.sent a ha
    obtain ⟨u, hu, rfl⟩ : ∃ u ∈ prefillCandidates view.snapshots, u.id = host := by
      rw [← fixed, ClusterView.candidates, List.mem_toFinset] at inHosts
      exact List.mem_map.mp inHosts
    have known : p.index.Knows u.id h :=
      (k.knows u.id h).mpr (mem_sentTo.mpr ⟨a, ha, sent, List.mem_of_mem_head? first⟩)
    have matches' := longest u hu
    rw [k.hashes] at matches'
    obtain ⟨h', first'', knownHere⟩ :=
      PrefixIndex.matchLength_pos.mp (matches' (PrefixIndex.matchLength_pos.mpr ⟨h, first', known⟩))
    obtain rfl := Option.some.inj (first''.symm.trans first')
    obtain ⟨b, hb, sentHere, there⟩ := mem_sentTo.mp ((k.knows s.id h').mp knownHere)
    rw [← sentHere]
    exact t.same a ha b hb h' first (first_of_mem apart (before a ha) (before b hb) first there)
  constructor
  · intro a ha
    rcases List.mem_append.mp ha with ha | ha
    · exact t.sent a ha
    · obtain rfl := List.mem_singleton.mp ha
      exact ⟨s.id, among hs, rfl⟩
  · intro a ha b hb h first first'
    rcases List.mem_append.mp ha with ha | ha <;> rcases List.mem_append.mp hb with hb | hb
    · exact t.same a ha b hb h first first'
    · obtain rfl := List.mem_singleton.mp hb
      exact joins a ha h first first'
    · obtain rfl := List.mem_singleton.mp ha
      exact (joins b hb h first' first).symm
    · obtain rfl := List.mem_singleton.mp ha
      obtain rfl := List.mem_singleton.mp hb
      rfl

/-- The induction is on the visits to come; those before are in the index. -/
theorem Together.answers {inputs : List (Option BlockHash × ContentKey)}
    {visits : List (RequestView × ClusterView)} (t : Together size hosts past)
    (k : p.Recalls size capacity past) (some' : hosts.Nonempty)
    (fixed : ∀ v ∈ visits, v.2.candidates = hosts) (apart : Uncollided inputs)
    (before : ∀ a ∈ past, a.1.inputs size ⊆ inputs)
    (coming : ∀ v ∈ visits, v.1.inputs size ⊆ inputs)
    (fits : ∀ host, (sentTo size (past ++ p.answers visits) host).toFinset.card ≤ capacity) :
    Together size hosts (past ++ p.answers visits) := by
  induction visits generalizing p past with
  | nil =>
      rw [PrefixAffinity.answers, List.append_nil]
      exact t
  | cons v rest ih =>
      obtain ⟨request, view⟩ := v
      rw [PrefixAffinity.answers, ← List.singleton_append, ← List.append_assoc] at fits ⊢
      have here := fixed _ List.mem_cons_self
      refine ih (t.route k some' here apart before) (k.route (here.symm ▸ some') ?_)
        (fun v hv => fixed v (List.mem_cons_of_mem _ hv)) ?_
        (fun v hv => coming v (List.mem_cons_of_mem _ hv)) fits
      · refine fun host => Nat.le_trans (Finset.card_le_card fun h among => ?_) (fits host)
        obtain ⟨a, ha, rest⟩ := mem_sentTo.mp (List.mem_toFinset.mp among)
        exact List.mem_toFinset.mpr (mem_sentTo.mpr ⟨a, List.mem_append_left _ ha, rest⟩)
      · intro a ha
        rcases List.mem_append.mp ha with ha | ha
        · exact before a ha
        · exact List.mem_singleton.mp ha ▸ coming _ List.mem_cons_self

end PrefixAffinity

/-- Whether the prefix of a group covers a block of the prompt of a request. -/
def RequestView.SharesBlock (request : RequestView) (group blockSize : Nat) : Prop :=
  0 < request.inputTokens / blockSize ∧
    ∃ p, request.shared = some p ∧ p.group = group ∧ blockSize ≤ p.tokens

/-- The first block of requests of one group is named after the group. -/
theorem RequestView.SharesBlock.first {request : RequestView} {group blockSize : Nat}
    (shares : request.SharesBlock group blockSize) :
    (request.blocks blockSize).head? =
      some (chainHash none { owner := UInt64.ofNat group ||| groupBit, index := 0 }) := by
  obtain ⟨inside, p, shared, rfl, covered⟩ := shares
  rw [RequestView.blocks, promptBlockHashes, List.head?_eq_getElem?,
    getElem?_blockHashes_of_lt inside, blockName, shared]
  simp only [contentKey, Nat.zero_add, Nat.one_mul, if_pos covered]
  rfl

/-- All requests of a group whose prefix covers at least a block go to one instance. -/
theorem PrefixAffinity.groups_stay_together {blockSize capacity : Nat} {hosts : Finset Nat}
    {visits : List (RequestView × ClusterView)} (some' : hosts.Nonempty)
    (fixed : ∀ v ∈ visits, v.2.candidates = hosts)
    (fits : ∀ host, (sentTo blockSize ((new blockSize capacity).answers visits) host).toFinset.card ≤
      (new blockSize capacity).index.capacity)
    (apart : Uncollided (visits.flatMap fun v => v.1.inputs blockSize)) (group : Nat) :
    ∃ host ∈ hosts, ∀ a ∈ (new blockSize capacity).answers visits,
      a.1.SharesBlock group blockSize → a.2 = .single host := by
  have t : Together blockSize hosts ((new blockSize capacity).answers visits) := by
    have empty : Together blockSize hosts [] :=
      ⟨fun _ none => (List.not_mem_nil none).elim, fun _ none => (List.not_mem_nil none).elim⟩
    refine empty.answers (recalls_new blockSize capacity) some' fixed apart
      (fun _ none => (List.not_mem_nil none).elim) (fun v hv input among => ?_) fits
    exact List.mem_flatMap.mpr ⟨v, hv, among⟩
  by_cases first : ∃ a ∈ (new blockSize capacity).answers visits, a.1.SharesBlock group blockSize
  · obtain ⟨a, ha, shares⟩ := first
    obtain ⟨host, inHosts, sent⟩ := t.sent a ha
    refine ⟨host, inHosts, fun b hb shares' => ?_⟩
    rw [← sent]
    exact t.same b hb a ha _ shares'.first shares.first
  · obtain ⟨host, inHosts⟩ := some'
    exact ⟨host, inHosts, fun a ha shares => absurd ⟨a, ha, shares⟩ first⟩

/-- A request of group 7 that finds two instances with some loads. -/
def PrefixAffinity.groupVisit (id first second : Nat) : RequestView × ClusterView :=
  ({ id, arrivalTime := 0, inputTokens := 32, outputTokens := 1, progress := 0, priority := .ofFloat 0.0
     tenant := 0, sloClass := .standard, shared := some { group := 7, tokens := 16 } },
    { clock := 0, snapshots := [{ id := 0, role := .unified, queueDepth := first },
      { id := 1, role := .unified, queueDepth := second }] })

/-- The second request stays with the first one, although the other instance is idle. -/
theorem PrefixAffinity.second_visit_follows :
    ({0, 1} : Finset Nat).Nonempty ∧
    (∀ v ∈ [groupVisit 1 0 3, groupVisit 2 5 0], v.2.candidates = {0, 1}) ∧
    (∀ host, (sentTo 16 ((new 16 4).answers [groupVisit 1 0 3, groupVisit 2 5 0])
      host).toFinset.card ≤ (new 16 4).index.capacity) ∧
    Uncollided ([groupVisit 1 0 3, groupVisit 2 5 0].flatMap fun v => v.1.inputs 16) ∧
    ∃ host ∈ ({0, 1} : Finset Nat), ∀ a ∈ (new 16 4).answers [groupVisit 1 0 3, groupVisit 2 5 0],
      a.1.SharesBlock 7 16 → a.2 = .single host := by
  have some' : ({0, 1} : Finset Nat).Nonempty := ⟨0, by decide⟩
  have fixed : ∀ v ∈ [groupVisit 1 0 3, groupVisit 2 5 0], v.2.candidates = {0, 1} := by decide
  have fits : ∀ host, (sentTo 16 ((new 16 4).answers [groupVisit 1 0 3, groupVisit 2 5 0])
      host).toFinset.card ≤ (new 16 4).index.capacity := fun host => card_sentTo_le _ 16 host _
  have apart : Uncollided ([groupVisit 1 0 3, groupVisit 2 5 0].flatMap fun v =>
      v.1.inputs 16) := by decide +kernel
  exact ⟨some', fixed, fits, apart, groups_stay_together some' fixed fits apart 7⟩

end InferenceSim
