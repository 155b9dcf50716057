import InferenceSim.Proofs.Kv.Labels
import InferenceSim.Proofs.Kv.Release
import Mathlib.Data.List.Perm.Subperm

/-! When an allocation cannot fail: a request that alone holds blocks is given as many
as fit into the cache. -/
namespace InferenceSim
open KvCache

namespace KvOp
variable {c : KvCache} {request : Request} {m : PrefixMatch} {start stop n : Nat}

theorem attach_length (attach : List MatchedBlock) : attach.length =
    (deviceIds attach).length + (PrefixMatch.mk attach 0).offloadedBlocks := by
  induction attach with
  | nil => rfl
  | cons b rest ih =>
      cases b with
      | device id =>
          have same : (PrefixMatch.mk (.device id :: rest) 0).offloadedBlocks =
              (PrefixMatch.mk rest 0).offloadedBlocks := List.countP_cons_of_neg (by simp)
          rw [same, List.length_cons, ih]
          show _ = (deviceIds rest).length + 1 + _
          omega
      | offloaded x =>
          have more : (PrefixMatch.mk (.offloaded x :: rest) 0).offloadedBlocks =
              (PrefixMatch.mk rest 0).offloadedBlocks + 1 := List.countP_cons_of_pos rfl
          rw [more, List.length_cons, ih]
          show _ = (deviceIds rest).length + _
          omega

theorem reserved_le (c : KvCache) (attach : List MatchedBlock) :
    c.reserved attach ≤ (deviceIds attach).length := by
  have one : ∀ b : Bool, (if b = true then 1 else 0) ≤ 1 := by decide
  induction attach with
  | nil => exact Nat.le_refl 0
  | cons b rest ih =>
      rw [reserved] at ih ⊢
      rw [List.countP_cons]
      cases b with
      | device id => exact Nat.add_le_add ih (one _)
      | offloaded x => exact ih

theorem blocks_le {length fresh goal size : Nat}
    (tight : length * size < goal + size) (last : fresh * size < goal - length * size + size)
    (fits : goal ≤ n * size) : length + fresh ≤ n := by
  refine Nat.not_lt.mp fun more => ?_
  have product : (n + 1) * size ≤ (length + fresh) * size := Nat.mul_le_mul_right size more
  rw [Nat.succ_mul, Nat.add_mul] at product
  have one : 0 < fresh → size ≤ fresh * size := Nat.le_mul_of_pos_left size
  have none : fresh = 0 → fresh * size = 0 := fun zero => by rw [zero, Nat.zero_mul]
  omega

theorem plan_blocks {p : AllocationPlan} (k : c.Sound)
    (hp : p = c.plan request.id start stop m) (fits : p.goal ≤ n * c.blockSize) :
    (c.heldBy request.id).length + p.attach.length + p.fresh ≤ n := by
  have positive := k.positive
  have below : p.base ≤ p.goal := hp ▸ plan_base_le c _ _ _ m
  have fresh : p.fresh = c.blocksFor (p.goal - p.base - p.room) := by rw [hp]; rfl
  obtain ⟨_, last⟩ := blocksFor_bounds positive (p.goal - p.base - p.room)
  rw [← fresh] at last
  rcases k.plan_cases (r := request.id) start stop m with
    ⟨own, attach, base, room⟩ | ⟨h, own, attach, base, room⟩
  · rw [← hp] at attach base room
    have none : c.heldBy request.id = [] := by rw [heldBy, own]
    rw [none, attach, List.length_nil, Nat.zero_add]
    exact blocks_le (by omega) (by omega) fits
  · rw [← hp] at attach base room
    have backed := (k.backed _ h own).2
    have enough := backed.enough
    have tight := backed.tight
    have held : c.heldBy request.id = h.blocks := by rw [heldBy, own]
    rw [held, attach, List.length_nil, Nat.add_zero]
    exact blocks_le (by omega) (by omega) fits

theorem enough_alone {p : AllocationPlan} (k : c.Sound)
    (hp : p = c.plan request.id start stop m)
    (alone : ∀ q : Nat, q ≠ request.id → c.held[q]? = none)
    (fits : p.goal ≤ c.total * c.blockSize) :
    p.fresh + (PrefixMatch.mk p.attach 0).offloadedBlocks ≤ c.free - c.reserved p.attach := by
  have blocks := plan_blocks k hp fits
  rw [attach_length] at blocks
  have reserved := reserved_le c p.attach
  have others : ({ c with held := c.held.erase request.id } : KvCache).heldIds = [] := by
    refine heldIds_of_none fun q => ?_
    show (c.held.erase request.id)[q]? = none
    rw [Std.ExtTreeMap.getElem?_erase]
    split
    · rfl
    · next other =>
      exact alone q fun same => other (Std.LawfulEqOrd.compare_eq_iff_eq.mpr same.symm)
  have order := (unheld (c := c) (d := { c with held := c.held.erase request.id })
    (r := request.id) rfl).length_eq
  rw [others, List.append_nil] at order
  have used := k.consistent.used_le
  rw [List.append_nil, order] at used
  have all := k.consistent.conserved
  omega

/-- What an allocation that went well has done for a request of at most `bound` tokens. -/
structure Lends (c : KvCache) (r bound : Nat) (d : KvCache) : Prop where
  sound : d.Sound
  host : d.host = c.host
  blockSize : d.blockSize = c.blockSize
  total : d.total = c.total
  others : ∀ q : Nat, q ≠ r → d.held[q]? = c.held[q]?
  own : ∀ h : Holding, d.held[r]? = some h → h.tokens ≤ bound

theorem allocate_within {bound : Nat} (k : c.Sound)
    (matched : ∀ id ∈ deviceIds m.blocks, (c.hashAt id).isSome)
    (upto : max stop start ≤ bound) (cached : m.blocks.length * c.blockSize ≤ bound)
    (own : ∀ h : Holding, c.held[request.id]? = some h → h.tokens ≤ bound) :
    (∃ a d, allocate request start stop m c = .ok a d ∧ Lends c request.id bound d) ∨
    ∃ needed available, allocate request start stop m c = .error (.exhausted needed available) c ∧
      (bound ≤ c.total * c.blockSize → ∃ q : Nat, q ≠ request.id ∧ c.held[q]? ≠ none) := by
  obtain ⟨p, hp⟩ : ∃ p, p = c.plan request.id start stop m := ⟨_, rfl⟩
  have within : p.goal ≤ bound := by
    rw [hp, plan_goal]
    refine Nat.max_le.mpr ⟨upto, ?_⟩
    rcases k.plan_cases (r := request.id) start stop m with
      ⟨_, _, base, _⟩ | ⟨h, held, _, base, _⟩
    · exact base ▸ cached
    · exact base ▸ own h held
  rcases allocate_cases k hp matched with ⟨_, _, done⟩ | ⟨few, failed⟩ | ⟨_, a, d, done, allocated⟩
  · exact .inl ⟨_, c, done, k, rfl, rfl, rfl, fun _ _ => rfl, own⟩
  · refine .inr ⟨_, _, failed, fun fits => Classical.byContradiction fun alone => ?_⟩
    have enough := enough_alone k hp (fun q other => Classical.byContradiction fun held =>
      alone ⟨q, other, held⟩) (Nat.le_trans within fits)
    omega
  · refine .inl ⟨a, d, done, allocated.sound, allocated.host, allocated.blockSize,
      allocated.total, allocated.others, fun h held => ?_⟩
    obtain ⟨blocks, _, now, _⟩ := allocated.own
    rw [now] at held
    rw [← Option.some.inj held]
    exact within

end KvOp

namespace KvCache
variable {c d : KvCache}

theorem Sound.allocate_unheld (k : c.Sound) {request : Request} {stop : Nat}
    (unheld : ∀ q : Nat, c.held[q]? = none)
    (cached : (c.lookup request).blocks.length * c.blockSize ≤ stop)
    (fits : stop ≤ c.total * c.blockSize) :
    ∃ a d, KvOp.allocate request 0 stop (c.lookup request) c = .ok a d ∧
      KvOp.Lends c request.id stop d := by
  have own : ∀ h : Holding, c.held[request.id]? = some h → h.tokens ≤ stop := fun h held => by
    cases (unheld request.id).symm.trans held
  rcases KvOp.allocate_within k (KvOp.matchHashes_indexed k.consistent _)
    (Nat.max_le.mpr ⟨Nat.le_refl stop, Nat.zero_le stop⟩) cached own with
    served | ⟨_, _, _, others⟩
  · exact served
  · obtain ⟨q, _, held⟩ := others fits
    exact absurd (unheld q) held

/-- The blocks of a request stay apart while it is given others. -/
theorem Allocated.nodup {request : Request} {p : AllocationPlan} (done : Allocated c request p d)
    (none : p.attach = []) (distinct : (c.heldBy request.id).Nodup) :
    (d.heldBy request.id).Nodup := by
  obtain ⟨blocks, taken, held, nodup, outside, perm⟩ := done.own
  rw [none, show KvOp.deviceIds [] = [] from rfl, List.append_nil] at perm
  rw [heldBy, held]
  refine perm.nodup_iff.mpr (List.nodup_append.mpr ⟨distinct, nodup, fun a ha b hb same => ?_⟩)
  exact outside b hb (same ▸ mem_heldIds_of_heldBy ha)

end KvCache
end InferenceSim
