import InferenceSim.Proofs.Kv.Release

/-! The tables of a cache after any calls: they agree with the holdings, and the next
call fails only for want of blocks, or when it would evict what is held. -/
namespace InferenceSim
open KvCache

/-- A call on a cache. An allocation is given the match of its request in the cache as
it stands, or the empty one. -/
inductive KvCall where
  | allocate (request : Request) (start stop : Nat) (matching : Bool)
  | release (request : Nat)
  | evict (id : Nat)
  | setClock (now : Nat)
  | takePendingLatency

/-- The effect of a call; what an allocation did is not reported. -/
def KvCall.run : KvCall → KvOp Unit
  | .allocate request start stop matching => do
    let c ← get
    let _ ← KvOp.allocate request start stop (if matching then c.lookup request else {})
  | .release request => KvOp.release request
  | .evict id => KvOp.evict id
  | .setClock now => modify fun c => c.setClock now
  | .takePendingLatency => modify fun c => c.takePendingLatency.2

namespace KvCache

def start (host total blockSize : Nat) : Option HostTierConfig → KvCache
  | some tier => (new host total blockSize).withTier tier
  | none => new host total blockSize

/-- The cache after calls in order, those that fail included. -/
def after (c : KvCache) : List KvCall → KvCache
  | [] => c
  | call :: rest =>
    match call.run c with
    | .ok () d | .error _ d => d.after rest

/-- An allocation for the request `r` with the match `m`. Beyond what the request held
and the matched blocks it has only taken blocks that nobody held. -/
structure Serves (c : KvCache) (r : Nat) (m : PrefixMatch) (d : KvCache) : Prop where
  others : ∀ q : Nat, q ≠ r → d.held[q]? = c.held[q]?
  own : ∃ attached taken : List Nat, (d.heldBy r).Perm (c.heldBy r ++ attached ++ taken) ∧
    (attached = [] ∨ attached = KvOp.deviceIds m.blocks) ∧ taken.Nodup ∧
    ∀ id ∈ taken, c.refs? id = some 0
  hashAt : ∀ id ∈ c.heldIds, ∀ a, c.hashAt id = some a → d.hashAt id = some a

/-- What the next call on a cache may do. -/
structure Answers (c : KvCache) : Prop where
  allocate : ∀ (request : Request) (start stop : Nat) (m : PrefixMatch),
    m = c.lookup request ∨ m = {} →
    (∃ a d, KvOp.allocate request start stop m c = .ok a d ∧ Serves c request.id m d) ∨
    ∃ needed available : Nat, available < needed ∧
      KvOp.allocate request start stop m c = .error (.exhausted needed available) c
  release : ∀ r : Nat, ∃ d, KvOp.release r c = .ok () d ∧ d.held = c.held.erase r ∧
    d.hashAt = c.hashAt
  evict_unknown : ∀ id : Nat, c.refs? id = none →
    KvOp.evict id c = .error (.fault (.violation (.unknownBlock c.host id))) c
  evict_held : ∀ id n : Nat, c.refs? id = some (n + 1) →
    KvOp.evict id c = .error (.fault (.violation (.evictReferenced c.host id (n + 1)))) c
  evict_free : ∀ id : Nat, c.refs? id = some 0 → ∃ d, KvOp.evict id c = .ok () d ∧
    d.held = c.held ∧ ∀ j, j ≠ id → d.block? j = c.block? j

theorem eq_of_new {host total blockSize id : Nat} {b : Block}
    (hb : (new host total blockSize).block? id = some b) : b = {} := by
  have block : (new host total blockSize).block? id = if id < total then some {} else none := by
    simp [block?, new]
  rw [block] at hb
  split at hb
  · exact (Option.some.inj hb).symm
  · cases hb

theorem new_consistent (host total blockSize : Nat) : (new host total blockSize).Consistent [] := by
  constructor
  case refs_eq =>
    intro id b hb
    rw [eq_of_new hb]
    rfl
  case inBounds =>
    intro id held
    cases held
  case mem_clean_iff =>
    intro id
    by_cases inside : id < total
    · simp [block?, new, Std.ExtTreeSet.mem_ofList, inside]
    · simp [block?, new, Std.ExtTreeSet.mem_ofList, inside]
  case evictable_iff =>
    intro r id
    refine iff_of_false (by simp [new]) ?_
    rintro ⟨b, hb, _, hashed, _⟩
    rw [eq_of_new hb] at hashed
    exact Bool.false_ne_true hashed
  case index_iff =>
    intro h id
    refine iff_of_false (by simp [new]) ?_
    rintro ⟨b, hb, hashed⟩
    rw [eq_of_new hb] at hashed
    cases hashed
  case conserved =>
    have size : (Std.ExtTreeSet.ofList (List.range total)).size = total := by
      rw [Std.ExtTreeSet.size_ofList, List.length_range]
      exact List.nodup_range.imp fun distinct same =>
        distinct (Std.LawfulEqOrd.compare_eq_iff_eq.mp same)
    simp [new, free, size]
  case recency_le =>
    intro id b hb
    rw [eq_of_new hb]
    exact Nat.zero_le _
  case full =>
    intro id b hb shared
    rw [eq_of_new hb] at shared
    simp at shared
  case tier =>
    intro t found
    cases found

theorem new_sound (host total : Nat) {blockSize : Nat} (positive : 0 < blockSize) :
    (new host total blockSize).Sound :=
  ⟨positive, new_consistent host total blockSize, fun r h own => by simp [new] at own⟩

variable {c d : KvCache}

/-- A change that the tables do not depend on. -/
theorem Sound.congr (k : c.Sound) (held : d.held = c.held) (blocks : d.blocks = c.blocks)
    (total : d.total = c.total) (blockSize : d.blockSize = c.blockSize) (clean : d.clean = c.clean)
    (evictable : d.evictable = c.evictable) (index : d.index = c.index) (used : d.used = c.used)
    (stamp : d.stamp = c.stamp) (tier : ∀ t : HostTier, d.tier = some t → t.Sound) : d.Sound where
  positive := blockSize ▸ k.positive
  consistent := by
    refine k.consistent.rehold ?_ blocks total blockSize clean evictable index used stamp tier
    rw [heldIds, held]
    exact .refl _
  backed r h own := by
    obtain ⟨tokens, backed⟩ := k.backed r h (held ▸ own)
    refine ⟨tokens, backed.congr blockSize fun id _ => ?_⟩
    rw [level, block?, blocks, total, level, block?]

theorem start_sound (host total : Nat) {blockSize : Nat} (positive : 0 < blockSize)
    (tier : Option HostTierConfig) : (start host total blockSize tier).Sound := by
  cases tier with
  | none => exact new_sound host total positive
  | some config =>
      refine (new_sound host total positive).congr rfl rfl rfl rfl rfl rfl rfl rfl rfl ?_
      intro t found
      rw [← Option.some.inj found]
      exact HostTier.sound_new _ _ _

theorem start_unheld (host total blockSize : Nat) (tier : Option HostTierConfig) (r : Nat) :
    (start host total blockSize tier).held[r]? = none := by
  cases tier <;> exact Std.ExtTreeMap.getElem?_empty

theorem Sound.setClock (k : c.Sound) (now : Nat) : (c.setClock now).Sound :=
  k.congr rfl rfl rfl rfl rfl rfl rfl rfl rfl k.consistent.tier

theorem Sound.takePendingLatency (k : c.Sound) : c.takePendingLatency.2.Sound := by
  unfold KvCache.takePendingLatency
  split
  · next t found =>
    refine k.congr rfl rfl rfl rfl rfl rfl rfl rfl rfl fun t' found' => ?_
    rw [← Option.some.inj found']
    exact (k.consistent.tier t found).takePendingLatency
  · exact k

/-- The match of a request, or none, names blocks that are indexed. -/
theorem Sound.match_indexed (k : c.Sound) {request : Request} {m : PrefixMatch}
    (hm : m = c.lookup request ∨ m = {}) : ∀ id ∈ KvOp.deviceIds m.blocks, (c.hashAt id).isSome := by
  rcases hm with rfl | rfl
  · exact KvOp.matchHashes_indexed k.consistent _
  · exact List.forall_mem_nil _

/-- One call keeps the cache sound, and changes nothing when it fails. -/
theorem Sound.run (k : c.Sound) (call : KvCall) :
    (∃ d, call.run c = .ok () d ∧ d.Sound) ∨ ∃ e, call.run c = .error e c := by
  cases call with
  | allocate request start stop matching =>
      obtain ⟨m, hm⟩ : ∃ m, m = if matching then c.lookup request else {} := ⟨_, rfl⟩
      have matched := k.match_indexed
        (show m = c.lookup request ∨ m = {} by cases matching <;> simp [hm])
      simp only [KvCall.run, KvOp.get_bind, ← hm]
      rcases KvOp.allocate_cases k (Eq.refl (c.plan request.id start stop m)) matched with
        ⟨_, _, done⟩ | ⟨_, failed⟩ | ⟨_, a, d, done, allocated⟩
      · exact .inl ⟨c, KvOp.bind_ok done _, k⟩
      · exact .inr ⟨_, KvOp.bind_error failed _⟩
      · exact .inl ⟨d, KvOp.bind_ok done _, allocated.sound⟩
  | release r =>
      obtain ⟨d, done, released⟩ := KvOp.release_ok k r
      exact .inl ⟨d, done, released.sound⟩
  | evict id =>
      rcases KvOp.evict_cases k id with ⟨_, failed⟩ | ⟨b, _, ⟨_, failed⟩ | ⟨_, d, done, sound, _⟩⟩
      · exact .inr ⟨_, failed⟩
      · exact .inr ⟨_, failed⟩
      · exact .inl ⟨d, done, sound⟩
  | setClock now => exact .inl ⟨_, rfl, k.setClock now⟩
  | takePendingLatency => exact .inl ⟨_, rfl, k.takePendingLatency⟩

theorem Sound.after (k : c.Sound) (calls : List KvCall) : (c.after calls).Sound := by
  induction calls generalizing c with
  | nil => exact k
  | cons call rest ih =>
      rw [KvCache.after]
      rcases k.run call with ⟨d, done, sound⟩ | ⟨e, failed⟩
      · rw [done]
        exact ih sound
      · rw [failed]
        exact ih k

theorem Sound.answers (k : c.Sound) : c.Answers where
  allocate request start stop m hm := by
    rcases KvOp.allocate_cases k (Eq.refl (c.plan request.id start stop m))
      (k.match_indexed hm) with ⟨_, _, done⟩ | ⟨few, failed⟩ | ⟨_, a, d, done, allocated⟩
    · refine .inl ⟨_, c, done, fun _ _ => rfl, ⟨[], [], ?_, .inl rfl, List.nodup_nil, ?_⟩,
        fun _ _ _ found => found⟩
      · rw [List.append_nil, List.append_nil]
      · exact List.forall_mem_nil _
    · exact .inr ⟨_, _, few, failed⟩
    · obtain ⟨blocks, taken, own, nodup, unheld, order⟩ := allocated.own
      have owned : d.heldBy request.id = blocks := by rw [heldBy, own]
      refine .inl ⟨a, d, done, allocated.others, ⟨_, taken, owned ▸ order, ?_, nodup, ?_⟩,
        allocated.hashAt⟩
      · rcases k.plan_cases (r := request.id) start stop m with
          ⟨_, attach, _⟩ | ⟨_, _, attach, _⟩
        · exact .inr (by rw [attach])
        · exact .inl (by rw [attach]; rfl)
      · intro id inTaken
        have held : id ∈ d.heldIds := mem_heldIds own
          (order.mem_iff.mpr (List.mem_append_right _ inTaken))
        have inside := allocated.sound.consistent.inBounds id (List.mem_append_left _ held)
        rw [allocated.total] at inside
        have free := (k.consistent.isFree_iff inside).mpr (by simpa using unheld id inTaken)
        simpa [isFree] using free
  release r := by
    obtain ⟨d, done, released⟩ := KvOp.release_ok k r
    exact ⟨d, done, released.held, released.hashAt⟩
  evict_unknown id unknown := by
    rcases KvOp.evict_cases k id with ⟨_, failed⟩ | ⟨b, hb, _⟩
    · exact failed
    · rw [refs?, hb] at unknown
      exact absurd unknown (Option.some_ne_none b.refs)
  evict_held id n held := by
    rcases KvOp.evict_cases k id with ⟨hb, _⟩ | ⟨b, hb, ⟨_, failed⟩ | ⟨free, _⟩⟩
    · rw [refs?, hb] at held
      exact absurd held.symm (Option.some_ne_none _)
    · rw [refs?, hb] at held
      rw [← Option.some.inj held]
      exact failed
    · rw [refs?, hb] at held
      exact absurd ((Option.some.inj held).symm.trans free) (Nat.succ_ne_zero n)
  evict_free id free := by
    rcases KvOp.evict_cases k id with ⟨hb, _⟩ | ⟨b, hb, ⟨held, _⟩ | ⟨_, d, done, _, frame, others⟩⟩
    · rw [refs?, hb] at free
      exact absurd free.symm (Option.some_ne_none _)
    · rw [refs?, hb] at free
      exact absurd (Option.some.inj free) (Nat.ne_of_gt held)
    · exact ⟨d, done, frame.held, others⟩

theorem Sound.after_releases (k : c.Sound) (holders : List Nat) (q : Nat) :
    (c.after (holders.map .release)).held[q]? = if q ∈ holders then none else c.held[q]? := by
  induction holders generalizing c with
  | nil => rfl
  | cons r rest ih =>
      obtain ⟨d, done, released⟩ := KvOp.release_ok k r
      rw [List.map_cons, KvCache.after, KvCall.run, done]
      simp only
      rw [ih released.sound, released.held, Std.ExtTreeMap.getElem?_erase]
      simp only [Std.LawfulEqOrd.compare_eq_iff_eq, List.mem_cons]
      by_cases same : q = r
      · simp [same]
      · simp [same, Ne.symm same]

end KvCache
end InferenceSim
