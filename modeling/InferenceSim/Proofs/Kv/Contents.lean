import InferenceSim.Proofs.Kv.Representation

/-! What the blocks of a cache contain. A holding is filled in order, and each of its blocks
that carries a hash carries the one of its place; so cached content is found again only
where it belongs, and no request can change what another one holds. -/
namespace InferenceSim
open KvCache

/-- A call for the request `q`. -/
def KvCall.concerns (q : Nat) : KvCall → Prop
  | .allocate request _ _ _ => request.id = q
  | .release request => request = q
  | .evict _ | .setClock _ | .takePendingLatency => False

/-- An allocation names its request with the shared prefix that belongs to its id. -/
def KvCall.Follows (prefixes : Nat → Option SharedPrefix) : KvCall → Prop
  | .allocate request _ _ _ => request.shared = prefixes request.id
  | .release _ | .evict _ | .setClock _ | .takePendingLatency => True

namespace KvCache

/-- The content of each block is that of its place, and what is shared is complete. -/
structure Filed (prefixes : Nat → Option SharedPrefix) (c : KvCache) : Prop where
  count : ∀ (r : Nat) (h : Holding), c.held[r]? = some h →
    h.blocks.length = c.blocksFor h.tokens
  level : ∀ (r : Nat) (h : Holding), c.held[r]? = some h →
    ∀ i id : Nat, h.blocks[i]? = some id →
      c.level id = some (min c.blockSize (h.tokens - i * c.blockSize))
  hash : ∀ (r : Nat) (h : Holding), c.held[r]? = some h →
    ∀ i id : Nat, h.blocks[i]? = some id → ∀ a, c.hashAt id = some a →
      ∀ n, i < n → (blockHashes r (prefixes r) n c.blockSize)[i]? = some a
  full : ∀ id : Nat, 2 ≤ c.heldIds.count id ∨ (∃ a : BlockHash, c.index[a]? = some id) →
    c.level id = some c.blockSize
  found : ∀ (request : Request) (i id : Nat),
    (c.lookup request).blocks[i]? = some (.device id) →
    ∃ a, (promptBlockHashes request.id request.shared request.inputTokens c.blockSize)[i]? =
      some a ∧ c.hashAt id = some a

/-- What the request `q` holds is the same in both caches. -/
structure Untouched (q : Nat) (c d : KvCache) : Prop where
  held : d.held[q]? = c.held[q]?
  level : ∀ id ∈ c.heldBy q, d.level id = c.level id
  hashAt : ∀ id ∈ c.heldBy q, d.hashAt id = c.hashAt id

variable {c d : KvCache} {prefixes : Nat → Option SharedPrefix} {q : Nat}

theorem Untouched.of_blocks (held : d.held = c.held)
    (blocks : ∀ id ∈ c.heldBy q, d.block? id = c.block? id) : Untouched q c d where
  held := by rw [held]
  level id inside := by rw [KvCache.level, blocks id inside, KvCache.level]
  hashAt id inside := by rw [KvCache.hashAt, blocks id inside, KvCache.hashAt]

theorem Untouched.refl : Untouched q c c := .of_blocks rfl fun _ _ => rfl

theorem takePendingLatency_same (c : KvCache) :
    c.takePendingLatency.2.held = c.held ∧ c.takePendingLatency.2.block? = c.block? ∧
      c.takePendingLatency.2.blockSize = c.blockSize := by
  unfold takePendingLatency
  split <;> exact ⟨rfl, rfl, rfl⟩

theorem after_ok {x : KvCall} (done : x.run c = .ok () d) : c.after [x] = d := by
  rw [after, done]
  rfl

theorem after_error {x : KvCall} {e : KvError} (failed : x.run c = .error e d) :
    c.after [x] = d := by
  rw [after, failed]
  rfl

theorem after_cons (c : KvCache) (call : KvCall) (rest : List KvCall) :
    c.after (call :: rest) = (c.after [call]).after rest := by
  rw [after]
  cases done : call.run c with
  | ok _ d => rw [after_ok done]
  | error e d => rw [after_error done]

theorem after_turn {request : Request} {first stop : Nat} {a : Allocation} {b d : KvCache}
    (given : KvOp.allocate request first stop (c.lookup request) c = .ok a b)
    (released : KvOp.release request.id b = .ok () d) :
    c.after [.allocate request first stop true, .release request.id] = d := by
  have filled : c.after [.allocate request first stop true] = b := after_ok (KvOp.bind_ok given _)
  rw [after_cons, filled, after_ok (x := .release request.id) released]

theorem after_append (c : KvCache) (calls more : List KvCall) :
    c.after (calls ++ more) = (c.after calls).after more := by
  induction calls generalizing c with
  | nil => rfl
  | cons call rest ih => rw [List.cons_append, after_cons, ih, ← after_cons]

theorem Sound.allocate_call (k : c.Sound) (request : Request) (start stop : Nat)
    (matching : Bool) :
    c.after [.allocate request start stop matching] = c ∨
    ∃ m, (m = c.lookup request ∨ m = {}) ∧ Allocated c request (c.plan request.id start stop m)
      (c.after [.allocate request start stop matching]) := by
  obtain ⟨m, hm⟩ : ∃ m, m = if matching then c.lookup request else {} := ⟨_, rfl⟩
  have given : m = c.lookup request ∨ m = {} := by cases matching <;> simp [hm]
  have runs : (KvCall.allocate request start stop matching).run c =
      (KvOp.allocate request start stop m >>= fun _ => pure ()) c := by
    rw [hm]
    rfl
  rcases KvOp.allocate_cases k (Eq.refl (c.plan request.id start stop m))
    (k.match_indexed given) with ⟨_, _, done⟩ | ⟨_, failed⟩ | ⟨_, a, d, done, allocated⟩
  · exact .inl (after_ok (runs.trans (KvOp.bind_ok done _)))
  · exact .inl (after_error (runs.trans (KvOp.bind_error failed _)))
  · rw [after_ok (runs.trans (KvOp.bind_ok done _))]
    exact .inr ⟨m, given, allocated⟩

theorem Sound.evict_call (k : c.Sound) (id : Nat) :
    (c.after [.evict id]).blockSize = c.blockSize ∧ Untouched q c (c.after [.evict id]) := by
  rcases KvOp.evict_cases k id with ⟨_, failed⟩ | ⟨b, hb, ⟨_, failed⟩ | ⟨free, d, done, _, frame,
    others⟩⟩
  · rw [after_error (x := .evict id) failed]
    exact ⟨rfl, .refl⟩
  · rw [after_error (x := .evict id) failed]
    exact ⟨rfl, .refl⟩
  · rw [after_ok (x := .evict id) done]
    refine ⟨frame.blockSize, .of_blocks frame.held fun j inside => others j fun same => ?_⟩
    have absent := k.consistent.not_mem_of_refs hb free
    exact absent (List.mem_append_left _ (same ▸ mem_heldIds_of_heldBy inside))

theorem Sound.untouched (k : c.Sound) (call : KvCall) :
    (c.after [call]).blockSize = c.blockSize ∧
      ∀ q, ¬ call.concerns q → Untouched q c (c.after [call]) := by
  cases call with
  | allocate request start stop matching =>
      rcases k.allocate_call request start stop matching with same | ⟨m, _, allocated⟩
      · rw [same]
        exact ⟨rfl, fun _ _ => .refl⟩
      · refine ⟨allocated.blockSize, fun q other => ?_⟩
        have other : q ≠ request.id := fun same => other same.symm
        exact ⟨allocated.others q other, fun id inside => (allocated.spared q other id inside).1,
          fun id inside => (allocated.spared q other id inside).2⟩
  | release r =>
      obtain ⟨d, done, released⟩ := KvOp.release_ok k r
      rw [after_ok (x := .release r) done]
      refine ⟨released.blockSize, fun q other => ?_⟩
      have other : q ≠ r := fun same => other same.symm
      refine ⟨?_, released.level q other, fun id _ => by rw [released.hashAt]⟩
      rw [released.held, Std.ExtTreeMap.getElem?_erase]
      simp only [Std.LawfulEqOrd.compare_eq_iff_eq, Ne.symm other, if_false]
  | evict id =>
      exact ⟨(k.evict_call (q := 0) id).1, fun q _ => (k.evict_call id).2⟩
  | setClock now => exact ⟨rfl, fun _ _ => .of_blocks rfl fun _ _ => rfl⟩
  | takePendingLatency =>
      obtain ⟨held, blocks, blockSize⟩ := takePendingLatency_same c
      exact ⟨blockSize, fun _ _ => .of_blocks held fun id _ => congrFun blocks id⟩

/-- The blocks that a request holds carry the hashes of the request. -/
structure Stocked (prefixes : Nat → Option SharedPrefix) (c : KvCache) : Prop where
  sound : c.Sound
  labelled : ∀ r : Nat, c.Labelled r (prefixes r) (c.heldBy r)

theorem Untouched.labelled (u : Untouched q c d) (blockSize : d.blockSize = c.blockSize)
    {shared : Option SharedPrefix} (k : c.Labelled q shared (c.heldBy q)) :
    d.Labelled q shared (d.heldBy q) := by
  have same : d.heldBy q = c.heldBy q := by rw [heldBy, u.held, heldBy]
  rw [same]
  exact k.congr blockSize u.hashAt

theorem Sound.matchNamed (k : c.Sound) {request : Request} {m : PrefixMatch} (start stop : Nat)
    (hm : m = c.lookup request ∨ m = {}) :
    c.MatchNamed request (c.plan request.id start stop m).attach := by
  intro i block a here tagged
  rcases k.plan_cases (r := request.id) start stop m with ⟨_, attach, _⟩ | ⟨_, _, attach, _⟩
  · rw [attach] at here
    rcases hm with rfl | rfl
    · obtain ⟨a', named, tagged'⟩ := tag_matchHashes k.consistent here
      obtain rfl := Option.some.inj (tagged.symm.trans tagged')
      rw [List.getElem?_take] at named
      split at named
      · exact names_of_getElem? named
      · cases named
    · cases here
  · rw [attach] at here
    cases here

/-- One call keeps every block under the hash of its place. -/
theorem Stocked.call (k : Stocked prefixes c) {call : KvCall} (follows : call.Follows prefixes) :
    Stocked prefixes (c.after [call]) where
  sound := k.sound.after [call]
  labelled r := by
    obtain ⟨blockSize, untouched⟩ := k.sound.untouched call
    by_cases concerned : call.concerns r
    · cases call with
      | allocate request start stop matching =>
          obtain rfl : request.id = r := concerned
          have prefix' : request.shared = prefixes request.id := follows
          rcases k.sound.allocate_call request start stop matching with same | ⟨m, hm, allocated⟩
          · rw [same]
            exact k.labelled request.id
          · rw [← prefix']
            exact allocated.labelled (prefix' ▸ k.labelled request.id)
              (k.sound.matchNamed start stop hm)
      | release q =>
          obtain rfl : q = r := concerned
          obtain ⟨d, done, released⟩ := KvOp.release_ok k.sound q
          have none : d.heldBy q = [] := by
            rw [heldBy, released.held, Std.ExtTreeMap.getElem?_erase_self]
          rw [after_ok (x := .release q) done, none]
          exact fun _ _ _ place => by cases place
      | evict id => exact concerned.elim
      | setClock now => exact concerned.elim
      | takePendingLatency => exact concerned.elim
    · exact (untouched r concerned).labelled blockSize (k.labelled r)

theorem Stocked.after (k : Stocked prefixes c) {calls : List KvCall}
    (follows : ∀ call ∈ calls, call.Follows prefixes) :
    Stocked prefixes (c.after calls) ∧ (c.after calls).blockSize = c.blockSize := by
  induction calls generalizing c with
  | nil => exact ⟨k, rfl⟩
  | cons call rest ih =>
      obtain ⟨stocked, blockSize⟩ := ih (k.call (follows call List.mem_cons_self))
        fun later inRest => follows later (List.mem_cons_of_mem _ inRest)
      rw [after_cons]
      exact ⟨stocked, blockSize.trans (k.sound.untouched call).1⟩

theorem start_stocked (host total : Nat) {blockSize : Nat} (positive : 0 < blockSize)
    (tier : Option HostTierConfig) : Stocked prefixes (start host total blockSize tier) where
  sound := start_sound host total positive tier
  labelled r := by
    have none : (start host total blockSize tier).heldBy r = [] := by
      cases tier <;> simp [heldBy, start, withTier, new]
    rw [none]
    exact fun _ _ _ place => by cases place

theorem Sound.length_blocks (k : c.Sound) {r : Nat} {h : Holding} (own : c.held[r]? = some h) :
    h.blocks.length = c.blocksFor h.tokens := by
  obtain ⟨upto, tight⟩ := blocksFor_bounds k.positive h.tokens
  have enough := (k.backed r h own).2.enough
  have bound := (k.backed r h own).2.tight
  refine Nat.le_antisymm (Nat.not_lt.mp fun more => ?_) (Nat.not_lt.mp fun more => ?_)
  · have product := Nat.mul_le_mul_right c.blockSize (Nat.succ_le_of_lt more)
    rw [Nat.succ_mul] at product
    omega
  · have product := Nat.mul_le_mul_right c.blockSize (Nat.succ_le_of_lt more)
    rw [Nat.succ_mul] at product
    omega

theorem Sound.full_level (k : c.Sound) {id : Nat}
    (shared : 2 ≤ c.heldIds.count id ∨ ∃ a : BlockHash, c.index[a]? = some id) :
    c.level id = some c.blockSize := by
  rcases shared with twice | ⟨a, listed⟩
  · have held := List.count_pos_iff.mp (Nat.lt_of_lt_of_le Nat.zero_lt_two twice)
    obtain ⟨b, hb⟩ := exists_block (k.consistent.inBounds id (List.mem_append_left _ held))
    have refs := k.consistent.refs_eq id b hb
    rw [List.append_nil] at refs
    rw [level_of_block hb, k.consistent.full id b hb (.inr (refs ▸ twice))]
  · obtain ⟨b, hb, hash⟩ := (k.consistent.index_iff a id).mp listed
    rw [level_of_block hb, k.consistent.full id b hb (.inl (by rw [hash]; rfl))]

theorem Stocked.filed (k : Stocked prefixes c) : Filed prefixes c where
  count r h own := k.sound.length_blocks own
  level r h own := (k.sound.backed r h own).2.level
  hash r h own i id place a hash := by
    have held : c.heldBy r = h.blocks := by rw [heldBy, own]
    exact k.labelled r i id a (held.symm ▸ place) hash
  full _ := k.sound.full_level
  found request i id here := by
    obtain ⟨a, named, tagged⟩ := tag_matchHashes k.sound.consistent here
    rw [List.getElem?_take] at named
    split at named
    · exact ⟨a, named, tagged⟩
    · cases named

/-- After any calls that use each id with one shared prefix, every holding is filled in order
up to its tokens, the hashes of its blocks are those of their places, and blocks that are
shared or indexed are full. The next call touches nothing that another request holds. -/
theorem calls_keep_contents {blockSize : Nat} (positive : 0 < blockSize) (host total : Nat)
    (tier : Option HostTierConfig) (prefixes : Nat → Option SharedPrefix) (calls : List KvCall)
    (follows : ∀ call ∈ calls, call.Follows prefixes) :
    ((start host total blockSize tier).after calls).blockSize = blockSize ∧
      Filed prefixes ((start host total blockSize tier).after calls) ∧
      ∀ (call : KvCall) (q : Nat), ¬ call.concerns q →
        Untouched q ((start host total blockSize tier).after calls)
          ((start host total blockSize tier).after (calls ++ [call])) := by
  obtain ⟨stocked, kept⟩ := (start_stocked host total positive tier).after follows
  have size : (start host total blockSize tier).blockSize = blockSize := by cases tier <;> rfl
  refine ⟨kept.trans size, stocked.filed, fun call q other => ?_⟩
  rw [after_append]
  exact (stocked.sound.untouched call).2 q other

/-- Two requests share the first of their blocks of two tokens. -/
def sharing : List KvCall :=
  [.allocate { id := 1, arrivalTime := 0, inputTokens := 5, outputTokens := 1
               shared := some ⟨7, 2⟩ } 0 5 true,
    .release 1,
    .allocate { id := 2, arrivalTime := 0, inputTokens := 3, outputTokens := 1
                shared := some ⟨7, 2⟩ } 2 3 true]

theorem sharing_filed : 0 < 2 ∧ (∀ call ∈ sharing, call.Follows fun _ => some ⟨7, 2⟩) ∧
    Filed (fun _ => some ⟨7, 2⟩) ((start 0 4 2 none).after sharing) := by
  have follows : ∀ call ∈ sharing, call.Follows fun _ => some ⟨7, 2⟩ := by
    simp [sharing, KvCall.Follows]
  exact ⟨by decide, follows, (calls_keep_contents (by decide) 0 4 none _ _ follows).2.1⟩

end KvCache
end InferenceSim
