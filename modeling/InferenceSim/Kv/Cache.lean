import InferenceSim.Fault
import InferenceSim.Kv.HostTier
import Std.Data.ExtTreeSet

/-! The block cache of one instance. Blocks are counted by the requests that hold
them; a full block is named by the hash of its content and stays after its
last holder is gone, until its room is needed. Free blocks without content are
taken first, lowest id first, then cached ones, least recently used first. -/
namespace InferenceSim

/-- One block: the hash of its content if it is indexed, how many holders it has,
how many of its tokens are filled, and when it was last used. -/
structure Block where
  hash : Option BlockHash := none
  refs : Nat := 0
  filled : Nat := 0
  recency : Nat := 0
  deriving DecidableEq, Repr, Inhabited

/-- The blocks of one request in token order, and how many tokens they back. -/
structure Holding where
  blocks : List Nat := []
  tokens : Nat := 0
  deriving DecidableEq, Repr, Inhabited

/-- Why a cache operation fails. Running out of blocks changes nothing. -/
inductive KvError where
  | exhausted (needed available : Nat)
  | fault (f : Fault)
  deriving DecidableEq, Repr

def KvError.message : KvError → String
  | .exhausted needed available =>
    s!"kv cache exhausted: need {needed} blocks, {available} available"
  | .fault f => f.message

/-- A prompt block found in some tier. -/
inductive MatchedBlock where
  | device (id : Nat)
  /-- Only in the host tier; reloaded on allocation. -/
  | offloaded (hash : BlockHash)
  deriving DecidableEq, Repr

/-- The leading prompt blocks that are resident, and how many full blocks the prompt
has in all. -/
structure PrefixMatch where
  blocks : List MatchedBlock := []
  promptBlocks : Nat := 0
  deriving DecidableEq, Repr, Inhabited

namespace PrefixMatch

def size (m : PrefixMatch) : Nat := m.blocks.length

def cachedTokens (m : PrefixMatch) (blockSize : Nat) : Nat := m.size * blockSize

/-- How many of the blocks are in the host tier alone. -/
def offloadedBlocks (m : PrefixMatch) : Nat :=
  m.blocks.countP fun b => match b with
    | .offloaded _ => true
    | .device _ => false

end PrefixMatch

/-- What an allocation did, in blocks. -/
structure Allocation where
  fresh : Nat := 0
  cached : Nat := 0
  reloaded : Nat := 0
  evicted : Nat := 0
  deriving DecidableEq, Repr, Inhabited

/-- The cache of one instance. -/
structure KvCache where
  host : Nat
  blockSize : Nat
  /-- How many blocks there are; the numbers below it are their ids. -/
  total : Nat
  /-- The blocks that have changed since the beginning. -/
  blocks : Std.ExtTreeMap Nat Block := ∅
  /-- Free blocks without content. -/
  clean : Std.ExtTreeSet Nat
  /-- Free blocks with content, by their recency. -/
  evictable : Std.ExtTreeMap Nat Nat := ∅
  /-- The block that carries each indexed hash. -/
  index : Std.ExtTreeMap BlockHash Nat := ∅
  held : Std.ExtTreeMap Nat Holding := ∅
  used : Nat := 0
  stamp : Nat := 0
  now : Nat := 0
  tier : Option HostTier := none
  hitBlocks : Nat := 0
  missBlocks : Nat := 0
  evictions : Nat := 0

/-- A cache operation. What it has changed stays when it fails. -/
abbrev KvOp := EStateM KvError KvCache

namespace KvCache

def new (host total blockSize : Nat) : KvCache :=
  { host, blockSize, total, clean := Std.ExtTreeSet.ofList (List.range total) }

def withTier (c : KvCache) (config : HostTierConfig) : KvCache :=
  { c with tier := some (.new c.host config c.blockSize) }

def setClock (c : KvCache) (now : Nat) : KvCache := { c with now }

def block? (c : KvCache) (id : Nat) : Option Block :=
  if id < c.total then some ((c.blocks[id]?).getD {}) else none

def free (c : KvCache) : Nat := c.clean.size + c.evictable.size

def cached (c : KvCache) : Nat := c.evictable.size

def utilization (c : KvCache) : Float :=
  if c.total = 0 then 0.0 else Binary64.ofCount c.used / Binary64.ofCount c.total

def hitRate (c : KvCache) : Float :=
  let all := c.hitBlocks + c.missBlocks
  if all = 0 then 0.0 else Binary64.ofCount c.hitBlocks / Binary64.ofCount all

/-- The blocks that a number of tokens fills, the last one perhaps in part. -/
def blocksFor (c : KvCache) (tokens : Nat) : Nat := (tokens + c.blockSize - 1) / c.blockSize

/-- The same count for callers that do not know the block size. -/
def blocksFor? (c : KvCache) (tokens : Nat) : Except Fault Nat :=
  if c.blockSize = 0 then .error .noBlockSize else .ok (c.blocksFor tokens)

/-- The blocks a request holds, in token order. -/
def heldBy (c : KvCache) (request : Nat) : List Nat :=
  match c.held[request]? with
  | some h => h.blocks
  | none => []

def refs? (c : KvCache) (id : Nat) : Option Nat := (c.block? id).map (·.refs)

def isCached (c : KvCache) (h : BlockHash) : Bool := c.index.contains h

/-- Whether a hash is resident in the host tier. -/
def isOffloaded (c : KvCache) (h : BlockHash) : Bool :=
  match c.tier with
  | some t => t.contains h
  | none => false

/-- Reads and clears the reload time that is still to be charged. -/
def takePendingLatency (c : KvCache) : Nat × KvCache :=
  match c.tier with
  | some t =>
    let (ticks, t) := t.takePendingLatency
    (ticks, { c with tier := some t })
  | none => (0, c)

/-- The blocks of the leading hashes that are resident in some tier. -/
def matchHashes (c : KvCache) : List BlockHash → List MatchedBlock
  | [] => []
  | h :: rest =>
    match c.index[h]? with
    | some id => .device id :: matchHashes c rest
    | none => if c.isOffloaded h then .offloaded h :: matchHashes c rest else []

/-- The longest run of leading prompt blocks that are resident. At least one prompt
token is left to compute, so a block that ends the prompt never matches. -/
def lookup (c : KvCache) (request : Request) : PrefixMatch :=
  let hashes := promptBlockHashes request.id request.shared request.inputTokens c.blockSize
  let cap := (request.inputTokens - 1) / c.blockSize
  { blocks := c.matchHashes (hashes.take cap), promptBlocks := hashes.length }

/-- The look-up for callers that do not know the block size. -/
def lookup? (c : KvCache) (request : Request) : Except Fault PrefixMatch :=
  if c.blockSize = 0 then .error .noBlockSize else .ok (c.lookup request)

/-- Used and free blocks have to add up to the total, on both tiers. -/
def check (c : KvCache) : Except Violation Unit :=
  if c.used + c.free = c.total then
    match c.tier with
    | some t => t.check
    | none => .ok ()
  else .error (.kvConservation c.host .gpu c.used c.free c.total)

/-- Changes one block. -/
def changeBlock (c : KvCache) (id : Nat) (f : Block → Block) : KvCache :=
  match c.block? id with
  | some b => { c with blocks := c.blocks.insert id (f b) }
  | none => c

/-- A block that a request takes: full or partly filled, without a hash. -/
def fill (c : KvCache) (id tokens : Nat) : KvCache :=
  let c := { c with stamp := c.stamp + 1 }
  let recency := c.stamp
  c.changeBlock id fun _ => { hash := none, refs := 1, filled := tokens, recency }

/-- Indexes a full block. If the hash is already indexed elsewhere this block stays
without one, so it is clean when it is released. -/
def register (c : KvCache) (id : Nat) (h : BlockHash) : KvCache :=
  if c.index.contains h then c
  else
    let c := c.changeBlock id fun b => { b with hash := some h }
    { c with index := c.index.insert h id }

/-- Indexes a block under the hash at its place, if that is known. -/
def registerAt (c : KvCache) (hashes : List BlockHash) (place id : Nat) : KvCache :=
  match hashes[place]? with
  | some h => c.register id h
  | none => c

end KvCache

namespace KvOp

def broken {α : Type} (v : Violation) : KvOp α := throw (.fault (.violation v))

/-- A check of the whole cache. -/
def check : KvOp Unit := do
  match (← get).check with
  | .ok () => pure ()
  | .error v => broken v

/-- A change of the host tier, if there is one. -/
def onTier (f : HostTier → Nat → Except Violation Unit × HostTier) : KvOp Unit := do
  let c ← get
  match c.tier with
  | none => pure ()
  | some t =>
    let (result, t) := f t c.now
    set { c with tier := some t }
    match result with
    | .ok () => pure ()
    | .error v => broken v

/-- Takes a reference on a resident block. -/
def acquire (id : Nat) : KvOp Unit := do
  modify fun c => { c with stamp := c.stamp + 1 }
  match (← get).block? id with
  | none => broken (.unknownBlock (← get).host id)
  | some b =>
    if b.refs = 0 then
      modify fun c => { c with evictable := c.evictable.erase b.recency, used := c.used + 1 }
    modify fun c =>
      let recency := c.stamp
      c.changeBlock id fun b => { b with refs := b.refs + 1, recency }

/-- Forgets the content of a cached block; its hash moves to the host tier. -/
def dropContent (id : Nat) : KvOp Unit := do
  let hash := ((← get).block? id).bind (·.hash)
  modify fun c =>
    let c := c.changeBlock id fun b => { b with hash := none, filled := 0 }
    { c with evictions := c.evictions + 1 }
  match hash with
  | none => pure ()
  | some h =>
    modify fun c => if c.index[h]? = some id then { c with index := c.index.erase h } else c
    onTier fun t now => t.offload h now

/-- A free block, and whether it had to be evicted. -/
def takeFree : KvOp (Nat × Bool) := do
  match (← get).clean.min? with
  | some id =>
    modify fun c => { c with clean := c.clean.erase id, used := c.used + 1 }
    pure (id, false)
  | none =>
    match (← get).evictable.minEntry? with
    | some (recency, id) =>
      modify fun c => { c with evictable := c.evictable.erase recency }
      dropContent id
      modify fun c => { c with used := c.used + 1 }
      pure (id, true)
    | none => throw (.exhausted 1 0)

/-- Takes references on the matched blocks that are on the device. -/
def acquireMatched : List MatchedBlock → KvOp Unit
  | [] => pure ()
  | .device id :: rest => do
    acquire id
    acquireMatched rest
  | .offloaded _ :: rest => acquireMatched rest

/-- Gives each matched block its place on the device, taking free blocks for those in
the host tier. The result has the ids in order and the number of evictions. -/
def placeMatched : List MatchedBlock → KvOp (List Nat × Nat)
  | [] => pure ([], 0)
  | .device id :: rest => do
    let (ids, evicted) ← placeMatched rest
    pure (id :: ids, evicted)
  | .offloaded h :: rest => do
    let (id, evicting) ← takeFree
    modify fun c => (c.fill id c.blockSize).register id h
    let (ids, evicted) ← placeMatched rest
    pure (id :: ids, if evicting then evicted + 1 else evicted)

/-- Fills the room in the last block of a holding up to `goal` tokens. -/
def topUp (hashes : List BlockHash) (room goal : Nat) (h : Holding) : KvOp Holding := do
  match h.blocks.getLast? with
  | none => pure h
  | some last =>
    if room = 0 then pure h
    else
      let add := min room (goal - h.tokens)
      modify fun c => c.changeBlock last fun b => { b with filled := b.filled + add }
      modify fun c =>
        if ((c.block? last).map (·.filled)) = some c.blockSize then
          c.registerAt hashes (h.blocks.length - 1) last
        else c
      pure { h with tokens := h.tokens + add }

/-- Adds `count` free blocks to a holding, each filled as far as `goal` tokens
allow. The result has the number of evictions. -/
def extend (hashes : List BlockHash) (goal : Nat) :
    (count : Nat) → Holding → KvOp (Holding × Nat)
  | 0, h => pure (h, 0)
  | count + 1, h => do
    let (id, evicting) ← takeFree
    let add := min (← get).blockSize (goal - h.tokens)
    modify fun c =>
      let c := c.fill id add
      if add = c.blockSize then c.registerAt hashes h.blocks.length id else c
    let (h, evicted) ←
      extend hashes goal count { blocks := h.blocks ++ [id], tokens := h.tokens + add }
    pure (h, if evicting then evicted + 1 else evicted)

end KvOp

/-- What an allocation is going to do. -/
structure AllocationPlan where
  /-- The matched blocks to attach: those of a first allocation. -/
  attach : List MatchedBlock
  /-- Tokens backed before and by the attached blocks. -/
  base : Nat
  /-- Tokens backed afterwards. -/
  goal : Nat
  /-- Tokens that still fit into the last held block. -/
  room : Nat
  /-- Blocks to take beyond the attached ones. -/
  fresh : Nat
  deriving Repr

namespace KvCache

/-- The plan of an allocation for the tokens from `start` to `stop`. -/
def plan (c : KvCache) (request start stop : Nat) (m : PrefixMatch) : AllocationPlan :=
  let h := (c.held[request]?).getD {}
  let attach := if h.blocks.isEmpty then m.blocks else []
  let base := if h.blocks.isEmpty then attach.length * c.blockSize else h.tokens
  let goal := max (max stop start) base
  let room := h.blocks.length * c.blockSize - h.tokens
  { attach, base, goal, room, fresh := c.blocksFor (goal - base - room) }

/-- The attached blocks that are free now, and so no longer free for others. -/
def reserved (c : KvCache) (attach : List MatchedBlock) : Nat :=
  attach.countP fun b => match b with
    | .device id => c.refs? id = some 0
    | .offloaded _ => false

end KvCache

namespace KvOp

/-- Carries out a plan for which there are enough blocks. Blocks on the device are
taken first, so that evictions for reloads cannot hit them. -/
def carryOut (request : Request) (m : PrefixMatch) (p : AllocationPlan) : KvOp Allocation := do
  let c ← get
  let bs := c.blockSize
  let h := (c.held[request.id]?).getD {}
  let first := h.blocks.isEmpty
  set { c with held := c.held.erase request.id }
  acquireMatched p.attach
  let (placed, evictedByReload) ← placeMatched p.attach
  let reloads := p.attach.filterMap fun b => match b with
    | .offloaded hash => some hash
    | .device _ => none
  if !reloads.isEmpty then
    onTier fun t now => t.reload reloads now
  let h : Holding := { blocks := h.blocks ++ placed, tokens := p.base }
  let hashes := if p.base / bs < p.goal / bs
    then blockHashes request.id request.shared (p.goal / bs) bs else []
  let h ← topUp hashes p.room p.goal h
  let (h, evictedByFresh) ← extend hashes p.goal p.fresh h
  if first && 0 < m.promptBlocks then
    modify fun c => { c with
      hitBlocks := c.hitBlocks + m.size
      missBlocks := c.missBlocks + (m.promptBlocks - m.size) }
  modify fun c => { c with held := c.held.insert request.id h }
  check
  pure {
    fresh := p.fresh
    cached := p.attach.length - reloads.length
    reloaded := reloads.length
    evicted := evictedByReload + evictedByFresh }

/-- Extends the allocation of a request so that the tokens up to `stop` are backed.
On a first allocation the matched blocks are attached before anything else. -/
def allocate (request : Request) (start stop : Nat) (m : PrefixMatch) : KvOp Allocation := do
  let c ← get
  let p := c.plan request.id start stop m
  if p.goal = p.base ∧ p.attach.isEmpty then pure {}
  else if c.blockSize = 0 then throw (.fault .noBlockSize)
  else
    let needed := p.fresh + (PrefixMatch.mk p.attach 0).offloadedBlocks
    let available := c.free - c.reserved p.attach
    if available < needed then throw (.exhausted needed available)
    else carryOut request m p

/-- Drops one reference; a block without holders is free again. -/
def releaseBlock (id : Nat) : KvOp Unit := do
  modify fun c => { c with stamp := c.stamp + 1 }
  match (← get).block? id with
  | none => broken (.unknownBlock (← get).host id)
  | some b =>
    if b.refs = 0 then broken (.negativeRefcount (← get).host id)
    else if b.refs = 1 then
      modify fun c =>
        let recency := c.stamp
        let c := { c with used := c.used - 1 }
        if b.hash.isSome then
          let c := c.changeBlock id fun b => { b with refs := 0, recency }
          { c with evictable := c.evictable.insert recency id }
        else
          let c := c.changeBlock id fun b => { b with refs := 0, recency, filled := 0 }
          { c with clean := c.clean.insert id }
    else modify fun c => c.changeBlock id fun b => { b with refs := b.refs - 1 }

def releaseBlocks : List Nat → KvOp Unit
  | [] => pure ()
  | id :: rest => do
    releaseBlock id
    releaseBlocks rest

/-- Drops every reference of a request, the last block first. -/
def release (request : Nat) : KvOp Unit := do
  match (← get).held[request]? with
  | none => pure ()
  | some h =>
    modify fun c => { c with held := c.held.erase request }
    releaseBlocks h.blocks.reverse
    check

/-- Evicts a cached block. A block that is held cannot be evicted. -/
def evict (id : Nat) : KvOp Unit := do
  let c ← get
  match c.block? id with
  | none => broken (.unknownBlock c.host id)
  | some b =>
    if 0 < b.refs then broken (.evictReferenced c.host id b.refs)
    else
      if c.evictable[b.recency]? = some id then
        set { c with evictable := c.evictable.erase b.recency }
        dropContent id
        modify fun c => { c with clean := c.clean.insert id }
      check

end KvOp

/-- The cache after a request has let go of its blocks. -/
def KvCache.releasing (c : KvCache) (request : Nat) : Except Fault KvCache :=
  match KvOp.release request c with
  | .ok () c | .error (.exhausted _ _) c => .ok c
  | .error (.fault f) _ => .error f

end InferenceSim
