import InferenceSim.Kv.Cache

/-! The figures of a cache that reports show. -/
namespace InferenceSim

/-- The figures of the host tier. -/
structure HostTierStats where
  capacity : Nat
  used : Nat
  offloads : Nat
  reloads : Nat
  thrashes : Nat
  thrashRate : Float
  deriving Inhabited

/-- The figures of a cache. -/
structure KvStats where
  total : Nat
  used : Nat
  free : Nat
  cached : Nat
  utilization : Float
  hitBlocks : Nat
  missBlocks : Nat
  hitRate : Float
  evictions : Nat
  tier : Option HostTierStats
  deriving Inhabited

def HostTier.stats (t : HostTier) : HostTierStats :=
  { capacity := t.capacity, used := t.used, offloads := t.offloads, reloads := t.reloads
    thrashes := t.thrashes, thrashRate := t.thrashRate }

def KvCache.stats (c : KvCache) : KvStats :=
  { total := c.total, used := c.used, free := c.free, cached := c.cached
    utilization := c.utilization, hitBlocks := c.hitBlocks, missBlocks := c.missBlocks
    hitRate := c.hitRate, evictions := c.evictions, tier := c.tier.map HostTier.stats }

namespace HostTierStats

def toDocument (s : HostTierStats) : Document :=
  .table [("capacity", .count s.capacity), ("used", .count s.used),
    ("offloads", .count s.offloads), ("reloads", .count s.reloads),
    ("thrashes", .count s.thrashes), ("thrash_rate", .real s.thrashRate)]

def ofDocument? (d : Document) : Option HostTierStats := do
  let f ← d.fields? ["capacity", "used", "offloads", "reloads", "thrashes", "thrash_rate"]
  return {
    capacity := ← f.count 64 "capacity"
    used := ← f.count 64 "used"
    offloads := ← f.count 64 "offloads"
    reloads := ← f.count 64 "reloads"
    thrashes := ← f.count 64 "thrashes"
    thrashRate := ← f.real "thrash_rate" }

end HostTierStats

namespace KvStats

def toDocument (s : KvStats) : Document :=
  .table [("total_blocks", .count s.total), ("used_blocks", .count s.used),
    ("free_blocks", .count s.free), ("cached_blocks", .count s.cached),
    ("utilization", .real s.utilization), ("hit_blocks", .count s.hitBlocks),
    ("miss_blocks", .count s.missBlocks), ("hit_rate", .real s.hitRate),
    ("evictions", .count s.evictions), ("cpu", .option HostTierStats.toDocument s.tier)]

def ofDocument? (d : Document) : Option KvStats := do
  let f ← d.fields? ["total_blocks", "used_blocks", "free_blocks", "cached_blocks",
    "utilization", "hit_blocks", "miss_blocks", "hit_rate", "evictions", "cpu"]
  return {
    total := ← f.count 64 "total_blocks"
    used := ← f.count 64 "used_blocks"
    free := ← f.count 64 "free_blocks"
    cached := ← f.count 64 "cached_blocks"
    utilization := ← f.real "utilization"
    hitBlocks := ← f.count 64 "hit_blocks"
    missBlocks := ← f.count 64 "miss_blocks"
    hitRate := ← f.real "hit_rate"
    evictions := ← f.count 64 "evictions"
    tier := ← f.optional "cpu" HostTierStats.ofDocument? }

end KvStats

end InferenceSim
