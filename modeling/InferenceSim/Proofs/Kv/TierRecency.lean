import InferenceSim.Proofs.Kv.TierTraffic

/-! What the host tier remembers. Its hashes, the one offloaded longest ago first, are those of a
plain list that a call rewrites as a whole, and its counters say where every hash has gone. -/
namespace InferenceSim

/-- A call on a host tier. -/
inductive TierCall where
  | offload (hash : BlockHash) (now : Nat)
  | reload (hashes : List BlockHash) (now : Nat)

namespace TierCall

def run (t : HostTier) : TierCall → Except Violation Unit × HostTier
  | .offload a now => t.offload a now
  | .reload hs now => t.reload hs now

/-- The effect of a call on hashes in the order of their last offload. An offload puts its hash
at the end, and of what is then too much the front is lost; a reload takes its hashes out. -/
def remember (capacity : Nat) (kept : List BlockHash) : TierCall → List BlockHash
  | .offload a _ =>
    let all := kept.filter (· ≠ a) ++ [a]
    all.drop (all.length - capacity)
  | .reload hs _ => kept.filter (· ∉ hs)

end TierCall

namespace HostTier

def after (t : HostTier) (calls : List TierCall) : HostTier :=
  calls.foldl (fun t call => (call.run t).2) t

/-- The resident hashes, the one that was offloaded longest ago first. -/
def ageOrder (t : HostTier) : List BlockHash := t.byAge.toList.map Prod.snd

/-- Every hash that came in was reloaded or dropped, or is still there. -/
structure Counted (t : HostTier) : Prop where
  offloads : t.offloads = t.reloads + t.dropped + t.used
  thrashes : t.thrashes ≤ t.reloads

variable {t u : HostTier} {a : BlockHash} {hs : List BlockHash}

theorem Sound.keyed (k : t.Sound) :
    Table.KeyedBy t.byAge fun a => (t.entries[a]?).map OffloadedBlock.stamp :=
  fun s a => (k.byAge_iff s a).trans Option.map_eq_some_iff.symm

theorem Sound.mem_ageOrder (k : t.Sound) (a : BlockHash) :
    a ∈ t.ageOrder ↔ t.contains a = true := by
  rw [ageOrder, k.keyed.mem_values, Option.isSome_map, contains,
    Std.ExtTreeMap.contains_eq_isSome_getElem?]

theorem Sound.nodup_ageOrder (k : t.Sound) : t.ageOrder.Nodup := k.keyed.nodup_values

theorem Sound.length_ageOrder (k : t.Sound) : t.ageOrder.length = t.used := by
  rw [used, ← Std.ExtTreeMap.length_keys]
  refine ((List.perm_ext_iff_of_nodup k.nodup_ageOrder Std.ExtTreeMap.nodup_keys).mpr
    fun a => ?_).length_eq
  rw [k.mem_ageOrder, Std.ExtTreeMap.mem_keys, contains, Std.ExtTreeMap.contains_iff_mem]

theorem Sound.byAge_le (k : t.Sound) {s : Nat} (inside : s ∈ t.byAge) : s ≤ t.stamp := by
  obtain ⟨a, listed⟩ := Option.isSome_iff_exists.mp
    (Std.ExtTreeMap.mem_iff_isSome_getElem?.mp inside)
  obtain ⟨e, found, stamp⟩ := (k.byAge_iff s a).mp listed
  exact stamp ▸ k.stamp_le a e found

theorem Sound.ageOrder_erase (k : t.Sound) {e : OffloadedBlock} (found : t.entries[a]? = some e)
    (byAge : u.byAge = t.byAge.erase e.stamp) : u.ageOrder = t.ageOrder.filter (· ≠ a) := by
  rw [ageOrder, byAge, k.keyed.values_erase (Option.map_eq_some_iff.mpr ⟨e, found, rfl⟩), ageOrder]

theorem Sound.ageOrder_absent (k : t.Sound) (absent : t.entries[a]? = none) :
    t.ageOrder.filter (· ≠ a) = t.ageOrder := by
  refine List.filter_eq_self.mpr fun b inside => decide_eq_true fun same => ?_
  obtain ⟨e, found⟩ := contains_iff.mp ((k.mem_ageOrder b).mp inside)
  exact Option.some_ne_none e (found.symm.trans (same ▸ absent))

theorem ageOrder_place (t : HostTier) (a : BlockHash) (now : Nat)
    (newest : ∀ s : Nat, s ∈ t.byAge → s < t.stamp) :
    (t.place a now).ageOrder = t.ageOrder ++ [a] := by
  have listed : (t.byAge.insert t.stamp a).toList = t.byAge.toList ++ [(t.stamp, a)] :=
    Table.toList_insert_last fun s inside => Nat.compare_eq_lt.mpr (newest s inside)
  rw [ageOrder, place, listed, List.map_append, ageOrder]
  rfl

/-- Hashes that leave a tier. What leaves makes room, and at most each of them is a thrash. -/
structure Leaves (t : HostTier) (hs : List BlockHash) (u : HostTier) : Prop where
  sound : u.Sound
  ageOrder : u.ageOrder = t.ageOrder.filter (· ∉ hs)
  capacity : u.capacity = t.capacity
  offloads : u.offloads = t.offloads
  reloads : u.reloads = t.reloads
  dropped : u.dropped = t.dropped
  used : u.used ≤ t.used
  thrashes : u.thrashes + u.used ≤ t.thrashes + t.used

theorem takeOut_leaves (k : t.Sound) (a : BlockHash) (now : Nat) :
    Leaves t [a] (t.takeOut a now) := by
  have single : t.ageOrder.filter (· ∉ [a]) = t.ageOrder.filter (· ≠ a) :=
    List.filter_congr fun b _ => by simp
  have sound := k.takeOut a now
  unfold takeOut at sound ⊢
  split at sound
  · next e found =>
    have size : (t.entries.erase a).size + 1 = t.entries.size := Table.size_erase_of_some found
    refine ⟨sound, single ▸ k.ageOrder_erase found rfl, rfl, rfl, rfl, rfl, ?_, ?_⟩
    · exact Nat.le_of_lt (Nat.lt_of_succ_le (Nat.le_of_eq size))
    · simp only [used]
      split <;> omega
  · next absent =>
    exact ⟨k, (single.trans (k.ageOrder_absent absent)).symm, rfl, rfl, rfl, rfl, Nat.le_refl _,
      Nat.le_refl _⟩

theorem takeOutAll_leaves (k : t.Sound) (hs : List BlockHash) (now : Nat) :
    Leaves t hs (hs.foldl (fun t a => t.takeOut a now) t) := by
  induction hs generalizing t with
  | nil =>
      exact ⟨k, (List.filter_eq_self.mpr fun _ _ => by simp).symm, rfl, rfl, rfl, rfl,
        Nat.le_refl _, Nat.le_refl _⟩
  | cons a rest ih =>
      have first := takeOut_leaves k a now
      have later := ih first.sound
      refine ⟨later.sound, ?_, later.capacity.trans first.capacity,
        later.offloads.trans first.offloads, later.reloads.trans first.reloads,
        later.dropped.trans first.dropped, Nat.le_trans later.used first.used,
        Nat.le_trans later.thrashes first.thrashes⟩
      rw [List.foldl_cons, later.ageOrder, first.ageOrder, List.filter_filter]
      refine List.filter_congr fun b _ => ?_
      simp [Bool.and_comm]

/-- A reload counts the hashes that have left. -/
theorem Leaves.counted (k : Leaves t hs u) (before : t.Counted) {v : HostTier}
    (offloads : v.offloads = u.offloads) (reloads : v.reloads = u.reloads + (t.used - u.used))
    (dropped : v.dropped = u.dropped) (used : v.used = u.used)
    (thrashes : v.thrashes = u.thrashes) : v.Counted where
  offloads := by
    have total := before.offloads
    have fewer := k.used
    rw [offloads, reloads, dropped, used, k.offloads, k.reloads, k.dropped]
    omega
  thrashes := by
    have total := before.thrashes
    have more := k.thrashes
    have fewer := k.used
    rw [thrashes, reloads, k.reloads]
    omega

/-- What a call leaves behind, with the hashes in the order that `remember` gives. -/
structure Remembers (t : HostTier) (call : TierCall) (u : HostTier) : Prop where
  sound : u.Sound
  capacity : u.capacity = t.capacity
  counted : t.Counted → u.Counted
  ageOrder : u.ageOrder = call.remember t.capacity t.ageOrder

theorem reload_remembers (k : t.Sound) (hs : List BlockHash) (now : Nat) :
    Remembers t (.reload hs now) (t.reload hs now).2 := by
  have out := takeOutAll_leaves k hs now
  have sound := (k.reload hs now).2
  unfold reload at sound ⊢
  dsimp only at sound ⊢
  split
  · next none =>
    refine ⟨out.sound, out.capacity, fun counted => out.counted counted rfl ?_ rfl rfl rfl,
      out.ageOrder⟩
    rw [none, Nat.add_zero]
  · next some =>
    rw [if_neg some] at sound
    exact ⟨sound, out.capacity, fun counted => out.counted counted rfl rfl rfl rfl rfl,
      out.ageOrder⟩

theorem Sound.dropOldest_front (k : t.Sound) (some : 0 < t.used) :
    t.dropOldest.ageOrder = t.ageOrder.drop 1 ∧ t.dropOldest.used + 1 = t.used ∧
      t.dropOldest.dropped = t.dropped + 1 ∧ t.dropOldest.capacity = t.capacity ∧
      t.dropOldest.offloads = t.offloads ∧ t.dropOldest.reloads = t.reloads ∧
      t.dropOldest.thrashes = t.thrashes := by
  have listed : 0 < t.byAge.size := by
    rw [← k.length_ageOrder, ageOrder, List.length_map, Std.ExtTreeMap.length_toList] at some
    exact some
  obtain ⟨s, a, oldest⟩ := Table.exists_minEntry? t.byAge listed
  obtain ⟨e, found, _⟩ := (k.byAge_iff s a).mp (Table.getElem?_of_minEntry? oldest)
  unfold HostTier.dropOldest
  rw [oldest]
  refine ⟨?_, Table.size_erase_of_some found, rfl, rfl, rfl, rfl, rfl⟩
  rw [ageOrder, ageOrder, Table.toList_of_minEntry? oldest]
  rfl

theorem refresh_remembers (k : t.Sound) {e : OffloadedBlock}
    (found : t.entries[a]? = some e) (now : Nat) :
    Remembers t (.offload a now)
      ({ t with stamp := t.stamp + 1, byAge := t.byAge.erase e.stamp }.place a now) := by
  have left := k.ageOrder_erase
    (u := { t with stamp := t.stamp + 1, byAge := t.byAge.erase e.stamp }) found rfl
  have order := ageOrder_place
    { t with stamp := t.stamp + 1, byAge := t.byAge.erase e.stamp } a now fun s inside =>
      Nat.lt_succ_of_le (k.byAge_le (Std.ExtTreeMap.mem_of_mem_erase inside))
  rw [left] at order
  have inside := (k.mem_ageOrder a).mpr (contains_iff.mpr ⟨e, found⟩)
  have shorter : (t.ageOrder.filter (· ≠ a)).length < t.ageOrder.length :=
    List.length_filter_lt_length_iff_exists.mpr ⟨a, inside, by simp⟩
  have same : (t.entries.insert a ⟨t.stamp + 1, now⟩).size = t.entries.size := by
    rw [Std.ExtTreeMap.size_insert, Std.ExtTreeMap.contains_eq_isSome_getElem?, found,
      Option.isSome_some, if_pos rfl]
  refine ⟨k.refresh found now, rfl, fun counted => ⟨?_, counted.thrashes⟩, ?_⟩
  · show t.offloads = t.reloads + t.dropped + (t.entries.insert a ⟨t.stamp + 1, now⟩).size
    rw [same]
    exact counted.offloads
  · have total := k.conserved
    have length := k.length_ageOrder
    rw [order, TierCall.remember, List.length_append, List.length_singleton, Nat.sub_eq_zero_of_le,
      List.drop_zero]
    omega

def stamped (t : HostTier) : HostTier := { t with stamp := t.stamp + 1 }

theorem offload_cases (t : HostTier) (a : BlockHash) (now : Nat) :
    t.capacity = 0 ∧ (t.offload a now).2 = t ∨
    t.capacity ≠ 0 ∧ ((∃ e, t.entries[a]? = some e ∧
        (t.offload a now).2 = { t.stamped with byAge := t.byAge.erase e.stamp }.place a now) ∨
      t.entries[a]? = none ∧ ∃ u, u = (if t.free = 0 then t.stamped.dropOldest else t.stamped) ∧
        (t.offload a now).2 =
          { u.place a now with free := u.free - 1, offloads := u.offloads + 1 }) := by
  unfold offload
  split
  · next none => exact .inl ⟨none, rfl⟩
  · next positive =>
    refine .inr ⟨positive, ?_⟩
    cases found : t.entries[a]? with
    | some e =>
        refine .inl ⟨e, rfl, ?_⟩
        simp only [found]
        rfl
    | none =>
        refine .inr ⟨rfl, _, rfl, ?_⟩
        simp only [found]
        rfl

/-- A tier on its way to take in a new hash: the front of the order is dropped if it is full. -/
structure Spares (t : HostTier) (u : HostTier) : Prop where
  sound : u.Sound
  stamp : u.stamp = t.stamp + 1
  entries : ∀ (b : BlockHash) (e : OffloadedBlock), u.entries[b]? = some e → t.entries[b]? = some e
  ageOrder : u.ageOrder = t.ageOrder.drop (t.used + 1 - t.capacity)
  capacity : u.capacity = t.capacity
  dropped : u.dropped + u.used = t.dropped + t.used
  offloads : u.offloads = t.offloads
  reloads : u.reloads = t.reloads
  thrashes : u.thrashes = t.thrashes

theorem makeRoom_spares (k : t.Sound) (positive : t.capacity ≠ 0)
    (hu : u = if t.free = 0 then t.stamped.dropOldest else t.stamped) : Spares t u := by
  have next : t.stamped.Sound := k.nextStamp.1
  have total := k.conserved
  split at hu
  · next full =>
    subst hu
    obtain ⟨sound, _, stamp, subset⟩ := next.dropOldest positive full
    obtain ⟨front, fewer, dropped, capacity, offloads, reloads, thrashes⟩ :=
      next.dropOldest_front (show 0 < t.used by omega)
    have fewer : t.stamped.dropOldest.used + 1 = t.used := fewer
    have dropped : t.stamped.dropOldest.dropped = t.dropped + 1 := dropped
    refine ⟨sound, stamp, subset, ?_, capacity, by omega, offloads, reloads, thrashes⟩
    rw [front, show t.used + 1 - t.capacity = 1 by omega]
    rfl
  · next room =>
    subst hu
    refine ⟨next, rfl, fun _ _ found => found, ?_, rfl, rfl, rfl, rfl, rfl⟩
    rw [show t.used + 1 - t.capacity = 0 by omega]
    rfl

theorem insert_remembers (k : t.Sound) (positive : t.capacity ≠ 0)
    (absent : t.entries[a]? = none) (spares : Spares t u)
    (now : Nat) {v : HostTier} (sound : v.Sound)
    (hv : v = { u.place a now with free := u.free - 1, offloads := u.offloads + 1 }) :
    Remembers t (.offload a now) v := by
  have absent' : u.entries[a]? = none := Option.eq_none_iff_forall_ne_some.mpr fun e found =>
    Option.some_ne_none e ((spares.entries a e found).symm.trans absent)
  have newest : ∀ s : Nat, s ∈ u.byAge → s < u.stamp := by
    intro s inside
    obtain ⟨b, listed⟩ := Option.isSome_iff_exists.mp
      (Std.ExtTreeMap.mem_iff_isSome_getElem?.mp inside)
    obtain ⟨e, found, rfl⟩ := (spares.sound.byAge_iff s b).mp listed
    exact spares.stamp ▸ Nat.lt_succ_of_le (k.stamp_le b e (spares.entries b e found))
  have order : v.ageOrder = u.ageOrder ++ [a] := hv ▸ ageOrder_place u a now newest
  have grown : v.used = u.used + 1 :=
    hv ▸ Table.size_insert_of_none (OffloadedBlock.mk u.stamp now) absent'
  have dropped := spares.dropped
  subst hv
  refine ⟨sound, spares.capacity, fun counted => ⟨?_, ?_⟩, ?_⟩
  · have total := counted.offloads
    rw [grown]
    show u.offloads + 1 = u.reloads + u.dropped + (u.used + 1)
    rw [spares.offloads, spares.reloads]
    omega
  · show u.thrashes ≤ u.reloads
    rw [spares.thrashes, spares.reloads]
    exact counted.thrashes
  · have length := k.length_ageOrder
    rw [order, spares.ageOrder, TierCall.remember, k.ageOrder_absent absent, List.length_append,
      List.length_singleton, length, List.drop_append_of_le_length]
    omega

theorem offload_remembers (k : t.Sound) (a : BlockHash) (now : Nat) :
    Remembers t (.offload a now) (t.offload a now).2 := by
  have sound := (k.offload a now).2
  rcases t.offload_cases a now with ⟨none, same⟩ | ⟨positive, ⟨e, found, same⟩ | ⟨absent, u, hu,
    same⟩⟩
  · have empty : t.ageOrder = [] := by
      rw [List.eq_nil_iff_length_eq_zero, k.length_ageOrder]
      have total := k.conserved
      omega
    refine ⟨sound, by rw [same], fun counted => same.symm ▸ counted, ?_⟩
    rw [same, TierCall.remember, none, Nat.sub_zero, List.drop_length, empty]
  · exact same ▸ refresh_remembers k found now
  · exact insert_remembers k positive absent (makeRoom_spares k positive hu) now sound same

theorem run_remembers (k : t.Sound) (call : TierCall) :
    (call.run t).1 = .ok () ∧ Remembers t call (call.run t).2 := by
  cases call with
  | offload a now => exact ⟨(k.offload a now).1, offload_remembers k a now⟩
  | reload hs now => exact ⟨(k.reload hs now).1, reload_remembers k hs now⟩

theorem after_remembers (k : t.Sound) (counted : t.Counted) (calls : List TierCall) :
    (t.after calls).Sound ∧ (t.after calls).Counted ∧ (t.after calls).capacity = t.capacity ∧
      (t.after calls).ageOrder = calls.foldl (TierCall.remember t.capacity) t.ageOrder := by
  induction calls generalizing t with
  | nil => exact ⟨k, counted, rfl, rfl⟩
  | cons call rest ih =>
      have first := (run_remembers k call).2
      obtain ⟨sound, later, capacity, order⟩ := ih first.sound (first.counted counted)
      refine ⟨sound, later, capacity.trans first.capacity, ?_⟩
      rw [List.foldl_cons, ← first.ageOrder, ← first.capacity]
      exact order

/-- What a tier says of itself, and what it remembers: the hashes in `kept`. -/
structure Conserves (t : HostTier) (kept : List BlockHash) : Prop where
  room : t.used + t.free = t.capacity
  byAge_iff : ∀ (s : Nat) (a : BlockHash),
    t.byAge[s]? = some a ↔ ∃ e : OffloadedBlock, t.entries[a]? = some e ∧ e.stamp = s
  distinct : ∀ (a b : BlockHash) (x y : OffloadedBlock), t.entries[a]? = some x →
    t.entries[b]? = some y → x.stamp = y.stamp → a = b
  counted : t.Counted
  resident : ∀ a : BlockHash, t.contains a = true ↔ a ∈ kept
  oldestFirst : t.ageOrder = kept

/-- After any calls on a new tier the next one succeeds, room and entries add up to the capacity,
the list by age has exactly the entries under stamps that are all different, and every offloaded
hash was reloaded or dropped or is there. Those that are there are the hashes that a list keeps
from which the one offloaded longest ago goes first. -/
theorem calls_conserve_entries (host : Nat) (config : HostTierConfig) (blockSize : Nat)
    (calls : List TierCall) :
    ((new host config blockSize).after calls).capacity = config.blocks ∧
      (∀ call : TierCall, (call.run ((new host config blockSize).after calls)).1 = .ok ()) ∧
      ((new host config blockSize).after calls).Conserves
        (calls.foldl (TierCall.remember config.blocks) []) := by
  have fresh : (new host config blockSize).Sound := sound_new host config blockSize
  obtain ⟨sound, counted, capacity, order⟩ := after_remembers fresh ⟨rfl, Nat.le_refl _⟩ calls
  refine ⟨capacity, fun call => (run_remembers sound call).1, sound.conserved, sound.byAge_iff,
    fun a b x y hx hy same => sound.eq_of_stamp hx hy same, counted, fun a => ?_, order⟩
  rw [← sound.mem_ageOrder a, order]
  rfl

end HostTier
end InferenceSim
