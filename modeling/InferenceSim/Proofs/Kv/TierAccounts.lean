import InferenceSim.Kv.HostTier
import InferenceSim.Proofs.Tables

/-! The accounts of the host tier: room and entries add up to the capacity, and the
list by age names exactly the entries. No operation on such a tier fails. -/
namespace InferenceSim
namespace HostTier

/-- Entries and room make up the capacity, and the entries are listed by their stamps,
none of them newer than the tier's own. -/
structure Sound (t : HostTier) : Prop where
  conserved : t.used + t.free = t.capacity
  byAge_iff : ∀ (s : Nat) (a : BlockHash),
    t.byAge[s]? = some a ↔ ∃ e : OffloadedBlock, t.entries[a]? = some e ∧ e.stamp = s
  stamp_le : ∀ (a : BlockHash) (e : OffloadedBlock), t.entries[a]? = some e → e.stamp ≤ t.stamp

theorem Sound.check {t : HostTier} (h : t.Sound) : t.check = .ok () := if_pos h.conserved

theorem sound_new (host : Nat) (config : HostTierConfig) (blockSize : Nat) :
    (new host config blockSize).Sound where
  conserved := by simp [new, used]
  byAge_iff := by simp [new]
  stamp_le := by simp [new]

theorem Sound.takePendingLatency {t : HostTier} (h : t.Sound) : t.takePendingLatency.2.Sound :=
  ⟨h.conserved, h.byAge_iff, h.stamp_le⟩

theorem Sound.eq_of_stamp {t : HostTier} (h : t.Sound) {a b : BlockHash} {x y : OffloadedBlock}
    (hx : t.entries[a]? = some x) (hy : t.entries[b]? = some y) (same : x.stamp = y.stamp) :
    a = b := by
  have first := (h.byAge_iff x.stamp a).mpr ⟨x, hx, rfl⟩
  have second := (h.byAge_iff x.stamp b).mpr ⟨y, hy, same.symm⟩
  exact Option.some.inj (first.symm.trans second)

/-- Taking one entry out makes room for one. -/
theorem Sound.erase {t t' : HostTier} {a : BlockHash} {x : OffloadedBlock} (h : t.Sound)
    (hx : t.entries[a]? = some x) (entries : t'.entries = t.entries.erase a)
    (byAge : t'.byAge = t.byAge.erase x.stamp) (free : t'.free = t.free + 1)
    (capacity : t'.capacity = t.capacity) (stamp : t'.stamp = t.stamp) : t'.Sound where
  conserved := by
    have size := Table.size_erase_of_some hx
    have total := h.conserved
    simp only [used] at total ⊢
    rw [entries, free, capacity]
    omega
  byAge_iff s b := by
    rw [byAge, entries, Std.ExtTreeMap.getElem?_erase, Std.ExtTreeMap.getElem?_erase]
    simp only [Std.LawfulEqOrd.compare_eq_iff_eq]
    by_cases age : x.stamp = s
    · subst age
      simp only [if_true, reduceCtorEq, false_iff]
      rintro ⟨y, hy, same⟩
      split at hy
      · exact absurd hy (Option.some_ne_none y).symm
      · next other => exact other (h.eq_of_stamp hx hy same.symm)
    · by_cases same : a = b
      · subst same
        simp only [age, if_false, if_true]
        rw [h.byAge_iff]
        simp [hx, age]
      · simp only [age, same, if_false]
        exact h.byAge_iff s b
  stamp_le b y hy := by
    rw [entries, Std.ExtTreeMap.getElem?_erase] at hy
    rw [stamp]
    split at hy
    · exact absurd hy (Option.some_ne_none y).symm
    · exact h.stamp_le b y hy

theorem Sound.takeOut {t : HostTier} (h : t.Sound) (a : BlockHash) (now : Nat) :
    (t.takeOut a now).Sound := by
  unfold HostTier.takeOut
  split
  · next x hx => exact h.erase hx rfl rfl rfl rfl rfl
  · exact h

theorem Sound.takeOutAll {t : HostTier} (h : t.Sound) (hs : List BlockHash) (now : Nat) :
    (hs.foldl (fun t a => t.takeOut a now) t).Sound := by
  induction hs generalizing t with
  | nil => exact h
  | cons a rest ih => exact ih (h.takeOut a now)

theorem Sound.reload {t : HostTier} (h : t.Sound) (hs : List BlockHash) (now : Nat) :
    (t.reload hs now).1 = .ok () ∧ (t.reload hs now).2.Sound := by
  have out := h.takeOutAll hs now
  have sound : (t.reload hs now).2.Sound := by
    unfold HostTier.reload
    dsimp only
    split
    · exact out
    · exact ⟨out.conserved, out.byAge_iff, out.stamp_le⟩
  exact ⟨sound.check, sound⟩

/-- A tier without room forgets a hash and has room for one. -/
theorem Sound.dropOldest {t : HostTier} (h : t.Sound) (positive : t.capacity ≠ 0)
    (full : t.free = 0) :
    t.dropOldest.Sound ∧ t.dropOldest.free ≠ 0 ∧ t.dropOldest.stamp = t.stamp ∧
      ∀ (b : BlockHash) (y : OffloadedBlock),
        t.dropOldest.entries[b]? = some y → t.entries[b]? = some y := by
  have some_entry : 0 < t.entries.size := by
    have total := h.conserved
    simp only [used] at total
    omega
  obtain ⟨a, x, least⟩ := Table.exists_minEntry? t.entries some_entry
  have listed := (h.byAge_iff x.stamp a).mpr ⟨x, Table.getElem?_of_minEntry? least, rfl⟩
  have some_age : 0 < t.byAge.size := by
    rw [← Std.ExtTreeMap.length_toList]
    exact List.length_pos_of_mem (Std.ExtTreeMap.mem_toList_iff_getElem?_eq_some.mpr listed)
  obtain ⟨s, b, oldest⟩ := Table.exists_minEntry? t.byAge some_age
  obtain ⟨y, hy, stamp⟩ := (h.byAge_iff s b).mp (Table.getElem?_of_minEntry? oldest)
  unfold HostTier.dropOldest
  rw [oldest]
  refine ⟨h.erase hy rfl (stamp ▸ rfl) rfl rfl rfl, Nat.succ_ne_zero _, rfl, ?_⟩
  intro b' y' hy'
  dsimp only at hy'
  rw [Std.ExtTreeMap.getElem?_erase] at hy'
  split at hy'
  · exact absurd hy' (Option.some_ne_none y').symm
  · exact hy'

/-- A hash that is not there takes the place that the tier's own stamp marks, if no
entry has that stamp. -/
theorem Sound.place {t : HostTier} (h : t.Sound) {a : BlockHash} (absent : t.entries[a]? = none)
    (room : t.free ≠ 0)
    (unused : ∀ (b : BlockHash) (y : OffloadedBlock), t.entries[b]? = some y → y.stamp < t.stamp)
    (now offloads : Nat) :
    Sound { t.place a now with free := t.free - 1, offloads } where
  conserved := by
    have size := Table.size_insert_of_none (OffloadedBlock.mk t.stamp now) absent
    have total := h.conserved
    simp only [used, HostTier.place] at total ⊢
    omega
  byAge_iff s b := by
    simp only [HostTier.place]
    rw [Std.ExtTreeMap.getElem?_insert, Std.ExtTreeMap.getElem?_insert]
    simp only [Std.LawfulEqOrd.compare_eq_iff_eq]
    by_cases age : t.stamp = s
    · subst age
      simp only [if_true, Option.some.injEq]
      constructor
      · rintro rfl
        exact ⟨_, if_pos rfl, rfl⟩
      · rintro ⟨y, hy, same⟩
        split at hy
        · assumption
        · exact absurd same (Nat.ne_of_lt (unused b y hy))
    · by_cases same : a = b
      · subst same
        simp only [age, if_false, if_true, h.byAge_iff, absent]
        simp [age]
      · simp only [age, same, if_false]
        exact h.byAge_iff s b
  stamp_le b y hy := by
    simp only [HostTier.place] at hy ⊢
    rw [Std.ExtTreeMap.getElem?_insert] at hy
    split at hy
    · simp only [Option.some.injEq] at hy
      exact hy ▸ Nat.le_refl _
    · exact h.stamp_le b y hy

theorem Sound.nextStamp {t : HostTier} (h : t.Sound) :
    Sound { t with stamp := t.stamp + 1 } ∧
      ∀ (b : BlockHash) (y : OffloadedBlock), t.entries[b]? = some y → y.stamp < t.stamp + 1 :=
  ⟨⟨h.conserved, h.byAge_iff, fun b y hy => Nat.le_succ_of_le (h.stamp_le b y hy)⟩,
    fun b y hy => Nat.lt_succ_of_le (h.stamp_le b y hy)⟩

/-- A hash that is there already moves to the newest place. -/
theorem Sound.refresh {t : HostTier} (h : t.Sound) {a : BlockHash} {x : OffloadedBlock}
    (hx : t.entries[a]? = some x) (now : Nat) :
    Sound ({ t with stamp := t.stamp + 1, byAge := t.byAge.erase x.stamp }.place a now) := by
  obtain ⟨next, unused⟩ := h.nextStamp
  let left : HostTier := { t with
    stamp := t.stamp + 1
    byAge := t.byAge.erase x.stamp
    entries := t.entries.erase a
    free := t.free + 1 }
  have sound : left.Sound := next.erase hx rfl rfl rfl rfl rfl
  have placed := sound.place Std.ExtTreeMap.getElem?_erase_self (Nat.succ_ne_zero _)
    (fun b y hy => by
      rw [Std.ExtTreeMap.getElem?_erase] at hy
      split at hy
      · exact absurd hy (Option.some_ne_none y).symm
      · exact unused b y hy) now t.offloads
  have same : ∀ e : OffloadedBlock, (t.entries.erase a).insert a e = t.entries.insert a e := by
    intro e
    apply Std.ExtTreeMap.ext_getElem?
    intro b
    simp only [Std.ExtTreeMap.getElem?_insert, Std.ExtTreeMap.getElem?_erase]
    split <;> rfl
  simpa only [HostTier.place, left, same, Nat.add_sub_cancel] using placed

theorem Sound.offload {t : HostTier} (h : t.Sound) (a : BlockHash) (now : Nat) :
    (t.offload a now).1 = .ok () ∧ (t.offload a now).2.Sound := by
  obtain ⟨next, unused⟩ := h.nextStamp
  unfold HostTier.offload
  split
  · exact ⟨rfl, h⟩
  · next positive =>
    dsimp only
    split
    · next x hx => exact ⟨rfl, h.refresh hx now⟩
    · next absent =>
      refine (fun (sound : HostTier.Sound _) => ⟨sound.check, sound⟩) ?_
      split
      · next full =>
        obtain ⟨dropped, room, stamp, subset⟩ := next.dropOldest positive full
        refine dropped.place ?_ room (fun b y hy => stamp ▸ unused b y (subset b y hy)) now _
        refine Option.eq_none_iff_forall_ne_some.mpr fun y hy => ?_
        exact Option.some_ne_none y ((subset a y hy).symm.trans absent)
      · next room => exact next.place absent room unused now _

end HostTier
end InferenceSim
