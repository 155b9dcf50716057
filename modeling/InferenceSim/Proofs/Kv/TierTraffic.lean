import InferenceSim.Proofs.Kv.TierAccounts

/-! What goes in and out of the host tier. Taking in hashes may cost it others, which it counts
as dropped; a reload is charged for those that it still has. -/
namespace InferenceSim
namespace HostTier
variable {t u v : HostTier} {a : BlockHash} {xs ys hs : List BlockHash}

theorem contains_iff : t.contains a = true ↔ ∃ e, t.entries[a]? = some e := by
  rw [contains, Std.ExtTreeMap.contains_eq_isSome_getElem?, Option.isSome_iff_exists]

/-- What a reload is charged for is the same in two states, and so is its price. -/
structure Unbilled (t u : HostTier) : Prop where
  reloads : u.reloads = t.reloads
  pendingLatency : u.pendingLatency = t.pendingLatency
  price : u.transferLatency = t.transferLatency

theorem Unbilled.refl : Unbilled t t := ⟨rfl, rfl, rfl⟩

theorem Unbilled.trans (k : Unbilled t u) (l : Unbilled u v) : Unbilled t v :=
  ⟨l.reloads.trans k.reloads, l.pendingLatency.trans k.pendingLatency, l.price.trans k.price⟩

/-- A tier takes in the hashes of evicted blocks. What it loses of any others it counts as
dropped, and it drops nothing while there is room. -/
structure Receives (t : HostTier) (xs : List BlockHash) (u : HostTier) : Prop where
  unbilled : Unbilled t u
  contains : ∀ h, u.contains h = true → t.contains h = true ∨ h ∈ xs
  lost : ∀ hs : List BlockHash, hs.Nodup →
    hs.countP t.contains + t.dropped ≤ hs.countP u.contains + u.dropped
  dropped : u.dropped ≤ t.dropped + (xs.length - t.free)
  free : t.free ≤ u.free + xs.length

theorem Receives.nil : Receives t [] t where
  unbilled := .refl
  contains _ here := .inl here
  lost _ _ := Nat.le_refl _
  dropped := Nat.le_add_right _ _
  free := Nat.le_refl _

theorem Receives.append (k : Receives t xs u) (l : Receives u ys v) : Receives t (xs ++ ys) v where
  unbilled := k.unbilled.trans l.unbilled
  contains h here := by
    rcases l.contains h here with before | new
    · exact (k.contains h before).imp_right (List.mem_append_left ys)
    · exact .inr (List.mem_append_right xs new)
  lost hs nodup := Nat.le_trans (k.lost hs nodup) (l.lost hs nodup)
  dropped := by
    have first := k.dropped
    have second := l.dropped
    have room := k.free
    rw [List.length_append]
    omega
  free := by
    have first := k.free
    have second := l.free
    rw [List.length_append]
    omega

theorem contains_place (t : HostTier) (a h : BlockHash) (now : Nat) :
    (t.place a now).contains h = true ↔ h = a ∨ t.contains h = true := by
  rw [contains, place, Std.ExtTreeMap.contains_insert, Bool.or_eq_true, beq_iff_eq,
    Std.LawfulEqOrd.compare_eq_iff_eq, eq_comm, contains]

theorem countP_le_succ {p q : BlockHash → Bool} (nodup : hs.Nodup)
    (but : ∀ h, h ≠ a → p h = true → q h = true) : hs.countP p ≤ hs.countP q + 1 := by
  induction hs with
  | nil => exact Nat.zero_le _
  | cons h rest ih =>
      obtain ⟨apart, nodup⟩ := List.nodup_cons.mp nodup
      have upto := ih nodup
      by_cases here : h = a
      · have others : rest.countP p ≤ rest.countP q := by
          refine List.countP_mono_left fun x inside => but x fun same => ?_
          exact apart (here.trans same.symm ▸ inside)
        simp only [List.countP_cons]
        split <;> split <;> omega
      · have kept := but h here
        simp only [List.countP_cons]
        split
        · next old => rw [if_pos (kept old)]; omega
        · split <;> omega

theorem dropOldest_receives (t : HostTier) :
    Unbilled t t.dropOldest ∧ (∀ h, t.dropOldest.contains h = true → t.contains h = true) ∧
      (∀ hs : List BlockHash, hs.Nodup →
        hs.countP t.contains + t.dropped ≤ hs.countP t.dropOldest.contains + t.dropOldest.dropped) ∧
      t.dropOldest.dropped ≤ t.dropped + 1 := by
  unfold dropOldest
  split
  · next stamp a _ =>
    refine ⟨⟨rfl, rfl, rfl⟩, fun h here => ?_, fun hs nodup => ?_, Nat.le_refl _⟩
    · simp only [HostTier.contains, Std.ExtTreeMap.contains_erase, Bool.and_eq_true] at here
      exact here.2
    · have less := countP_le_succ (a := a) (p := t.contains) (q := HostTier.contains { t with
        byAge := t.byAge.erase stamp
        entries := t.entries.erase a
        free := t.free + 1
        dropped := t.dropped + 1 }) nodup fun h other here => by
          simpa [HostTier.contains, Std.ExtTreeMap.contains_erase, Ne.symm other] using here
      simp only
      omega
  · exact ⟨.refl, fun _ here => here, fun _ _ => Nat.le_refl _, Nat.le_succ _⟩

/-- One hash more at the newest place, in a tier that has room for it or has it already. -/
theorem Receives.place (unbilled : Unbilled t v)
    (contains : ∀ h, v.contains h = true ↔ h = a ∨ u.contains h = true)
    (before : ∀ h, u.contains h = true → t.contains h = true)
    (lost : ∀ hs : List BlockHash, hs.Nodup →
      hs.countP t.contains + t.dropped ≤ hs.countP u.contains + v.dropped)
    (dropped : v.dropped ≤ t.dropped + (1 - t.free)) (free : t.free ≤ v.free + 1) :
    Receives t [a] v where
  unbilled := unbilled
  contains h here := by
    rcases (contains h).mp here with rfl | old
    · exact .inr List.mem_cons_self
    · exact .inl (before h old)
  lost hs nodup := by
    refine Nat.le_trans (lost hs nodup) (Nat.add_le_add_right ?_ _)
    exact List.countP_mono_left fun h _ here => (contains h).mpr (.inr here)
  dropped := dropped
  free := free

theorem offload_receives (t : HostTier) (a : BlockHash) (now : Nat) :
    Receives t [a] (t.offload a now).2 := by
  unfold offload
  split
  · exact { Receives.nil with
      contains := fun _ here => .inl here
      dropped := Nat.le_add_right _ _
      free := Nat.le_succ _ }
  · dsimp only
    split
    · exact .place (u := t) ⟨rfl, rfl, rfl⟩ (fun h => contains_place _ a h now) (fun _ here => here)
        (fun _ _ => Nat.le_refl _) (Nat.le_add_right _ _) (Nat.le_succ _)
    · split
      · next full =>
        obtain ⟨unbilled, kept, lost, dropped⟩ := dropOldest_receives { t with stamp := t.stamp + 1 }
        refine .place (u := dropOldest { t with stamp := t.stamp + 1 }) ?_
          (fun h => contains_place _ a h now) kept lost ?_ ?_
        · exact ⟨unbilled.reloads, unbilled.pendingLatency, unbilled.price⟩
        · rw [show 1 - t.free = 1 from congrArg (1 - ·) full]
          exact dropped
        · exact Nat.le_trans (Nat.le_of_eq full) (Nat.zero_le _)
      · next room =>
        refine .place (u := t) ⟨rfl, rfl, rfl⟩ (fun h => contains_place _ a h now)
          (fun _ here => here) (fun _ _ => Nat.le_refl _) (Nat.le_add_right _ _) ?_
        show t.free ≤ t.free - 1 + 1
        omega

/-- A tier hands back those of some hashes that it has, and makes room for as many. -/
structure Returns (t : HostTier) (hs : List BlockHash) (u : HostTier) : Prop where
  contains : ∀ h, u.contains h = true ↔ t.contains h = true ∧ h ∉ hs
  moved : u.used + hs.countP t.contains = t.used
  free : t.free ≤ u.free
  dropped : u.dropped = t.dropped
  unbilled : Unbilled t u

theorem takeOut_returns (t : HostTier) (a : BlockHash) (now : Nat) :
    Returns t [a] (t.takeOut a now) := by
  unfold takeOut
  split
  · next e found =>
    have size := Table.size_erase_of_some found
    refine ⟨fun h => ?_, ?_, Nat.le_succ _, rfl, ⟨rfl, rfl, rfl⟩⟩
    · rw [HostTier.contains, Std.ExtTreeMap.contains_erase, List.mem_singleton, HostTier.contains,
        Bool.and_eq_true, and_comm, bne_iff_ne, ne_eq, Std.LawfulEqOrd.compare_eq_iff_eq,
        eq_comm (a := a)]
    · rw [List.countP_singleton, if_pos (contains_iff.mpr ⟨e, found⟩)]
      exact size
  · next absent =>
    have missing : ¬ t.contains a = true := fun here => by
      obtain ⟨e, found⟩ := contains_iff.mp here
      exact Option.some_ne_none e (found.symm.trans absent)
    refine ⟨fun h => ?_, ?_, Nat.le_refl _, rfl, .refl⟩
    · rw [List.mem_singleton]
      exact ⟨fun here => ⟨here, fun same => missing (same ▸ here)⟩, fun here => here.1⟩
    · rw [List.countP_singleton, if_neg missing]
      rfl

theorem takeOutAll_returns (nodup : hs.Nodup) (now : Nat) :
    Returns t hs (hs.foldl (fun t a => t.takeOut a now) t) := by
  induction hs generalizing t with
  | nil => exact ⟨fun h => by simp, rfl, Nat.le_refl _, rfl, .refl⟩
  | cons a rest ih =>
      obtain ⟨apart, nodup⟩ := List.nodup_cons.mp nodup
      have first := takeOut_returns t a now
      have later := ih (t := t.takeOut a now) nodup
      have same : rest.countP (t.takeOut a now).contains = rest.countP t.contains := by
        refine List.countP_congr fun h inside => (first.contains h).trans (and_iff_left ?_)
        exact fun here => apart (List.mem_singleton.mp here ▸ inside)
      have one := first.moved
      have more := later.moved
      rw [List.foldl_cons]
      refine ⟨fun h => ?_, ?_, Nat.le_trans first.free later.free,
        later.dropped.trans first.dropped, first.unbilled.trans later.unbilled⟩
      · rw [later.contains, first.contains, List.mem_singleton, List.mem_cons, not_or, and_assoc]
      · rw [List.countP_cons]
        rw [List.countP_singleton] at one
        omega

theorem reload_returns (nodup : hs.Nodup) (now : Nat) :
    (∀ h, (t.reload hs now).2.contains h = true ↔ t.contains h = true ∧ h ∉ hs) ∧
      (t.reload hs now).2.reloads = t.reloads + hs.countP t.contains ∧
      (t.reload hs now).2.pendingLatency =
        t.pendingLatency + t.transferLatency (hs.countP t.contains) ∧
      (t.reload hs now).2.dropped = t.dropped ∧ t.free ≤ (t.reload hs now).2.free := by
  have out := takeOutAll_returns (t := t) nodup now
  have moved : t.used - (hs.foldl (fun t a => t.takeOut a now) t).used = hs.countP t.contains := by
    have total := out.moved
    omega
  unfold reload
  dsimp only
  rw [moved]
  split
  · next none =>
    rw [none]
    exact ⟨out.contains, out.unbilled.reloads, out.unbilled.pendingLatency, out.dropped, out.free⟩
  · refine ⟨out.contains, ?_, ?_, out.dropped, out.free⟩
    · exact congrArg (· + _) out.unbilled.reloads
    · rw [out.unbilled.pendingLatency, out.unbilled.price]

/-- How an allocation is charged for hashes that it moves from a tier to the device. It is charged
for those that the tier still had when they were reloaded; any other one was dropped within the
allocation, by the evictions that made room for the reload. -/
structure Charged (t : HostTier) (hs : List BlockHash) (reloaded evicted : Nat) (u : HostTier) :
    Prop where
  count : reloaded = hs.length
  charged : ∃ paid : Nat, paid ≤ reloaded ∧ u.reloads = t.reloads + paid ∧
    u.pendingLatency = t.pendingLatency + t.transferLatency paid ∧
    reloaded + t.dropped ≤ paid + u.dropped
  /-- Nothing is dropped while the tier has room for what the allocation evicts. -/
  dropped : u.dropped ≤ t.dropped + (evicted - t.free)
  gone : ∀ h ∈ hs, u.contains h = false

theorem Charged.nothing : Charged t [] 0 0 t where
  count := rfl
  charged := ⟨0, Nat.le_refl _, rfl, rfl, Nat.le_refl _⟩
  dropped := Nat.le_add_right _ _
  gone := List.forall_mem_nil _

/-- Every hash is charged if there was room for the evicted ones. -/
theorem Charged.whole {reloaded evicted : Nat} (k : Charged t hs reloaded evicted u)
    (room : evicted ≤ t.free) : u.reloads = t.reloads + reloaded ∧
      u.pendingLatency = t.pendingLatency + t.transferLatency reloaded := by
  obtain ⟨paid, upto, reloads, latency, lost⟩ := k.charged
  have dropped := k.dropped
  obtain rfl : paid = reloaded := by omega
  exact ⟨reloads, latency⟩

theorem charged_of_reload {now : Nat} (nodup : hs.Nodup) (all : ∀ h ∈ hs, t.contains h = true)
    (first : t.Receives xs u) (last : (u.reload hs now).2.Receives ys v)
    (apart : ∀ h ∈ hs, h ∉ ys) : Charged t hs hs.length (xs.length + ys.length) v := by
  obtain ⟨contains, reloads, latency, dropped, free⟩ := reload_returns (t := u) nodup now
  have had : hs.countP t.contains = hs.length := List.countP_eq_length.mpr all
  have lost := first.lost hs nodup
  have later := last.lost [] List.nodup_nil
  refine ⟨rfl, ⟨hs.countP u.contains, List.countP_le_length, ?_, ?_, ?_⟩, ?_, fun h inside => ?_⟩
  · rw [last.unbilled.reloads, reloads, first.unbilled.reloads]
  · rw [last.unbilled.pendingLatency, latency, first.unbilled.pendingLatency, first.unbilled.price]
  · simp only [List.countP_nil] at later
    omega
  · have one := first.dropped
    have two := last.dropped
    have room := first.free
    omega
  · refine Bool.eq_false_iff.mpr fun here => ?_
    rcases last.contains h here with left | new
    · exact ((contains h).mp left).2 inside
    · exact apart h inside new

end HostTier
end InferenceSim
