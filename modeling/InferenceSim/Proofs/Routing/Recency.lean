import Mathlib.Data.List.DropRight
import Mathlib.Order.Bounds.Basic
import InferenceSim.Proofs.Routing.Affinity

/-! What the router's index remembers of an instance. The hashes that are there are the ones that
were recorded last, up to the capacity, whatever was recorded for other instances meanwhile. -/
namespace InferenceSim

section
variable {α : Type}

theorem rtake_append_of_le {capacity : Nat} {front back : List α} (le : capacity ≤ back.length) :
    (front ++ back).rtake capacity = back.rtake capacity := by
  rw [List.rtake, List.rtake, List.length_append, Nat.add_sub_assoc le,
    List.drop_length_add_append]

theorem length_takeWhile_isGreatest (p : α → Bool) (l : List α) :
    IsGreatest {n | ∃ front, front <+: l ∧ (∀ x ∈ front, p x) ∧ front.length = n}
      (l.takeWhile p).length := by
  constructor
  · exact ⟨_, List.takeWhile_prefix p, List.all_eq_true.mp List.all_takeWhile, rfl⟩
  · rintro n ⟨front, ⟨rest, rfl⟩, pass, rfl⟩
    rw [List.takeWhile_append_of_pos pass, List.length_append]
    exact Nat.le_add_right _ _

variable [DecidableEq α]

/-- The values that came last, each of them once, in the order of their last coming. -/
def latest (capacity : Nat) (l : List α) : List α := l.dedup.rtake capacity

example : latest 3 [1, 2, 3, 1, 4, 4] = [3, 1, 4] := by decide

theorem dedup_append_filter (a b : List α) :
    (a ++ b).dedup = a.dedup.filter (· ∉ b) ++ b.dedup := by
  induction a with
  | nil => rfl
  | cons x rest ih =>
      rw [List.cons_append, List.dedup_cons, List.dedup_cons, ih]
      by_cases again : x ∈ rest
      · rw [if_pos (List.mem_append_left b again), if_pos again]
      · rw [if_neg again]
        by_cases later : x ∈ b
        · rw [if_pos (List.mem_append_right rest later), List.filter_cons_of_neg (by simp [later])]
        · rw [if_neg (by simp [again, later]), List.filter_cons_of_pos (by simp [later])]
          rfl

theorem dedup_dedup_append (a b : List α) : (a.dedup ++ b).dedup = (a ++ b).dedup := by
  rw [dedup_append_filter, dedup_append_filter, List.dedup_idem]

theorem dedup_concat (a : List α) (x : α) : (a ++ [x]).dedup = a.dedup.filter (· ≠ x) ++ [x] := by
  rw [dedup_append_filter]
  refine congrArg (· ++ [x]) (List.filter_congr fun y _ => ?_)
  simp

theorem latest_nil (capacity : Nat) : latest capacity ([] : List α) = [] := by
  rw [latest, List.dedup_nil, List.rtake_nil]

theorem length_latest (capacity : Nat) (l : List α) :
    (latest capacity l).length = min capacity l.dedup.length := by
  rw [latest, List.rtake, List.length_drop]
  omega

theorem nodup_latest (capacity : Nat) (l : List α) : (latest capacity l).Nodup :=
  l.nodup_dedup.sublist (List.drop_sublist _ _)

theorem latest_append_filter (capacity : Nat) (a b : List α) :
    latest capacity (a ++ b) = (a.dedup.filter (· ∉ b) ++ b.dedup).rtake capacity :=
  congrArg (List.rtake · capacity) (dedup_append_filter a b)

theorem length_le_merged {l b : List α} (distinct : l.Nodup) :
    l.length ≤ (l.filter (· ∉ b) ++ b.dedup).length := by
  have again : (l.filter fun x => !decide (x ∉ b)).length ≤ b.dedup.length := by
    refine (List.subperm_of_subset (distinct.filter _) fun x inside => ?_).length_le
    simpa using (List.mem_filter.mp inside).2
  have split := l.length_eq_length_filter_add fun x => decide (x ∉ b)
  rw [List.length_append]
  omega

theorem latest_append (capacity : Nat) (a b : List α) :
    latest capacity (latest capacity a ++ b) = latest capacity (a ++ b) := by
  obtain ⟨old, split⟩ : ∃ old, a.dedup = old ++ latest capacity a :=
    ⟨_, (List.take_append_drop _ _).symm⟩
  have kept := length_latest capacity a
  have distinct := nodup_latest capacity a
  rw [latest_append_filter, latest_append_filter, distinct.dedup, split, List.filter_append,
    List.append_assoc]
  rcases Nat.lt_or_ge a.dedup.length capacity with fits | full
  · have none : old = [] := by
      rw [split, List.length_append] at fits kept
      exact List.eq_nil_of_length_eq_zero (by omega)
    rw [none]
    rfl
  · refine (rtake_append_of_le (Nat.le_trans ?_ (length_le_merged distinct))).symm
    omega

theorem mem_latest_append {capacity : Nat} {a b : List α} (fits : b.dedup.length ≤ capacity)
    {x : α} (inside : x ∈ b) : x ∈ latest capacity (a ++ b) := by
  rw [latest_append_filter, List.rtake, List.drop_append_of_le_length]
  · exact List.mem_append_right _ (List.mem_dedup.mpr inside)
  · rw [List.length_append]
    omega

end

namespace RecordedBlocks

/-- The tables are inverse to each other, and list the hashes in `kept` by age. No stamp is from
later on. -/
structure Tracks (b : RecordedBlocks) (stamp : Nat) (kept : List BlockHash) : Prop where
  inverse : Table.Inverse b.byAge b.lastUsed
  stamps : ∀ s : Nat, s ∈ b.byAge → s ≤ stamp
  oldestFirst : b.byAge.toList.map Prod.snd = kept

namespace Tracks
variable {b : RecordedBlocks} {stamp s : Nat} {kept : List BlockHash} {h : BlockHash}

theorem empty (stamp : Nat) : Tracks {} stamp [] := by
  refine ⟨fun s h => ?_, fun s inside => absurd inside Std.ExtTreeMap.not_mem_empty, rfl⟩
  simp

theorem keyed (k : b.Tracks stamp kept) : Table.KeyedBy b.byAge fun h => b.lastUsed[h]? :=
  k.inverse

theorem mem_iff (k : b.Tracks stamp kept) : h ∈ kept ↔ h ∈ b.lastUsed := by
  rw [← k.oldestFirst, k.keyed.mem_values, Std.ExtTreeMap.mem_iff_isSome_getElem?]

theorem nodup (k : b.Tracks stamp kept) : kept.Nodup := k.oldestFirst ▸ k.keyed.nodup_values

theorem size (k : b.Tracks stamp kept) : b.lastUsed.size = kept.length := by
  rw [← Std.ExtTreeMap.length_keys]
  refine ((List.perm_ext_iff_of_nodup Std.ExtTreeMap.nodup_keys k.nodup).mpr
    fun h => ?_).length_eq
  rw [Std.ExtTreeMap.mem_keys, k.mem_iff]

theorem later (k : b.Tracks stamp kept) {stamp' : Nat} (le : stamp ≤ stamp') :
    b.Tracks stamp' kept :=
  ⟨k.inverse, fun s inside => Nat.le_trans (k.stamps s inside) le, k.oldestFirst⟩

theorem forget (k : b.Tracks stamp kept) (found : b.lastUsed[h]? = some s) :
    Tracks ⟨b.lastUsed.erase h, b.byAge.erase s⟩ stamp (kept.filter (· ≠ h)) where
  inverse := k.inverse.erase found
  stamps := fun s inside => k.stamps s (Std.ExtTreeMap.mem_of_mem_erase inside)
  oldestFirst := k.oldestFirst ▸ k.keyed.values_erase found

theorem add (k : b.Tracks stamp kept) (absent : b.lastUsed[h]? = none) :
    Tracks ⟨b.lastUsed.insert h (stamp + 1), b.byAge.insert (stamp + 1) h⟩ (stamp + 1)
      (kept ++ [h]) := by
  have newest : ∀ s : Nat, s ∈ b.byAge → s < stamp + 1 :=
    fun s inside => Nat.lt_succ_of_le (k.stamps s inside)
  have free : b.byAge[stamp + 1]? = none :=
    Std.ExtTreeMap.getElem?_eq_none fun inside => Nat.lt_irrefl _ (newest _ inside)
  constructor
  case inverse => exact k.inverse.insert free absent
  case stamps =>
    intro s inside
    rcases Std.ExtTreeMap.mem_insert.mp inside with new | old
    · exact Nat.le_of_eq (Std.LawfulEqOrd.compare_eq_iff_eq.mp new).symm
    · exact Nat.le_of_lt (newest s old)
  case oldestFirst =>
    have listed : (b.byAge.insert (stamp + 1) h).toList = b.byAge.toList ++ [(stamp + 1, h)] :=
      Table.toList_insert_last fun s inside => Nat.compare_eq_lt.mpr (newest s inside)
    rw [listed, List.map_append, k.oldestFirst]
    rfl

/-- A hash that is recorded again moves to the end. -/
theorem touch (k : b.Tracks stamp kept) (h : BlockHash) :
    (b.touch h (stamp + 1)).Tracks (stamp + 1) (kept.filter (· ≠ h) ++ [h]) := by
  unfold RecordedBlocks.touch
  cases found : b.lastUsed[h]? with
  | none =>
      have others : kept.filter (· ≠ h) = kept := by
        refine List.filter_eq_self.mpr fun h' inside => decide_eq_true fun same => ?_
        rw [same, k.mem_iff, Std.ExtTreeMap.mem_iff_isSome_getElem?, found] at inside
        cases inside
      rw [others]
      exact k.add found
  | some old =>
      have moved := (k.forget found).add (h := h) Std.ExtTreeMap.getElem?_erase_self
      rw [Table.insert_erase] at moved
      exact moved

theorem touches (k : b.Tracks stamp kept) (hs : List BlockHash) :
    ∃ b', hs.foldl (fun (blocks, stamp) h => (RecordedBlocks.touch blocks h (stamp + 1), stamp + 1))
      (b, stamp) = (b', stamp + hs.length) ∧ b'.Tracks (stamp + hs.length) (kept ++ hs).dedup := by
  induction hs generalizing b stamp kept with
  | nil =>
      refine ⟨b, rfl, ?_⟩
      rw [List.append_nil, k.nodup.dedup]
      exact k
  | cons h rest ih =>
      obtain ⟨b', folded, tracks⟩ := ih (k.touch h)
      have count : stamp + 1 + rest.length = stamp + (h :: rest).length := by
        rw [List.length_cons, Nat.add_assoc, Nat.add_comm 1]
      rw [count] at folded tracks
      refine ⟨b', folded, ?_⟩
      have moved := dedup_concat kept h
      rw [k.nodup.dedup] at moved
      rw [← moved, dedup_dedup_append, List.append_assoc] at tracks
      exact tracks

theorem dropOldest (k : b.Tracks stamp kept) : b.dropOldest.Tracks stamp (kept.drop 1) := by
  have listed := k.oldestFirst
  unfold RecordedBlocks.dropOldest
  cases oldest : b.byAge.minEntry? with
  | none =>
      rw [Table.minEntry?_eq_head?_toList, List.head?_eq_none_iff] at oldest
      rw [oldest] at listed
      rw [← listed] at k ⊢
      exact k
  | some entry =>
      obtain ⟨s, h⟩ := entry
      have found := (k.inverse s h).mp (Table.getElem?_of_minEntry? oldest)
      refine ⟨k.inverse.erase found, (k.forget found).stamps, ?_⟩
      rw [Table.toList_of_minEntry? oldest] at listed
      rw [← listed]
      rfl

theorem drops (k : b.Tracks stamp kept) (n : Nat) :
    (Nat.repeat RecordedBlocks.dropOldest n b).Tracks stamp (kept.drop n) := by
  induction n with
  | zero => exact k
  | succ n ih =>
      rw [← List.drop_drop]
      exact ih.dropOldest

theorem trim (k : b.Tracks stamp kept) (capacity : Nat) :
    (b.trim capacity).Tracks stamp (kept.rtake capacity) := by
  rw [RecordedBlocks.trim, List.rtake, k.size]
  exact k.drops _

end Tracks
end RecordedBlocks

namespace PrefixIndex

/-- The index after recordings in order, each of hashes for an instance. -/
def after (index : PrefixIndex) (calls : List (List BlockHash × Nat)) : PrefixIndex :=
  calls.foldl (fun index call => index.record call.1 call.2) index

/-- The hashes that are recorded for an instance, one recording after the other. -/
def recordedFor (calls : List (List BlockHash × Nat)) (host : Nat) : List BlockHash :=
  (calls.filter fun call => call.2 = host).flatMap Prod.fst

/-- What is there of each instance is the latest of what was recorded for it. -/
def Remembers (index : PrefixIndex) (recorded : Nat → List BlockHash) : Prop :=
  ∀ host, RecordedBlocks.Tracks ((index.instances[host]?).getD {}) index.stamp
    (latest index.capacity (recorded host))

variable {index : PrefixIndex} {recorded : Nat → List BlockHash}

theorem remembers_new (blockSize capacity : Nat) :
    (new blockSize capacity).Remembers fun _ => [] := by
  intro host
  rw [new, Std.ExtTreeMap.getElem?_empty, latest_nil]
  exact .empty 0

/-- Recording hashes brings the latest ones of one instance up to date. -/
theorem Remembers.record (k : index.Remembers recorded) (hs : List BlockHash) (host : Nat) :
    (index.record hs host).Remembers fun i => recorded i ++ if host = i then hs else [] := by
  intro i
  obtain ⟨b, folded, tracks⟩ := (k host).touches hs
  simp only [PrefixIndex.record, folded, Std.ExtTreeMap.getElem?_insert,
    Std.LawfulEqOrd.compare_eq_iff_eq]
  by_cases same : host = i
  · subst same
    rw [if_pos rfl, if_pos rfl, Option.getD_some, ← latest_append]
    exact tracks.trim index.capacity
  · rw [if_neg same, if_neg same, List.append_nil]
    exact (k i).later (Nat.le_add_right _ _)

theorem capacity_after (index : PrefixIndex) (calls : List (List BlockHash × Nat)) :
    (index.after calls).capacity = index.capacity := by
  induction calls generalizing index with
  | nil => rfl
  | cons call rest ih => exact ih (index.record call.1 call.2)

theorem Remembers.after (k : index.Remembers recorded) (calls : List (List BlockHash × Nat)) :
    (index.after calls).Remembers fun i => recorded i ++ recordedFor calls i := by
  induction calls generalizing index recorded with
  | nil => simpa [PrefixIndex.after, recordedFor] using k
  | cons call rest ih =>
      have later := ih (k.record call.1 call.2)
      have split : ∀ i, recordedFor (call :: rest) i =
          (if call.2 = i then call.1 else []) ++ recordedFor rest i := by
        intro i
        unfold recordedFor
        rw [List.filter_cons]
        by_cases same : call.2 = i
        · simp [same]
        · simp [same]
      simp only [split, ← List.append_assoc]
      exact later

theorem matchLength_eq (index : PrefixIndex) (hs : List BlockHash) (host : Nat) :
    index.matchLength hs host = (hs.takeWhile fun h =>
      ((index.instances[host]?).getD {}).lastUsed.contains h).length := by
  unfold matchLength
  cases index.instances[host]? with
  | none => cases hs <;> simp
  | some b => rfl

/-- What an index answers of an instance if the hashes in `kept` are there, the oldest first. -/
structure Holds (index : PrefixIndex) (host : Nat) (kept : List BlockHash) : Prop where
  knows : ∀ h, index.Knows host h ↔ h ∈ kept
  size : index.sizeFor host = kept.length
  longest : ∀ hs, IsGreatest {n | ∃ front, front <+: hs ∧ (∀ h ∈ front, h ∈ kept) ∧
    front.length = n} (index.matchLength hs host)
  tables : ∀ b, index.instances[host]? = some b →
    (∀ (s : Nat) (h : BlockHash), b.byAge[s]? = some h ↔ b.lastUsed[h]? = some s) ∧
    b.byAge.toList.map Prod.snd = kept

theorem Remembers.holds (k : index.Remembers recorded) (host : Nat) :
    index.Holds host (latest index.capacity (recorded host)) := by
  have tracks := k host
  constructor
  case knows => exact fun h => knows_iff_getD.trans tracks.mem_iff.symm
  case size =>
    rw [← tracks.size, sizeFor]
    cases index.instances[host]? with
    | none => exact Std.ExtTreeMap.size_empty.symm
    | some b => rfl
  case longest =>
    intro hs
    have greatest := length_takeWhile_isGreatest
      (fun h => ((index.instances[host]?).getD {}).lastUsed.contains h) hs
    rw [matchLength_eq]
    simpa only [Std.ExtTreeMap.contains_iff_mem, ← tracks.mem_iff] using greatest
  case tables =>
    intro b found
    rw [found] at tracks
    exact ⟨tracks.inverse, tracks.oldestFirst⟩

/-- An index that forgets the hashes recorded longest ago, for each instance on its own. -/
structure ForgetsOldest (index : PrefixIndex) (capacity : Nat)
    (recorded : Nat → List BlockHash) : Prop where
  holds : ∀ host, index.Holds host (latest capacity (recorded host))
  bounded : ∀ host, index.sizeFor host ≤ capacity
  found : ∀ hs host, hs.dedup.length ≤ capacity →
    (index.record hs host).matchLength hs host = hs.length
  apart : ∀ hs host other, other ≠ host →
    (index.record hs host).sizeFor other = index.sizeFor other ∧
    ∀ hs', (index.record hs host).matchLength hs' other = index.matchLength hs' other

/-- After any recordings an index holds for every instance the latest of the hashes recorded for
it. -/
theorem recordings_keep_latest (blockSize capacity : Nat) (calls : List (List BlockHash × Nat)) :
    ((new blockSize capacity).after calls).ForgetsOldest (max capacity 1) (recordedFor calls) := by
  have k := (remembers_new blockSize capacity).after calls
  have size : ((new blockSize capacity).after calls).capacity = max capacity 1 :=
    capacity_after _ calls
  simp only [List.nil_append] at k
  rw [← size]
  constructor
  case holds => exact k.holds
  case bounded =>
    intro host
    rw [(k.holds host).size, length_latest]
    exact Nat.min_le_left _ _
  case found =>
    intro hs host fits
    have greatest := ((k.record hs host).holds host).longest hs
    refine greatest.unique ⟨⟨hs, List.prefix_rfl, fun h inside => ?_, rfl⟩, ?_⟩
    · rw [if_pos rfl]
      exact mem_latest_append fits inside
    · rintro n ⟨front, within, _, rfl⟩
      exact within.length_le
  case apart =>
    intro hs host other different
    have same : (((new blockSize capacity).after calls).record hs host).instances[other]? =
        ((new blockSize capacity).after calls).instances[other]? := by
      simp only [PrefixIndex.record, Std.ExtTreeMap.getElem?_insert,
        Std.LawfulEqOrd.compare_eq_iff_eq, if_neg different.symm]
    simp only [sizeFor, matchLength, same, implies_true, and_self]

end PrefixIndex
end InferenceSim
