import InferenceSim.Proofs.Batch.Rounds

/-! What the running requests hold. The blocks of a request back what its work in the batch will
have computed, or what it has computed so far if the batch has no work for it. -/
namespace InferenceSim
open KvCache

/-- The tokens that the blocks of a request back, if it holds any. -/
def KvCache.tokens? (c : KvCache) (id : Nat) : Option Nat := (c.held[id]?).map (·.tokens)

theorem KvCache.Sound.heldBy_ne_nil {c : KvCache} {id : Nat} (k : c.Sound) :
    c.heldBy id ≠ [] ↔ (c.tokens? id).isSome := by
  rw [heldBy_eq, tokens?, Option.isSome_map, Option.isSome_iff_ne_none]
  exact not_congr (List.isEmpty_iff.symm.trans k.holding_empty_iff)

/-- What is to be backed of a request while a batch is in flight. -/
structure Backs (works : List ScheduledWork) (r : Request) (tokens : Nat) : Prop where
  ahead : ∀ w ∈ works, w.request = r.id → tokens = w.progressAfter
  still : (∀ w ∈ works, w.request ≠ r.id) → tokens = r.progress

def Provided (works : List ScheduledWork) (rs : List Request) (kv : KvCache) : Prop :=
  ∀ r ∈ rs, ∃ n, kv.tokens? r.id = some n ∧ Backs works r n

def Spared (rs : List Request) (c d : KvCache) : Prop :=
  ∀ id, id ∉ rs.map (·.id) → d.tokens? id = c.tokens? id

/-- Only running requests hold blocks. -/
theorem Fitting.holder {spec : InstanceSpec} {running queue : List Request} {kv : KvCache}
    (k : Fitting spec running queue kv) {id : Nat} (own : kv.heldBy id ≠ []) :
    id ∈ running.map (·.id) := by
  have some := k.sound.heldBy_ne_nil.mp own
  rw [tokens?, Option.isSome_map] at some
  obtain ⟨h, held⟩ := Option.isSome_iff_exists.mp some
  obtain ⟨r, hr, same, _⟩ := k.held id h held
  exact List.mem_map.mpr ⟨r, hr, same⟩

theorem Fitting.unheld_queue {spec : InstanceSpec} {running queue : List Request} {kv : KvCache}
    (k : Fitting spec running queue kv) : ∀ r ∈ queue, kv.tokens? r.id = none := by
  intro r hr
  have nodup := k.nodup
  rw [List.map_append] at nodup
  refine Option.not_isSome_iff_eq_none.mp fun own => ?_
  have runs := k.holder (k.sound.heldBy_ne_nil.mpr own)
  exact (List.nodup_append.mp nodup).2.2 r.id runs r.id (List.mem_map_of_mem hr) rfl

namespace KvOp
variable {c d : KvCache} {request : Request} {m : PrefixMatch} {start stop needed available id : Nat}
  {a : Allocation}

theorem tokens_of_held (same : d.held[id]? = c.held[id]?) : d.tokens? id = c.tokens? id := by
  rw [tokens?, same, tokens?]

theorem allocate_backs (k : c.Sound) (matched : ∀ id ∈ deviceIds m.blocks, (c.hashAt id).isSome)
    (forward : start ≤ stop) (more : 0 < stop)
    (kept : ∀ n, c.tokens? request.id = some n → n ≤ stop)
    (cached : c.tokens? request.id = none → m.blocks.length * c.blockSize ≤ stop)
    (done : allocate request start stop m c = .ok a d) :
    d.Sound ∧ d.tokens? request.id = some stop ∧ Spared [request] c d := by
  obtain ⟨p, hp⟩ : ∃ p, p = c.plan request.id start stop m := ⟨_, rfl⟩
  have plan := k.plan_cases (r := request.id) start stop m
  rw [← hp] at plan
  have goal : p.goal = stop := by
    have below : p.base ≤ stop := by
      rcases plan with ⟨none, _, base, _⟩ | ⟨h, own, _, base, _⟩
      · rw [base]
        exact cached (by rw [tokens?, none]; rfl)
      · rw [base]
        exact kept _ (by rw [tokens?, own]; rfl)
    have goal : p.goal = max (max stop start) p.base := by rw [hp, plan_goal]
    omega
  rcases allocate_cases k hp matched with ⟨idle, attach, same⟩ | ⟨_, failed⟩ |
    ⟨_, b, e, same, allocated⟩
  · obtain ⟨_, rfl⟩ := EStateM.Result.ok.inj (done.symm.trans same)
    refine ⟨k, ?_, fun _ _ => rfl⟩
    rcases plan with ⟨_, attach', base, _⟩ | ⟨h, own, _, base, _⟩
    · rw [← attach', attach, List.length_nil, Nat.zero_mul] at base
      omega
    · rw [tokens?, own, ← goal, idle, base]
      rfl
  · cases done.symm.trans failed
  · obtain ⟨_, rfl⟩ := EStateM.Result.ok.inj (done.symm.trans same)
    obtain ⟨blocks, _, own, _⟩ := allocated.own
    refine ⟨allocated.sound, ?_, fun q other => ?_⟩
    · rw [tokens?, own, ← goal]
      rfl
    · exact tokens_of_held (allocated.others q fun same => other (List.mem_singleton.mpr same))

theorem allocate_exhausted (k : c.Sound)
    (matched : ∀ id ∈ deviceIds m.blocks, (c.hashAt id).isSome)
    (failed : allocate request start stop m c = .error (.exhausted needed available) d) :
    d = c := by
  rcases allocate_cases k (Eq.refl (c.plan request.id start stop m)) matched with
    ⟨_, _, same⟩ | ⟨_, same⟩ | ⟨_, b, e, same, _⟩
  · cases failed.symm.trans same
  · exact (EStateM.Result.error.inj (failed.symm.trans same)).2
  · cases failed.symm.trans same

theorem released_of_releasing (k : c.Sound) (done : c.releasing id = .ok d) : Released c id d := by
  obtain ⟨e, same, released⟩ := releasing_ok k id
  rw [Except.ok.inj (done.symm.trans same)]
  exact released

theorem Released.spared {r : Request} (released : Released c r.id d) : Spared [r] c d := by
  intro q other
  refine tokens_of_held ?_
  have other : r.id ≠ q := fun same => other (List.mem_singleton.mpr same.symm)
  rw [released.held, Std.ExtTreeMap.getElem?_erase]
  simp only [Std.LawfulEqOrd.compare_eq_iff_eq, other, if_false]

end KvOp

namespace Backs
variable {works more : List ScheduledWork} {w : ScheduledWork} {r s : Request} {n : Nat}

theorem idle (r : Request) : Backs [] r r.progress := ⟨List.forall_mem_nil _, fun _ => rfl⟩

theorem of_idle (k : Backs [] r n) : n = r.progress := k.still (List.forall_mem_nil _)

theorem own (same : w.request = r.id) (others : ∀ v ∈ works, v.request ≠ r.id) :
    Backs (w :: works) r w.progressAfter where
  ahead v hv own := by
    rcases List.mem_cons.mp hv with rfl | later
    · rfl
    · exact absurd own (others v later)
  still none := absurd same (none w List.mem_cons_self)

theorem other (k : Backs works r n) (other : w.request ≠ r.id) : Backs (w :: works) r n where
  ahead v hv own := by
    rcases List.mem_cons.mp hv with rfl | later
    · exact absurd own other
    · exact k.ahead v later own
  still none := k.still fun v hv => none v (List.mem_cons_of_mem w hv)

theorem append (k : Backs works r n) (others : ∀ v ∈ more, v.request ≠ r.id) :
    Backs (works ++ more) r n where
  ahead v hv own := by
    rcases List.mem_append.mp hv with first | last
    · exact k.ahead v first own
    · exact absurd own (others v last)
  still none := k.still fun v hv => none v (List.mem_append_left more hv)

theorem prepend (k : Backs works r n) (others : ∀ v ∈ more, v.request ≠ r.id) :
    Backs (more ++ works) r n where
  ahead v hv own := by
    rcases List.mem_append.mp hv with first | last
    · exact absurd own (others v first)
    · exact k.ahead v last own
  still none := k.still fun v hv => none v (List.mem_append_right more hv)

/-- A request changes in what has nothing to do with its blocks. -/
theorem congr (k : Backs works r n) (id : s.id = r.id) (progress : s.progress = r.progress) :
    Backs works s n where
  ahead w hw own := k.ahead w hw (own.trans id)
  still none := (k.still fun w hw => id ▸ none w hw).trans progress.symm

/-- Once the work of a batch is done, a request has computed what is backed of it. -/
theorem advanced_progress (k : Backs works r n) (single : (works.map (·.request)).Nodup)
    (now : Nat) : (advanced now works r).progress = n := by
  by_cases some : ∃ w ∈ works, w.request = r.id
  · obtain ⟨w, hw, own⟩ := some
    rw [advanced_work single hw own, Request.advance_progress]
    exact (k.ahead w hw own).symm
  · have none : ∀ w ∈ works, w.request ≠ r.id := fun w hw own => some ⟨w, hw, own⟩
    rw [advanced_none none]
    exact (k.still none).symm

end Backs

namespace Spared
variable {c d e : KvCache} {rs ss ts : List Request}

theorem refl : Spared rs c c := fun _ _ => rfl

theorem widen (k : Spared rs c d) (sub : ∀ r ∈ rs, r ∈ ts) : Spared ts c d :=
  fun id none => k id fun listed => none (List.map_subset _ sub listed)

theorem trans (k : Spared rs c d) (l : Spared ss d e) (first : ∀ r ∈ rs, r ∈ ts)
    (second : ∀ r ∈ ss, r ∈ ts) : Spared ts c e := by
  intro id none
  rw [l.widen second id none, k.widen first id none]

theorem cons {r : Request} (k : Spared [r] c d) (l : Spared rs d e) : Spared (r :: rs) c e :=
  k.trans l (fun _ hs => List.mem_singleton.mp hs ▸ List.mem_cons_self)
    fun _ hs => List.mem_cons_of_mem r hs

/-- What one request does is not noticed by the others. -/
theorem levels {r : Request} {f : Request → Option Nat} (k : Spared [r] c d)
    (new : r.id ∉ rs.map (·.id)) (level : ∀ s ∈ r :: rs, c.tokens? s.id = f s) :
    ∀ s ∈ rs, d.tokens? s.id = f s := by
  intro s hs
  rw [k s.id fun listed => ?_]
  · exact level s (List.mem_cons_of_mem r hs)
  · exact new (List.mem_map.mpr ⟨s, hs, List.mem_singleton.mp listed⟩)

end Spared

theorem WorksFor.none {rs : List Request} {works : List ScheduledWork} {r : Request}
    (k : WorksFor rs works) (apart : r.id ∉ rs.map (·.id)) : ∀ w ∈ works, w.request ≠ r.id := by
  intro w hw same
  obtain ⟨s, hs, named, _⟩ := k w hw
  exact apart (List.mem_map.mpr ⟨s, hs, named.symm.trans same⟩)

theorem provided_idle {rs : List Request} {kv : KvCache} :
    Provided [] rs kv ↔ ∀ r ∈ rs, kv.tokens? r.id = some r.progress := by
  refine ⟨fun k r hr => ?_, fun k r hr => ⟨r.progress, k r hr, .idle r⟩⟩
  obtain ⟨n, own, backs⟩ := k r hr
  rw [own, backs.of_idle]

namespace Provided
variable {works more : List ScheduledWork} {w : ScheduledWork} {r : Request} {rs ss : List Request}
  {c d : KvCache}

theorem work (k : Provided works rs c) (own : c.tokens? r.id = some w.progressAfter)
    (named : w.request = r.id) (none : ∀ v ∈ works, v.request ≠ r.id)
    (apart : r.id ∉ rs.map (·.id)) : Provided (w :: works) (r :: rs) c := by
  intro s hs
  rcases List.mem_cons.mp hs with rfl | later
  · exact ⟨w.progressAfter, own, .own named none⟩
  · obtain ⟨n, holds, backs⟩ := k s later
    refine ⟨n, holds, backs.other fun same => apart ?_⟩
    exact List.mem_map.mpr ⟨s, later, same.symm.trans named⟩

theorem append (k : Provided works rs c) (l : Provided more ss c) (own : WorksFor rs works)
    (own' : WorksFor ss more) (apart : ∀ r ∈ rs, ∀ s ∈ ss, r.id ≠ s.id) :
    Provided (works ++ more) (rs ++ ss) c := by
  intro r hr
  rcases List.mem_append.mp hr with first | last
  · obtain ⟨n, holds, backs⟩ := k r first
    refine ⟨n, holds, backs.append (own'.none fun listed => ?_)⟩
    obtain ⟨s, hs, same⟩ := List.mem_map.mp listed
    exact apart r first s hs same.symm
  · obtain ⟨n, holds, backs⟩ := l r last
    refine ⟨n, holds, backs.prepend (own.none fun listed => ?_)⟩
    obtain ⟨s, hs, same⟩ := List.mem_map.mp listed
    exact apart s hs r last same

theorem spare (k : Provided works rs c) (spared : Spared ss c d)
    (apart : ∀ r ∈ rs, r.id ∉ ss.map (·.id)) : Provided works rs d := by
  intro r hr
  obtain ⟨n, own, backs⟩ := k r hr
  exact ⟨n, (spared r.id (apart r hr)).trans own, backs⟩

theorem congr {f : Request → Request} (k : Provided works rs c) (held : d.held = c.held)
    (id : ∀ r, (f r).id = r.id) (progress : ∀ r, (f r).progress = r.progress) :
    Provided works (rs.map f) d := by
  intro s hs
  obtain ⟨r, hr, rfl⟩ := List.mem_map.mp hs
  obtain ⟨n, own, backs⟩ := k r hr
  refine ⟨n, ?_, backs.congr (id r) (progress r)⟩
  rw [id, tokens?, held]
  exact own

end Provided

section
variable {limits : BatchLimits} {rule : SchedulerRule} {budget running now : Nat}
  {todo queue : List Request} {kv : KvCache} {k : Continued} {a : Admitted} {s t : BatchState}
  {o : BatchOutcome}

/-- What the rounds of continuing some requests have made of what these hold. -/
structure Carried (todo : List Request) (kv : KvCache) (k : Continued) : Prop where
  sound : k.kv.Sound
  works : ∀ w ∈ k.scheduled, k.kv.tokens? w.request = some w.progressAfter
  still : ∀ r ∈ k.running, (∀ w ∈ k.scheduled, w.request ≠ r.id) →
    k.kv.tokens? r.id = kv.tokens? r.id
  gone : ∀ id ∈ k.preempted, k.kv.tokens? id = none
  spared : Spared todo kv k.kv

theorem Continues.carries (c : Continues limits budget todo queue kv k) (sound : kv.Sound)
    (nodup : (todo.map (·.id)).Nodup)
    (level : ∀ r ∈ todo, ∀ n, kv.tokens? r.id = some n → n ≤ r.progress) : Carried todo kv k := by
  induction c with
  | idle => exact ⟨sound, List.forall_mem_nil _, fun _ _ _ => rfl, List.forall_mem_nil _, .refl⟩
  | @pass _ r rest _ _ k left waits more ih =>
      obtain ⟨new, nodup⟩ := List.nodup_cons.mp nodup
      have carried := ih sound nodup fun s hs => level s (List.mem_cons_of_mem r hs)
      refine ⟨carried.sound, carried.works, fun s hs none => ?_, carried.gone,
        carried.spared.widen fun s hs => List.mem_cons_of_mem r hs⟩
      rcases List.mem_cons.mp hs with rfl | later
      · exact carried.spared s.id new
      · exact carried.still s later none
  | @work _ tokens r rest _ kv d _ k left going allocated more ih =>
      obtain ⟨new, nodup⟩ := List.nodup_cons.mp nodup
      obtain ⟨sound, now, alone⟩ := KvOp.allocate_backs sound (List.forall_mem_nil _)
        (Nat.le_add_right _ _) (Nat.add_pos_right _ (continuation_reaches left going).1)
        (fun n held => Nat.le_trans (level r List.mem_cons_self n held) (Nat.le_add_right _ _))
        (fun _ => by simp) allocated
      have same : ∀ s ∈ rest, d.tokens? s.id = kv.tokens? s.id := by
        intro s hs
        refine alone s.id fun listed => new (List.mem_map.mpr ⟨s, hs, ?_⟩)
        exact List.mem_singleton.mp listed
      have carried := ih sound nodup fun s hs n held =>
        level s (List.mem_cons_of_mem r hs) n ((same s hs).symm.trans held)
      refine ⟨carried.sound, List.forall_mem_cons.mpr ⟨?_, carried.works⟩, fun s hs none => ?_,
        carried.gone, alone.cons carried.spared⟩
      · exact (carried.spared r.id new).trans now
      · obtain ⟨other, none⟩ := List.forall_mem_cons.mp none
        rcases List.mem_cons.mp hs with rfl | later
        · exact absurd rfl other
        · exact (carried.still s later none).trans (same s (more.running_mem s later))
  | @preempt _ _ _ _ r last rest first _ kv d e k left going failed split gone more ih =>
      obtain rfl := KvOp.allocate_exhausted sound (List.forall_mem_nil _) failed
      have released := KvOp.released_of_releasing sound gone
      rw [split, List.map_append] at nodup
      obtain ⟨nodup, _, apart⟩ := List.nodup_append.mp nodup
      have inside : ∀ s ∈ first, s ∈ r :: rest := fun s hs => split ▸ List.mem_append_left _ hs
      have same : ∀ s ∈ first, e.tokens? s.id = d.tokens? s.id := by
        intro s hs
        refine released.spared s.id fun listed => ?_
        exact apart s.id (List.mem_map_of_mem hs) last.id List.mem_cons_self
          (List.mem_singleton.mp listed)
      have carried := ih released.sound nodup fun s hs n held =>
        level s (inside s hs) n ((same s hs).symm.trans held)
      have lost : k.kv.tokens? last.id = none := by
        rw [carried.spared last.id fun listed => apart _ listed _ List.mem_cons_self rfl, tokens?,
          released.held, Std.ExtTreeMap.getElem?_erase_self]
        rfl
      refine ⟨carried.sound, carried.works, fun s hs none => ?_,
        List.forall_mem_cons.mpr ⟨lost, carried.gone⟩,
        released.spared.trans carried.spared ?_ inside⟩
      · exact (carried.still s hs none).trans (same s (more.running_mem s hs))
      · intro s hs
        rw [split, List.mem_singleton.mp hs]
        exact List.mem_append_right _ List.mem_cons_self

theorem Continues.provides (c : Continues limits budget todo queue kv k) (sound : kv.Sound)
    (nodup : (todo.map (·.id)).Nodup) (level : ∀ r ∈ todo, kv.tokens? r.id = some r.progress) :
    k.kv.Sound ∧ Provided k.scheduled k.running k.kv ∧ Spared todo kv k.kv := by
  have carried := c.carries sound nodup fun r hr n held =>
    Nat.le_of_eq (Option.some.inj (held.symm.trans (level r hr)))
  refine ⟨carried.sound, fun r hr => ?_, carried.spared⟩
  by_cases works : ∃ w ∈ k.scheduled, w.request = r.id
  · obtain ⟨w, hw, own⟩ := works
    have holds := carried.works w hw
    refine ⟨w.progressAfter, own ▸ holds, fun v hv own' => ?_, fun none => absurd own (none w hw)⟩
    have holds' := carried.works v hv
    rw [own', ← own] at holds'
    exact Option.some.inj (holds.symm.trans holds')
  · have none : ∀ w ∈ k.scheduled, w.request ≠ r.id := fun w hw own => works ⟨w, hw, own⟩
    refine ⟨r.progress, (carried.still r hr none).trans (level r (c.running_mem r hr)), ?_⟩
    exact ⟨fun w hw own => absurd own (none w hw), fun _ => rfl⟩

/-- While running requests go on, nothing is held for those that wait. -/
theorem Continues.unheld (c : Continues limits budget todo queue kv k) (sound : kv.Sound)
    {waits : List Request} (nodup : ((todo ++ waits).map (·.id)).Nodup)
    (level : ∀ r ∈ todo, kv.tokens? r.id = some r.progress)
    (unheld : ∀ r ∈ waits, kv.tokens? r.id = none) : ∀ r ∈ waits, k.kv.tokens? r.id = none := by
  rw [List.map_append] at nodup
  obtain ⟨first, _, apart⟩ := List.nodup_append.mp nodup
  obtain ⟨_, _, spared⟩ := c.provides sound first level
  intro r hr
  rw [spared r.id fun listed => ?_]
  · exact unheld r hr
  · exact apart r.id listed r.id (List.mem_map_of_mem hr) rfl

theorem Enters.provides (c : Enters limits now queue running budget kv a) (sound : kv.Sound)
    (nodup : (queue.map (·.id)).Nodup) (unheld : ∀ r ∈ queue, kv.tokens? r.id = none) :
    a.kv.Sound ∧ Provided a.scheduled a.entered a.kv ∧ Spared queue kv a.kv := by
  induction c with
  | stop => exact ⟨sound, List.forall_mem_nil _, .refl⟩
  | @full head _ _ _ _ _ _ _ kv _ failed =>
      obtain rfl := KvOp.allocate_exhausted sound
        (KvOp.matchHashes_indexed sound.consistent _) failed
      exact ⟨sound, List.forall_mem_nil _, .refl⟩
  | @enter head r rest _ _ start tokens kv d _ k room begins going allocated entered more ih =>
      obtain ⟨new, nodup⟩ := List.nodup_cons.mp nodup
      have own := unheld head List.mem_cons_self
      have cached : (kv.lookup head).blocks.length * kv.blockSize ≤ start :=
        begins ▸ Nat.le_max_right _ _
      obtain ⟨sound, now, alone⟩ := KvOp.allocate_backs sound
        (KvOp.matchHashes_indexed sound.consistent _) (Nat.le_add_right _ _)
        (Nat.add_pos_right _ (entry_reaches room.2 begins going).1)
        (fun n held => by cases own.symm.trans held)
        (fun _ => Nat.le_trans cached (Nat.le_add_right _ _)) allocated
      obtain ⟨sound, provided, spared⟩ := ih sound nodup (alone.levels new unheld)
      obtain ⟨_, _, rfl⟩ := enterBatch_inv entered
      have apart : head.id ∉ k.entered.map (·.id) := fun listed => new (more.entered_ids listed)
      refine ⟨sound, provided.work ?_ rfl (more.works.none apart) apart, alone.cons spared⟩
      rw [spared head.id new]
      exact now

/-- After a batch was formed each running request holds what its work will have computed. -/
theorem Forms.provides (c : Forms limits rule now s o t) (sound : s.kv.Sound)
    (nodup : ((s.running ++ s.queue).map (·.id)).Nodup)
    (level : ∀ r ∈ s.running, s.kv.tokens? r.id = some r.progress)
    (unheld : ∀ r ∈ s.queue, s.kv.tokens? r.id = none) :
    Provided o.scheduled t.running t.kv := by
  have whole := nodup
  rw [List.map_append] at nodup
  obtain ⟨first, last, apart⟩ := List.nodup_append.mp nodup
  cases c with
  | tight continued some => exact (continued.provides sound first level).2.1
  | @calm k a continued none entered =>
      have unheld' := continued.unheld sound whole level unheld
      obtain ⟨sound, provided, _⟩ := continued.provides sound first level
      rw [continued.calm none] at entered
      have sorted : ((rule.sort Request.view s.queue).map (·.id)).Nodup :=
        ((List.mergeSort_perm _ _).map _).nodup_iff.mpr last
      obtain ⟨_, provided', spared'⟩ := entered.provides sound sorted fun r hr =>
        unheld' r (mem_sort.mp hr)
      have apart' : ∀ r ∈ k.running, r.id ∉ (rule.sort Request.view s.queue).map (·.id) := by
        intro r hr listed
        obtain ⟨q, hq, same⟩ := List.mem_map.mp listed
        exact apart r.id (List.mem_map_of_mem (continued.running_mem r hr)) q.id
          (List.mem_map_of_mem (mem_sort.mp hq)) same.symm
      refine (provided.spare spared' apart').append provided' continued.works entered.works ?_
      intro r hr s' hs same
      exact apart' r hr (same ▸ entered.entered_ids (List.mem_map_of_mem hs))

theorem Continues.tier_of_idle (c : Continues limits budget todo queue kv k) (sound : kv.Sound)
    (idle : k.scheduled = []) : k.kv.Sound ∧ k.kv.tier = kv.tier := by
  induction c with
  | idle => exact ⟨sound, rfl⟩
  | pass left waits more ih => exact ih sound idle
  | work => cases idle
  | preempt left going failed split gone more ih =>
      obtain rfl := KvOp.allocate_exhausted sound (List.forall_mem_nil _) failed
      have released := KvOp.released_of_releasing sound gone
      obtain ⟨sound, tier⟩ := ih released.sound idle
      exact ⟨sound, tier.trans released.tier⟩

theorem Enters.tier_of_idle (c : Enters limits now queue running budget kv a) (sound : kv.Sound)
    (idle : a.scheduled = []) : a.kv.tier = kv.tier := by
  cases c with
  | stop => rfl
  | full failed =>
      rw [KvOp.allocate_exhausted sound (KvOp.matchHashes_indexed sound.consistent _) failed]
  | enter => cases idle

theorem Forms.tier_of_idle (c : Forms limits rule now s o t) (sound : s.kv.Sound)
    (idle : o.scheduled = []) : t.kv.tier = s.kv.tier := by
  cases c with
  | calm continued none entered =>
      obtain ⟨before, after⟩ := List.append_eq_nil_iff.mp idle
      obtain ⟨sound, tier⟩ := continued.tier_of_idle sound before
      exact (entered.tier_of_idle sound after).trans tier
  | tight continued some => exact (continued.tier_of_idle sound idle).2

/-- The requests that go on after a step keep what they hold. -/
theorem Settles.provides {settled : Instance.Settled} (c : Settles now todo kv settled)
    (sound : kv.Sound) (nodup : (todo.map (·.id)).Nodup)
    (level : ∀ r ∈ todo, kv.tokens? r.id = some r.progress) :
    (∀ r ∈ settled.running, r ∈ todo ∧ settled.kv.tokens? r.id = some r.progress) ∧
      settled.kv.tier = kv.tier ∧ Spared todo kv settled.kv := by
  induction c with
  | nil => exact ⟨List.forall_mem_nil _, rfl, .refl⟩
  | @done r _ _ _ _ reached gone more ih =>
      obtain ⟨new, nodup⟩ := List.nodup_cons.mp nodup
      have released := KvOp.released_of_releasing sound gone
      obtain ⟨stays, tier, spared⟩ := ih released.sound nodup (released.spared.levels new level)
      exact ⟨fun s hs => ⟨List.mem_cons_of_mem r (stays s hs).1, (stays s hs).2⟩,
        tier.trans released.tier, released.spared.cons spared⟩
  | @leave r _ _ _ _ _ unfinished past target gone more ih =>
      obtain ⟨new, nodup⟩ := List.nodup_cons.mp nodup
      have released := KvOp.released_of_releasing sound gone
      obtain ⟨stays, tier, spared⟩ := ih released.sound nodup (released.spared.levels new level)
      exact ⟨fun s hs => ⟨List.mem_cons_of_mem r (stays s hs).1, (stays s hs).2⟩,
        tier.trans released.tier, released.spared.cons spared⟩
  | @stay r _ _ _ unfinished stays more ih =>
      obtain ⟨new, nodup⟩ := List.nodup_cons.mp nodup
      obtain ⟨stays, tier, spared⟩ :=
        ih sound nodup fun s hs => level s (List.mem_cons_of_mem r hs)
      refine ⟨fun s hs => ?_, tier, spared.widen fun s hs => List.mem_cons_of_mem r hs⟩
      rcases List.mem_cons.mp hs with rfl | later
      · exact ⟨List.mem_cons_self, (spared s.id new).trans (level s List.mem_cons_self)⟩
      · exact ⟨List.mem_cons_of_mem r (stays s later).1, (stays s later).2⟩

end
end InferenceSim
