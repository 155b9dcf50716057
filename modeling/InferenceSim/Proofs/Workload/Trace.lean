import InferenceSim.Proofs.Document.Fields
import InferenceSim.Proofs.Document.Json
import InferenceSim.Proofs.Requests
import InferenceSim.Proofs.Text.Lines
import InferenceSim.Workload.Trace

/-! Recorded requests read back. What a record leaves out is what reading puts in its place, so
writing and reading undo one another for every request that the builders make; only the numbers
of the requests are given anew. -/
namespace InferenceSim

theorem SloClass.ofDocument?_toDocument (c : SloClass) :
    SloClass.ofDocument? c.toDocument = some c := by
  cases c <;> simp [SloClass.ofDocument?, SloClass.toDocument, Document.asChoice?, Document.asName?,
    SloClass.all, SloClass.name, Document.lookup_cons]

/-- A record whose counts fit into its fields. -/
structure TraceRecord.Fits (t : TraceRecord) : Prop where
  arrival : t.arrivalTime < 2 ^ 64
  input : t.inputTokens < 2 ^ 32
  output : t.outputTokens < 2 ^ 32
  group : ∀ n ∈ t.prefixGroup, n < 2 ^ 64
  shared : ∀ n ∈ t.prefixTokens, n < 2 ^ 32
  tenant : ∀ n ∈ t.tenant, n < 2 ^ 32

namespace TraceRecord
variable {t : TraceRecord}

theorem lookup_member {α : Type} (name other : String) (write : α → Document) (o : Option α) :
    (member name write o).lookup other = if other = name then o.map write else none := by
  cases o with
  | none => simp [member]
  | some a => exact Document.lookup_cons name other (write a) []

theorem member_names {α : Type} (name : String) (write : α → Document) (o : Option α) :
    ((member name write o).map (·.1)).Sublist [name] := by
  cases o with
  | none => exact List.nil_sublist _
  | some a => exact .refl _

theorem forall_member {α : Type} {name : String} {write : α → Document} {o : Option α}
    {p : Document → Prop} (each : ∀ a ∈ o, p (write a)) : ∀ m ∈ member name write o, p m.2 := by
  cases o with
  | none => exact List.forall_mem_nil _
  | some a => exact List.forall_mem_singleton.mpr (each a rfl)

theorem members_known (t : TraceRecord) : (t.toDocument.members.map (·.1)).Sublist
    ["ts", "prompt_tokens", "gen_tokens", "prefix_group", "prefix_len", "tenant", "slo_class"] := by
  simp only [toDocument, Document.members, List.map_append]
  exact ((((List.Sublist.refl ["ts", "prompt_tokens", "gen_tokens"]).append
    (member_names _ _ _)).append (member_names _ _ _)).append (member_names _ _ _)).append
    (member_names _ _ _)

theorem ofDocument?_toDocument (fits : t.Fits) : ofDocument? t.toDocument = some t := by
  obtain ⟨f, hf⟩ : ∃ f : Document.Fields,
    f = { found := t.toDocument.members, positional := false } := ⟨_, rfl⟩
  have fields : t.toDocument.fields? _ = some f :=
    hf ▸ Document.fields?_table t.members_known (by simp)
  have get : ∀ name, f.get? name = t.toDocument.members.lookup name := fun _ => hf ▸ rfl
  simp only [toDocument, Document.members, List.lookup_append, lookup_member, Document.lookup_cons,
    List.lookup_nil] at get
  have arrival : f.count 64 "ts" = some t.arrivalTime :=
    Document.count_found (by simp [get]) fits.arrival
  have input : f.count 32 "prompt_tokens" = some t.inputTokens :=
    Document.count_found (by simp [get]) fits.input
  have output : f.count 32 "gen_tokens" = some t.outputTokens :=
    Document.count_found (by simp [get]) fits.output
  have group : f.withDefault "prefix_group" (Document.asOption? (Document.asCount? 64)) none =
      some t.prefixGroup :=
    Document.withDefault_map (by simp [get]) rfl fun n hn => Document.asCount?_count (fits.group n hn)
  have shared : f.withDefault "prefix_len" (Document.asOption? (Document.asCount? 32)) none =
      some t.prefixTokens :=
    Document.withDefault_map (by simp [get]) rfl fun n hn => Document.asCount?_count (fits.shared n hn)
  have tenant : f.withDefault "tenant" (Document.asOption? (Document.asCount? 32)) none =
      some t.tenant :=
    Document.withDefault_map (by simp [get]) rfl fun n hn => Document.asCount?_count (fits.tenant n hn)
  have slo : f.withDefault "slo_class" (Document.asOption? SloClass.ofDocument?) none =
      some t.sloClass :=
    Document.withDefault_map (by simp [get]) rfl fun c _ => SloClass.ofDocument?_toDocument c
  simp only [ofDocument?, fields, arrival, input, output, group, shared, tenant, slo, bind,
    Option.bind]
  rfl

theorem exact_count {depth n : Nat} (narrow : n < 2 ^ 64) : Json.Exact depth (.count n) :=
  .integer (by omega) (by omega)

theorem toDocument_exact (fits : t.Fits) : Json.Exact Json.maxDepth t.toDocument := by
  have short : ∀ {n : Nat}, n < 2 ^ 32 → Json.Exact 126 (.count n) := fun narrow =>
    exact_count (Nat.lt_trans narrow (by decide))
  change Json.Exact (126 + 1) (.table t.toDocument.members)
  refine .table (fun m hm => ?_) ?_
  · have known := t.members_known.subset (List.mem_map_of_mem hm)
    generalize m.1 = name at known
    simp only [List.mem_cons, List.not_mem_nil, or_false] at known
    rcases known with rfl | rfl | rfl | rfl | rfl | rfl | rfl <;> simp [Json.isBare]
  · simp only [toDocument, Document.members, List.forall_mem_append, List.forall_mem_cons]
    refine ⟨⟨⟨⟨⟨exact_count fits.arrival, short fits.input, short fits.output,
      List.forall_mem_nil _⟩, ?_⟩, ?_⟩, ?_⟩, ?_⟩
    · exact forall_member fun n hn => exact_count (fits.group n hn)
    · exact forall_member fun n hn => short (fits.shared n hn)
    · exact forall_member fun n hn => short (fits.tenant n hn)
    · exact forall_member fun c _ => .text c.name

theorem toList_line (t : TraceRecord) : ∃ cs, t.line.toList = '\x7b' :: (cs ++ ['\x7d']) := by
  obtain ⟨cs, written⟩ := Json.write_table Decimal.json t.toDocument.members
  exact ⟨cs, by rw [line, Json.compact, String.toList_ofList]; exact written⟩

theorem trim_line (t : TraceRecord) :
    Text.trim t.line.toList = t.line.toList ∧ Trace.isSkipped t.line.toList = false := by
  obtain ⟨cs, braces⟩ := t.toList_line
  rw [braces]
  refine ⟨Text.trim_solid ?_ ?_, rfl⟩
  · rintro c ⟨⟩
    rfl
  · intro c last
    rw [← List.cons_append, List.getLast?_concat] at last
    obtain rfl := Option.some.inj last
    rfl

theorem readLine_line (fits : t.Fits) (prompt : 0 < t.inputTokens) (number : Nat) :
    Trace.readLine number t.line.toList = .ok t := by
  rw [Trace.readLine, String.ofList_toList, line, Json.parse?_compact (toDocument_exact fits)]
  simp only [Option.bind_some, ofDocument?_toDocument fits, Nat.ne_of_gt prompt, if_false]

end TraceRecord

namespace Trace

theorem readLines_written {ts : List TraceRecord} (fits : ∀ t ∈ ts, t.Fits)
    (prompts : ∀ t ∈ ts, 0 < t.inputTokens) (number : Nat) :
    readLines number ((ts.map fun t => some t.line.toList) ++ [some []]) = .ok ts := by
  induction ts generalizing number with
  | nil => rfl
  | cons t ts ih =>
      obtain ⟨own, others⟩ := List.forall_mem_cons.mp fits
      obtain ⟨prompt, prompts⟩ := List.forall_mem_cons.mp prompts
      obtain ⟨trimmed, kept⟩ := t.trim_line
      rw [List.map_cons, List.cons_append, readLines, trimmed, kept]
      simp only [TraceRecord.readLine_line own prompt, ih others prompts, bind, Except.bind]
      rfl

end Trace

/-- A request as the builders make it: a new one, which may be given a prefix, a tenant and a
class, in any order and more than once. -/
inductive Request.Built : Request → Prop
  | new (id : Nat) {arrivalTime inputTokens outputTokens : Nat} (arrival : arrivalTime < 2 ^ 64)
      (input : inputTokens < 2 ^ 32) (output : outputTokens < 2 ^ 32) :
      Built { id, arrivalTime, inputTokens, outputTokens }
  | withPrefix {r : Request} {group tokens : Nat} (built : Built r) (wide : group < 2 ^ 64)
      (narrow : tokens < 2 ^ 32) : Built (r.withPrefix group tokens)
  | withTenant {r : Request} {tenant : Nat} (built : Built r) (narrow : tenant < 2 ^ 32) :
      Built { r with tenant }
  | withSlo {r : Request} (built : Built r) (sloClass : SloClass) : Built { r with sloClass }

namespace Request.Built
variable {r : Request}

theorem fresh (built : r.Built) : r.Fresh := by
  induction built with
  | new => rfl
  | @withPrefix r group tokens _ _ _ ih => exact congrArg (·.withPrefix group tokens) ih
  | @withTenant r tenant _ _ ih => exact congrArg (fun s : Request => { s with tenant }) ih
  | @withSlo r _ sloClass ih => exact congrArg (fun s : Request => { s with sloClass }) ih

theorem fits (built : r.Built) : (TraceRecord.ofRequest r).Fits := by
  induction built with
  | new id arrival input output =>
      refine ⟨arrival, input, output, ?_, ?_, ?_⟩ <;> exact fun n none => nomatch none
  | withPrefix _ wide narrow ih =>
      refine { ih with group := ?_, shared := ?_ }
      · rintro n ⟨⟩
        exact wide
      · rintro n ⟨⟩
        exact Nat.lt_of_le_of_lt (Nat.min_le_left _ _) narrow
  | @withTenant r tenant _ narrow ih =>
      refine { ih with tenant := ?_ }
      intro n hn
      change n ∈ (if tenant = 0 then none else some tenant) at hn
      split at hn
      · cases hn
      · cases hn
        exact narrow
  | withSlo _ sloClass ih => exact { ih with }

theorem prefix_le (built : r.Built) : ∀ p ∈ r.shared, p.tokens ≤ r.inputTokens := by
  induction built with
  | new => exact fun p none => nomatch none
  | withPrefix _ _ _ ih =>
      rintro p ⟨⟩
      exact Nat.min_le_right _ _
  | withTenant _ _ ih => exact ih
  | withSlo _ _ ih => exact ih

theorem toRequest_ofRequest (built : r.Built) (id : Nat) :
    (TraceRecord.ofRequest r).toRequest id = { r with id } := by
  have tenant : (if r.tenant = 0 then none else some r.tenant).getD 0 = r.tenant := by
    split
    · next none => exact none.symm
    · rfl
  have whole : { r with id } = { r.origin with id } :=
    congrArg (fun s : Request => { s with id }) built.fresh
  rw [whole]
  cases shared : r.shared with
  | none =>
      simp only [TraceRecord.toRequest, TraceRecord.ofRequest, shared, tenant, origin]
      rfl
  | some p =>
      have cut : min p.tokens r.inputTokens = p.tokens := Nat.min_eq_left (built.prefix_le p shared)
      simp only [TraceRecord.toRequest, TraceRecord.ofRequest, shared, tenant, origin,
        Request.withPrefix, Option.map_some, Option.getD_some, cut]

end Request.Built

namespace Trace

/-- The same requests in order of arrival. Those that arrive together stay in the order that
they had. -/
structure Arranged (rs ss : List Request) : Prop where
  perm : ss.Perm rs
  ordered : ss.Pairwise fun r s => r.arrivalTime ≤ s.arrivalTime
  stable : ∀ time, ss.filter (·.arrivalTime = time) = rs.filter (·.arrivalTime = time)

def renumber (rs : List Request) : List Request := rs.mapIdx fun id r => { r with id }

variable {rs : List Request}

theorem arranged_mergeSort (rs : List Request) :
    Arranged rs (rs.mergeSort fun r s => r.arrivalTime ≤ s.arrivalTime) := by
  have trans : ∀ r s t : Request, decide (r.arrivalTime ≤ s.arrivalTime) →
      decide (s.arrivalTime ≤ t.arrivalTime) → decide (r.arrivalTime ≤ t.arrivalTime) := by
    simp only [decide_eq_true_eq]
    exact fun _ _ _ => Nat.le_trans
  have total : ∀ r s : Request,
      decide (r.arrivalTime ≤ s.arrivalTime) || decide (s.arrivalTime ≤ r.arrivalTime) := by
    simp only [Bool.or_eq_true, decide_eq_true_eq]
    exact fun _ _ => Nat.le_total _ _
  have perm := List.mergeSort_perm rs fun r s => decide (r.arrivalTime ≤ s.arrivalTime)
  refine ⟨perm, ?_, fun time => ?_⟩
  · exact (List.pairwise_mergeSort trans total rs).imp of_decide_eq_true
  · have together : (rs.filter (·.arrivalTime = time)).Pairwise
        fun r s => decide (r.arrivalTime ≤ s.arrivalTime) := by
      refine (List.pairwise_of_forall fun _ _ => trivial).imp_of_mem fun hr hs _ => ?_
      have first := of_decide_eq_true (List.mem_filter.mp hr).2
      have second := of_decide_eq_true (List.mem_filter.mp hs).2
      exact decide_eq_true (Nat.le_of_eq (first.trans second.symm))
    have part := (List.sublist_mergeSort trans total together List.filter_sublist).filter
      (·.arrivalTime = time)
    rw [List.filter_eq_self.mpr fun r hr => (List.mem_filter.mp hr).2] at part
    exact (part.eq_of_length (perm.filter _).length_eq.symm).symm

theorem linesOfBytes_toUTF8 (s : String) : linesOfBytes s.toUTF8 = linesOf s := by
  rw [linesOfBytes, Text.toList_toUTF8, Text.splitOn_bytes, List.map_map, linesOf]
  refine List.map_congr_left fun line _ => ?_
  rw [Function.comp, Text.fromUTF8?_bytes, Option.map_some, String.toList_ofList]

theorem parseBytes_toUTF8 (s : String) : parseBytes s.toUTF8 = parse s := by
  rw [parseBytes, linesOfBytes_toUTF8, parse]

theorem linesOf_write (built : ∀ r ∈ rs, r.Built) : linesOf (write rs) =
    (rs.map fun r => some (TraceRecord.ofRequest r).line.toList) ++ [some []] := by
  have text : (write rs).toList =
      (rs.map fun r => (TraceRecord.ofRequest r).line.toList).flatMap (· ++ ['\n']) := by
    simp [write, String.toList_join, List.flatMap_map]
  have single : ∀ l ∈ rs.map (fun r => (TraceRecord.ofRequest r).line.toList), ∀ c ∈ l,
      decide (c = '\n') = false := by
    intro l hl c hc
    obtain ⟨r, hr, rfl⟩ := List.mem_map.mp hl
    have printable := Json.compact_line (TraceRecord.toDocument_exact (built r hr).fits) c hc
    refine decide_eq_false ?_
    rintro rfl
    exact absurd printable (by decide)
  rw [linesOf, text, Text.splitAt_lines (decide_eq_true rfl) single, List.map_append, List.map_map]
  rfl

theorem requests_ofRequest (built : ∀ r ∈ rs, r.Built) : requests (rs.map TraceRecord.ofRequest) =
    renumber (rs.mergeSort fun r s => r.arrivalTime ≤ s.arrivalTime) := by
  have sorted : (rs.map TraceRecord.ofRequest).mergeSort
      (fun r s => r.arrivalTime ≤ s.arrivalTime) =
        (rs.mergeSort fun r s => r.arrivalTime ≤ s.arrivalTime).map TraceRecord.ofRequest := by
    refine (List.map_mergeSort ?_).symm
    exact fun _ _ _ _ => rfl
  rw [requests, renumber, sorted]
  refine List.ext_getElem? fun id => ?_
  rw [List.getElem?_mapIdx, List.getElem?_mapIdx, List.getElem?_map, Option.map_map]
  refine Option.map_congr fun r at' => ?_
  have inside : r ∈ rs := List.mem_mergeSort.mp (List.mem_of_getElem? at')
  exact (built r inside).toRequest_ofRequest id

theorem renumber_self (numbered : ∀ id r, rs[id]? = some r → Request.id r = id) :
    renumber rs = rs := by
  refine List.ext_getElem? fun id => ?_
  rw [renumber, List.getElem?_mapIdx]
  cases at' : rs[id]? with
  | none => rfl
  | some r =>
      obtain rfl := numbered id r at'
      rfl

theorem parse_write (built : ∀ r ∈ rs, r.Built) (prompts : ∀ r ∈ rs, 0 < r.inputTokens) :
    parse (write rs) =
      .ok (renumber (rs.mergeSort fun r s => r.arrivalTime ≤ s.arrivalTime)) := by
  have fits : ∀ t ∈ rs.map TraceRecord.ofRequest, t.Fits :=
    List.forall_mem_map.mpr fun r hr => (built r hr).fits
  have read := readLines_written fits (List.forall_mem_map.mpr prompts) 1
  rw [List.map_map] at read
  rw [parse, linesOf_write built]
  refine (congrArg (Except.map requests) read).trans ?_
  exact congrArg Except.ok (requests_ofRequest built)

/-- Requests that were written are read as the same requests, stably sorted by arrival and
numbered in that order. If they were so before, reading gives just the requests written. -/
theorem written_requests_reread (built : ∀ r ∈ rs, r.Built)
    (prompts : ∀ r ∈ rs, 0 < r.inputTokens) :
    (∃ ss, Arranged rs ss ∧ parseBytes (write rs).toUTF8 = .ok (renumber ss)) ∧
      ((rs.Pairwise fun r s => r.arrivalTime ≤ s.arrivalTime) →
        (∀ id r, rs[id]? = some r → Request.id r = id) →
        parseBytes (write rs).toUTF8 = .ok rs) := by
  rw [parseBytes_toUTF8, parse_write built prompts]
  refine ⟨⟨_, arranged_mergeSort rs, rfl⟩, fun sorted numbered => ?_⟩
  rw [List.mergeSort_of_pairwise (sorted.imp decide_eq_true), renumber_self numbered]

theorem pair_reread :
    parseBytes (write [
        Request.withPrefix
          { id := 0, arrivalTime := 3, inputTokens := 40, outputTokens := 5, tenant := 2 } 9 64,
        { id := 1, arrivalTime := 3, inputTokens := 7, outputTokens := 0, sloClass := .batch }]
          ).toUTF8 =
      .ok [
        Request.withPrefix
          { id := 0, arrivalTime := 3, inputTokens := 40, outputTokens := 5, tenant := 2 } 9 64,
        { id := 1, arrivalTime := 3, inputTokens := 7, outputTokens := 0, sloClass := .batch }] := by
  refine (written_requests_reread (List.forall_mem_cons.mpr ⟨?_, List.forall_mem_singleton.mpr ?_⟩)
    (by decide)).2 (by decide) ?_
  · exact .withPrefix (.withTenant (.new 0 (by decide) (by decide) (by decide)) (by decide))
      (by decide) (by decide)
  · exact .withSlo (.new 1 (by decide) (by decide) (by decide)) .batch
  · rintro (_ | _ | id) r at'
    · cases at'
      rfl
    · cases at'
      rfl
    · cases at'

end Trace
end InferenceSim
