import InferenceSim.Proofs.Workload.Trace
import Mathlib.Data.List.Forall2

/-! Reading recorded requests line by line. The first line that counts and holds no request decides
the error, under its place among all lines. If there is none, every line that counts gives one
request, and these are sorted stably by arrival and numbered in that order. -/
namespace InferenceSim

/-- A request as a record asks for it: the prefix is cut to the prompt, and what the record leaves
out has its default. -/
structure TraceRecord.Asks (t : TraceRecord) (r : Request) : Prop where
  arrival : r.arrivalTime = t.arrivalTime
  input : r.inputTokens = t.inputTokens
  output : r.outputTokens = t.outputTokens
  tenant : r.tenant = t.tenant.getD 0
  sloClass : r.sloClass = t.sloClass.getD .standard
  shared : r.shared =
    t.prefixGroup.map fun group => { group, tokens := min (t.prefixTokens.getD 0) t.inputTokens }
  fresh : r.Fresh

namespace TraceRecord

theorem asks_toRequest (t : TraceRecord) (id : Nat) : t.Asks (t.toRequest id) := by
  cases found : t.prefixGroup with
  | none =>
      simp only [toRequest, found]
      exact ⟨rfl, rfl, rfl, rfl, rfl, by rw [found]; rfl, rfl⟩
  | some group =>
      simp only [toRequest, found]
      exact ⟨rfl, rfl, rfl, rfl, rfl, by rw [found]; rfl, rfl⟩

theorem toRequest_id (t : TraceRecord) (id : Nat) : t.toRequest id = { t.toRequest 0 with id } := by
  unfold toRequest
  cases t.prefixGroup with
  | none => rfl
  | some group => rfl

end TraceRecord

namespace Trace

def Counts (line : List Char) : Prop :=
  Text.trim line ≠ [] ∧ (Text.trim line).head? ≠ some '#'

instance (line : List Char) : Decidable (Counts line) := inferInstanceAs (Decidable (_ ∧ _))

def record? (line : List Char) : Option TraceRecord :=
  (Json.parse? (String.ofList (Text.trim line))).bind TraceRecord.ofDocument?

def Sound (line : List Char) : Prop := ∃ t ∈ record? line, 0 < t.inputTokens

instance (line : List Char) : Decidable (Sound line) :=
  inferInstanceAs (Decidable (∃ t ∈ record? line, 0 < t.inputTokens))

/-- What is wrong with a line that holds no request, under its number. -/
inductive Wrong (line : List Char) (number : Nat) : TraceError → Prop
  | malformed (none : record? line = none) : Wrong line number (.malformed number)
  | emptyPrompt {t : TraceRecord} (found : record? line = some t) (empty : t.inputTokens = 0) :
      Wrong line number (.emptyPrompt number)

/-- What is wrong with the first line that counts and holds no request. The lines are numbered from
one, and those that do not count have a number too. -/
def FirstWrong (lines : List (List Char)) (e : TraceError) : Prop :=
  ∃ before line after, lines = before ++ line :: after ∧
    (∀ l ∈ before, Counts l → Sound l) ∧ Counts line ∧ Wrong line (before.length + 1) e

variable {line : List Char} {lines : List (List Char)} {number : Nat} {e : TraceError}

theorem isSkipped_iff (line : List Char) : isSkipped (Text.trim line) ↔ ¬Counts line := by
  rw [isSkipped, Counts, Bool.or_eq_true, List.isEmpty_iff, decide_eq_true_iff, ne_eq, ne_eq,
    ← not_or, not_not]

theorem exists_wrong (unsound : ¬Sound line) (number : Nat) : ∃ e, Wrong line number e := by
  cases found : record? line with
  | none => exact ⟨_, .malformed found⟩
  | some t =>
      have empty : t.inputTokens = 0 :=
        Nat.eq_zero_of_not_pos fun prompt => unsound ⟨t, found, prompt⟩
      exact ⟨_, .emptyPrompt found empty⟩

theorem readLine_wrong (wrong : Wrong line number e) :
    readLine number (Text.trim line) = .error e := by
  cases wrong with
  | malformed none =>
      rw [record?] at none
      rw [readLine, none]
  | emptyPrompt found empty =>
      rw [record?] at found
      rw [readLine, found]
      exact if_pos empty

theorem readLine_sound {t : TraceRecord} (found : record? line = some t)
    (prompt : 0 < t.inputTokens) : readLine number (Text.trim line) = .ok t := by
  rw [record?] at found
  rw [readLine, found]
  exact if_neg (Nat.ne_of_gt prompt)

theorem readLines_skipped (skipped : ¬Counts line) (rest : List (Option (List Char))) :
    readLines number (some line :: rest) = readLines (number + 1) rest := by
  rw [readLines]
  exact if_pos ((isSkipped_iff line).mpr skipped)

theorem readLines_counts (counts : Counts line) (rest : List (Option (List Char))) :
    readLines number (some line :: rest) = do
      let t ← readLine number (Text.trim line)
      let ts ← readLines (number + 1) rest
      return t :: ts := by
  rw [readLines]
  exact if_neg fun skipped => (isSkipped_iff line).mp skipped counts

theorem readLines_sound (sound : ∀ l ∈ lines, Counts l → Sound l) (number : Nat) :
    ∃ ts, List.Forall₂ (fun l t => record? l = some t) (lines.filter Counts) ts ∧
      readLines number (lines.map some) = .ok ts := by
  induction lines generalizing number with
  | nil => exact ⟨[], .nil, rfl⟩
  | cons line rest ih =>
      obtain ⟨own, others⟩ := List.forall_mem_cons.mp sound
      obtain ⟨ts, records, later⟩ := ih others (number + 1)
      rw [List.map_cons]
      by_cases counts : Counts line
      · obtain ⟨t, found, prompt⟩ := own counts
        refine ⟨t :: ts, ?_, ?_⟩
        · rw [List.filter_cons_of_pos (by simpa using counts)]
          exact .cons found records
        · rw [readLines_counts counts, readLine_sound found prompt, later]
          rfl
      · refine ⟨ts, ?_, ?_⟩
        · rw [List.filter_cons_of_neg (by simpa using counts)]
          exact records
        · rw [readLines_skipped counts, later]

theorem readLines_wrong {before after : List (List Char)} (number : Nat)
    (sound : ∀ l ∈ before, Counts l → Sound l) (counts : Counts line)
    (wrong : Wrong line (number + before.length) e) :
    readLines number ((before ++ line :: after).map some) = .error e := by
  induction before generalizing number with
  | nil =>
      rw [List.length_nil, Nat.add_zero] at wrong
      rw [List.nil_append, List.map_cons, readLines_counts counts, readLine_wrong wrong]
      rfl
  | cons first rest ih =>
      obtain ⟨own, others⟩ := List.forall_mem_cons.mp sound
      have later := ih (number + 1) others (by
        rw [Nat.add_assoc, Nat.add_comm 1]
        exact wrong)
      rw [List.cons_append, List.map_cons]
      by_cases first' : Counts first
      · obtain ⟨t, found, prompt⟩ := own first'
        rw [readLines_counts first', readLine_sound found prompt, later]
        rfl
      · rw [readLines_skipped first', later]

theorem sound_or_wrong (lines : List (List Char)) :
    (∀ l ∈ lines, Counts l → Sound l) ∨ ∃ e, FirstWrong lines e := by
  cases found : lines.find? fun l => decide (Counts l ∧ ¬Sound l) with
  | none =>
      refine .inl ?_
      intro l hl counts
      have all := List.find?_eq_none.mp found l hl
      by_contra unsound
      exact all (decide_eq_true ⟨counts, unsound⟩)
  | some line =>
      obtain ⟨here, before, after, split, earlier⟩ := List.find?_eq_some_iff_append.mp found
      obtain ⟨counts, unsound⟩ := of_decide_eq_true here
      obtain ⟨e, wrong⟩ := exists_wrong unsound (before.length + 1)
      refine .inr ⟨e, before, line, after, split, ?_, counts, wrong⟩
      intro l hl counts'
      by_contra unsound'
      have none := earlier l hl
      simp [counts', unsound'] at none

theorem requests_eq (ts : List TraceRecord) : requests ts = renumber
    ((ts.map fun t => t.toRequest 0).mergeSort fun r s => r.arrivalTime ≤ s.arrivalTime) := by
  have arrival : ∀ t : TraceRecord, (t.toRequest 0).arrivalTime = t.arrivalTime := fun t =>
    (t.asks_toRequest 0).arrival
  have sorted : (ts.mergeSort fun s t => s.arrivalTime ≤ t.arrivalTime).map (·.toRequest 0) =
      (ts.map fun t => t.toRequest 0).mergeSort fun r s => r.arrivalTime ≤ s.arrivalTime := by
    refine List.map_mergeSort ?_
    intro s _ t _
    rw [arrival, arrival]
  rw [requests, renumber, ← sorted]
  apply List.ext_getElem?
  intro id
  rw [List.getElem?_mapIdx, List.getElem?_mapIdx, List.getElem?_map, Option.map_map]
  exact Option.map_congr fun t _ => t.toRequest_id id

/-- Bytes that are text are read line by line. The first wrong line decides the error. Without one
every line that counts gives a request, and these come in the order of arrival. -/
theorem lines_read {bytes : ByteArray} (text : linesOfBytes bytes = lines.map some) :
    (∀ e, parseBytes bytes = .error e ↔ FirstWrong lines e) ∧
    ((∀ l ∈ lines, Counts l → Sound l) → ∃ rs ss,
      List.Forall₂ (fun l r => ∃ t, record? l = some t ∧ t.Asks r) (lines.filter Counts) rs ∧
      Arranged rs ss ∧ parseBytes bytes = .ok (renumber ss)) := by
  have failed : ∀ e, FirstWrong lines e → parseBytes bytes = .error e := by
    rintro e ⟨before, line, after, rfl, sound, counts, wrong⟩
    rw [Nat.add_comm] at wrong
    rw [parseBytes, text, readLines_wrong 1 sound counts wrong]
    rfl
  have done : (∀ l ∈ lines, Counts l → Sound l) → ∃ ts,
      List.Forall₂ (fun l t => record? l = some t) (lines.filter Counts) ts ∧
      parseBytes bytes = .ok (requests ts) := by
    intro sound
    obtain ⟨ts, records, read⟩ := readLines_sound sound 1
    exact ⟨ts, records, by rw [parseBytes, text, read]; rfl⟩
  refine ⟨fun e => ⟨?_, failed e⟩, ?_⟩
  · intro error
    rcases sound_or_wrong lines with sound | ⟨e', wrong⟩
    · obtain ⟨ts, _, ok⟩ := done sound
      rw [ok] at error
      cases error
    · rw [failed e' wrong] at error
      exact Except.error.inj error ▸ wrong
  · intro sound
    obtain ⟨ts, records, ok⟩ := done sound
    refine ⟨ts.map fun t => t.toRequest 0, _, ?_, arranged_mergeSort _, ?_⟩
    · rw [List.forall₂_map_right_iff]
      exact records.imp fun l t found => ⟨t, found, t.asks_toRequest 0⟩
    · rw [ok, requests_eq]

/-- Three records after a comment and a blank line. The first and the last arrive at once, the
second one is given. -/
def recording (second : String) : String :=
  "# ticks of 1 µs\n\n\x7b\"ts\":5,\"prompt_tokens\":10,\"gen_tokens\":3\x7d\n" ++ second ++
    "\n\x7b\"ts\":5,\"prompt_tokens\":1,\"gen_tokens\":0,\"slo_class\":\"batch\"\x7d\n"

def earlierSecond : String := "  \x7b\"ts\":2,\"prompt_tokens\":8,\"gen_tokens\":1,\"tenant\":7\x7d\r"

def emptySecond : String := "\x7b\"ts\":2,\"prompt_tokens\":0,\"gen_tokens\":1\x7d"

/-- The records are read if the second one has a prompt. Without one, reading stops at line 4. -/
theorem recording_read :
    (∃ rs ss, List.Forall₂ (fun l r => ∃ t, record? l = some t ∧ t.Asks r)
        ((Text.splitAt (· = '\n') (recording earlierSecond).toList).filter Counts) rs ∧
      Arranged rs ss ∧ parseBytes (recording earlierSecond).toUTF8 = .ok (renumber ss)) ∧
    parseBytes (recording emptySecond).toUTF8 = .error (.emptyPrompt 4) := by
  constructor
  · refine (lines_read (linesOfBytes_toUTF8 _)).2 ?_
    decide +kernel
  · refine ((lines_read (linesOfBytes_toUTF8 _)).1 _).mpr ⟨["# ticks of 1 µs".toList, [],
      "\x7b\"ts\":5,\"prompt_tokens\":10,\"gen_tokens\":3\x7d".toList], emptySecond.toList,
      ["\x7b\"ts\":5,\"prompt_tokens\":1,\"gen_tokens\":0,\"slo_class\":\"batch\"\x7d".toList, []],
      by decide +kernel, by decide +kernel, by decide +kernel, ?_⟩
    exact .emptyPrompt (t := { arrivalTime := 2, inputTokens := 0, outputTokens := 1 })
      (by decide +kernel) rfl

end Trace
end InferenceSim
