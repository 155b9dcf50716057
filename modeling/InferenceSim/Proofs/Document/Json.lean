import InferenceSim.Proofs.Document.Tokens
import Mathlib.Algebra.Group.Int.Defs

/-! JSON text of whole values. Compact text stands on one line, and reading it gives the
document that was written, whatever its nesting and its names and strings are. -/
namespace InferenceSim.Json

/-- A document that JSON text says in full, within some levels of nesting: it has no real,
its integers fit into 64 bits, and its lists and tables are as JSON has them, with names that
need no escape. -/
inductive Exact : (depth : Nat) → Document → Prop
  | null {depth : Nat} : Exact depth .null
  | bool {depth : Nat} (b : Bool) : Exact depth (.bool b)
  | integer {depth : Nat} {n : Int} (low : -2 ^ 63 ≤ n) (high : n < 2 ^ 64) :
      Exact depth (.integer n)
  | text {depth : Nat} (s : String) : Exact depth (.text s)
  | list {depth : Nat} {ds : List Document} (items : ∀ d ∈ ds, Exact depth d) :
      Exact (depth + 1) (.list ds)
  | table {depth : Nat} {ms : List (String × Document)}
      (names : ∀ m ∈ ms, m.1.toList.all isBare = true) (values : ∀ m ∈ ms, Exact depth m.2) :
      Exact (depth + 1) (.table ms)

/-- A written value is read back wherever it ends, with fuel for twice its length. Its text is
on one line, and is told from a blank and from the end of a list by how it begins. -/
structure ReadsBack (real : Float → String) (depth : Nat) (d : Document) : Prop where
  first : ∃ c cs, write real d = c :: cs ∧ isBlank c = false ∧ c ≠ ']'
  reads : ∀ fuel rest, 2 * (write real d).length ≤ fuel → Ends rest →
    readValue fuel depth (write real d ++ rest) = some (d, rest)
  line : ∀ c ∈ write real d, 32 ≤ c.toNat

variable {real : Float → String} {depth : Nat} {d : Document}

theorem skipBlanks_cons {c : Char} (solid : isBlank c = false) (cs : List Char) :
    skipBlanks (c :: cs) = c :: cs := by
  rw [skipBlanks, List.dropWhile_cons, solid]
  rfl

theorem ReadsBack.skip (k : ReadsBack real depth d) (rest : List Char) :
    skipBlanks (write real d ++ rest) = write real d ++ rest := by
  obtain ⟨c, cs, split, solid, _⟩ := k.first
  rw [split, List.cons_append]
  exact skipBlanks_cons solid _

theorem readsBack_word (c : Char) (cs : List Char) (written : write real d = c :: cs)
    (solid : isBlank c = false) (other : c ≠ ']')
    (read : ∀ fuel rest, readValue (fuel + 1) depth (c :: cs ++ rest) = some (d, rest))
    (line : ∀ c' ∈ c :: cs, 32 ≤ c'.toNat) : ReadsBack real depth d where
  first := ⟨c, cs, written, solid, other⟩
  reads fuel rest enough _ := by
    rw [written] at enough ⊢
    cases fuel with
    | zero => exact absurd enough (by rw [List.length_cons]; omega)
    | succ fuel => exact read fuel rest
  line := written ▸ line

theorem readsBack_null : ReadsBack real depth .null :=
  readsBack_word 'n' ['u', 'l', 'l'] rfl rfl (by decide) (fun _ _ => rfl) (by simp)

theorem readsBack_bool (b : Bool) : ReadsBack real depth (.bool b) := by
  cases b with
  | true => exact readsBack_word 't' ['r', 'u', 'e'] rfl rfl (by decide) (fun _ _ => rfl) (by simp)
  | false =>
      exact readsBack_word 'f' ['a', 'l', 's', 'e'] rfl rfl (by decide) (fun _ _ => rfl) (by simp)

theorem readValue_minus (fuel : Nat) (rest : List Char) :
    readValue (fuel + 1) depth ('-' :: rest) = readMagnitude true rest := rfl

theorem readValue_quote (fuel : Nat) (rest : List Char) :
    readValue (fuel + 1) depth ('"' :: rest) =
      (readPieces rest).map fun (ps, rest) => (textOfPieces ps, rest) := rfl

theorem readValue_digit {c : Char} {cs : List Char} {fuel : Nat} (digit : c.isDigit = true) :
    readValue (fuel + 1) depth (c :: cs) = readMagnitude false (c :: cs) := by
  rw [readValue]
  case x_4 => exact List.cons_ne_nil c cs
  all_goals
    intro rest own
    obtain ⟨rfl, _⟩ := List.cons.inj own
    cases digit

theorem digit_solid {c : Char} (digit : c.isDigit = true) :
    isBlank c = false ∧ c ≠ ']' ∧ 32 ≤ c.toNat := by
  have other : ∀ d : Char, d.isDigit = false → c ≠ d := by
    rintro d none rfl
    exact absurd (digit.symm.trans none) (by decide)
  refine ⟨?_, other ']' rfl, Nat.le_trans (by decide) (Char.isDigit_iff_toNat.mp digit).1⟩
  simp only [isBlank, other ' ' rfl, other '\n' rfl, other '\t' rfl, other '\r' rfl]
  rfl

theorem write_natural {n : Int} (natural : 0 ≤ n) :
    write real (.integer n) = Nat.toDigits 10 n.toNat := by
  change (toString n).toList = _
  rw [Int.toString_eq_repr, Int.repr_eq_if, if_pos natural, Nat.toList_repr]

theorem write_negative {n : Int} (negative : ¬ 0 ≤ n) :
    write real (.integer n) = '-' :: Nat.toDigits 10 (-n).toNat := by
  change (toString n).toList = _
  rw [Int.toString_eq_repr, Int.repr_eq_if, if_neg negative, String.toList_append,
    Nat.toList_repr]
  simp

theorem readsBack_natural {n : Int} (natural : 0 ≤ n) (high : n < 2 ^ 64) :
    ReadsBack real depth (.integer n) := by
  have written : write real (.integer n) = _ := write_natural natural
  have digits : ∀ c ∈ Nat.toDigits 10 n.toNat, c.isDigit = true := fun _ => isDigit_of_mem_decimal
  obtain ⟨c, cs, split⟩ :=
    List.exists_cons_of_ne_nil (Nat.toDigits_ne_nil (n := n.toNat) (b := 10))
  have digit := digits c (split ▸ List.mem_cons_self)
  constructor
  case first => exact ⟨c, cs, written.trans split, (digit_solid digit).1, (digit_solid digit).2.1⟩
  case reads =>
    intro fuel rest enough ends
    rw [written] at enough ⊢
    cases fuel with
    | zero => exact absurd enough (by rw [split, List.length_cons]; omega)
    | succ fuel =>
        have value : integerDocument false n.toNat = .integer n := by
          have small : n.toNat < Nat.pow 2 64 := by
            change n.toNat < 2 ^ 64
            omega
          rw [integerDocument, if_neg Bool.false_ne_true, if_pos small, Int.toNat_of_nonneg natural]
        have read := readMagnitude_decimal false n.toNat ends
        rw [split, List.cons_append] at read ⊢
        rw [readValue_digit digit, read, value]
  case line =>
    intro c hc
    exact (digit_solid (digits c (written ▸ hc))).2.2

theorem readsBack_negative {n : Int} (negative : ¬ 0 ≤ n) (low : -2 ^ 63 ≤ n) :
    ReadsBack real depth (.integer n) := by
  have written : write real (.integer n) = _ := write_negative negative
  constructor
  case first => exact ⟨'-', _, written, rfl, by decide⟩
  case reads =>
    intro fuel rest enough ends
    rw [written] at enough ⊢
    cases fuel with
    | zero => exact absurd enough (by rw [List.length_cons]; omega)
    | succ fuel =>
        have value : integerDocument true (-n).toNat = .integer n := by
          have small : (-n).toNat ≤ Nat.pow 2 63 := by
            change (-n).toNat ≤ 2 ^ 63
            omega
          have below : -((-n).toNat : Int) = n := by omega
          rw [integerDocument, if_pos rfl, if_neg (by omega), if_pos small, below]
        rw [List.cons_append, readValue_minus, readMagnitude_decimal true _ ends, value]
  case line =>
    intro c hc
    rcases List.mem_cons.mp (written ▸ hc) with rfl | digit
    · decide
    · exact (digit_solid (isDigit_of_mem_decimal digit)).2.2

theorem readsBack_text (s : String) : ReadsBack real depth (.text s) := by
  have written : write real (.text s) = quote s := rfl
  constructor
  case first => exact ⟨'"', _, written, rfl, by decide⟩
  case reads =>
    intro fuel rest enough ends
    rw [written] at enough ⊢
    cases fuel with
    | zero => exact absurd enough (by rw [quote, List.length_cons]; omega)
    | succ fuel =>
        obtain ⟨ps, joined, _, read⟩ := readPieces_quoted s.toList
        rw [quote, List.cons_append, List.append_assoc, List.singleton_append, readValue_quote,
          read]
        simp only [Option.map_some, textOfPieces, joined, String.ofList_toList]
  case line => exact written ▸ quote_printable s

theorem writeItems_cons (d : Document) (ds : List Document) :
    writeItems real (d :: ds) = ',' :: (write real d ++ writeItems real ds) := rfl

theorem writeMembers_cons (k : String) (d : Document) (ns : List (String × Document)) :
    writeMembers real ((k, d) :: ns) =
      ',' :: (quote k ++ ':' :: (write real d ++ writeMembers real ns)) := rfl

theorem readItems_succ (fuel depth : Nat) (cs : List Char) :
    readItems (fuel + 1) depth cs = (readValue fuel depth cs).bind fun (d, rest) =>
      match skipBlanks rest with
      | ',' :: rest =>
        (readItems fuel depth (skipBlanks rest)).bind fun (ds, rest) => some (d :: ds, rest)
      | ']' :: rest => some ([d], rest)
      | _ => none := rfl

theorem readMembers_succ (fuel depth : Nat) (cs : List Char) :
    readMembers (fuel + 1) depth ('"' :: cs) = (readPieces cs).bind fun (name, rest) =>
      match skipBlanks rest with
      | ':' :: rest => (readValue fuel depth (skipBlanks rest)).bind fun (d, rest) =>
        match skipBlanks rest with
        | ',' :: rest => (readMembers fuel depth (skipBlanks rest)).bind fun (ms, rest) =>
          some ((name, d) :: ms, rest)
        | '\x7d' :: rest => some ([(name, d)], rest)
        | _ => none
      | _ => none := rfl

theorem readItems_item (own : ReadsBack real depth d) {fuel : Nat}
    (enough : 2 * (write real d).length ≤ fuel) (rest : List Char) :
    readItems (fuel + 1) depth (write real d ++ ',' :: rest) =
        (readItems fuel depth (skipBlanks rest)).map (fun (ds, rest) => (d :: ds, rest)) ∧
      readItems (fuel + 1) depth (write real d ++ ']' :: rest) = some ([d], rest) := by
  constructor
  case left =>
    rw [readItems_succ, own.reads fuel _ enough (.comma rest)]
    simp only [Option.bind_some, skipBlanks_cons (c := ',') rfl]
    cases readItems fuel depth (skipBlanks rest) <;> rfl
  case right =>
    rw [readItems_succ, own.reads fuel _ enough (.bracket rest)]
    simp only [Option.bind_some, skipBlanks_cons (c := ']') rfl]

theorem readItems_write {ds : List Document} (each : ∀ e ∈ d :: ds, ReadsBack real depth e)
    (fuel : Nat) (enough : 2 * ((write real d).length + (writeItems real ds).length) ≤ fuel)
    (rest : List Char) : readItems (fuel + 1) depth
      (write real d ++ (writeItems real ds ++ rest)) = some (d :: ds, rest) := by
  induction ds generalizing d fuel with
  | nil =>
      exact (readItems_item (each d List.mem_cons_self) (by omega) rest).2
  | cons next ds ih =>
      rw [writeItems_cons, List.length_cons, List.length_append] at enough
      have others := fun e he => each e (List.mem_cons_of_mem d he)
      cases fuel with
      | zero => omega
      | succ fuel =>
          rw [writeItems_cons, List.cons_append, List.append_assoc,
            (readItems_item (each d List.mem_cons_self) (by omega) _).1,
            (others next List.mem_cons_self).skip, ih others fuel (by omega)]
          rfl

def spelled? (m : List Piece × Document) : Option (String × Document) :=
  (joinPieces m.1).map fun cs => (String.ofList cs, m.2)

theorem tableOfPieces_plain {ms : List (List Piece × Document)} {ns : List (String × Document)}
    (spelled : ms.mapM spelled? = some ns)
    (plain : ms.all (fun m => m.1.all Piece.isChar) = true) : tableOfPieces ms = .table ns := by
  have named : ms.mapM (fun m => (joinPieces m.1).map fun cs => (String.ofList cs, m.2)) = some ns :=
    spelled
  simp only [tableOfPieces, named, if_pos plain]

theorem skipBlanks_quote (s : String) (rest : List Char) :
    skipBlanks (quote s ++ rest) = quote s ++ rest := skipBlanks_cons rfl _

theorem readMembers_member {k : String} (name : k.toList.all isBare = true)
    (own : ReadsBack real depth d) (fuel : Nat) (enough : 2 * (write real d).length ≤ fuel) :
    ∃ ps, spelled? (ps, d) = some (k, d) ∧ ps.all Piece.isChar = true ∧ ∀ rest,
      readMembers (fuel + 1) depth (quote k ++ ':' :: (write real d ++ ',' :: rest)) =
          (readMembers fuel depth (skipBlanks rest)).map (fun (ms, rest) => ((ps, d) :: ms, rest)) ∧
        readMembers (fuel + 1) depth (quote k ++ ':' :: (write real d ++ '\x7d' :: rest)) =
          some ([(ps, d)], rest) := by
  obtain ⟨ps, joined, plain, read⟩ := readPieces_quoted k.toList
  refine ⟨ps, ?_, plain name, fun rest => ⟨?_, ?_⟩⟩
  · simp only [spelled?, joined, Option.map_some, String.ofList_toList]
  · rw [quote, List.cons_append, List.append_assoc, List.singleton_append, readMembers_succ]
    simp only [Option.bind_some, read, skipBlanks_cons (c := ':') rfl, own.skip,
      own.reads fuel _ enough (.comma rest), skipBlanks_cons (c := ',') rfl]
    cases readMembers fuel depth (skipBlanks rest) <;> rfl
  · rw [quote, List.cons_append, List.append_assoc, List.singleton_append, readMembers_succ]
    simp only [Option.bind_some, read, skipBlanks_cons (c := ':') rfl, own.skip,
      own.reads fuel _ enough (.brace rest), skipBlanks_cons (c := '\x7d') rfl]

theorem readMembers_write {k : String} {ns : List (String × Document)}
    (names : ∀ n ∈ (k, d) :: ns, n.1.toList.all isBare = true)
    (each : ∀ n ∈ (k, d) :: ns, ReadsBack real depth n.2) (fuel : Nat)
    (enough : 2 * ((write real d).length + (writeMembers real ns).length) ≤ fuel)
    (rest : List Char) : ∃ ms, ms.mapM spelled? = some ((k, d) :: ns) ∧
      ms.all (fun m => m.1.all Piece.isChar) = true ∧ readMembers (fuel + 1) depth
        (quote k ++ ':' :: (write real d ++ (writeMembers real ns ++ rest))) = some (ms, rest) := by
  induction ns generalizing k d fuel with
  | nil =>
      obtain ⟨ps, spelled, plain, read⟩ := readMembers_member (names (k, d) List.mem_cons_self)
        (each (k, d) List.mem_cons_self) fuel (by dsimp only; omega)
      refine ⟨[(ps, d)], ?_, ?_, ?_⟩
      · rw [List.mapM_cons, spelled]
        rfl
      · rw [List.all_cons, plain]
        rfl
      · exact (read rest).2
  | cons next ns ih =>
      obtain ⟨k', d'⟩ := next
      rw [writeMembers_cons, List.length_cons, List.length_append, List.length_cons,
        List.length_append] at enough
      obtain ⟨ps, spelled, plain, read⟩ := readMembers_member (names (k, d) List.mem_cons_self)
        (each (k, d) List.mem_cons_self) fuel (by dsimp only; omega)
      cases fuel with
      | zero => omega
      | succ fuel =>
          obtain ⟨ms, others, bare, members⟩ := ih (fun n hn => names n (List.mem_cons_of_mem _ hn))
            (fun n hn => each n (List.mem_cons_of_mem _ hn)) fuel (by omega)
          refine ⟨(ps, d) :: ms, ?_, ?_, ?_⟩
          · rw [List.mapM_cons, spelled, others]
            rfl
          · rw [List.all_cons, plain, bare]
            rfl
          · rw [writeMembers_cons, List.cons_append, List.append_assoc, List.cons_append,
              List.append_assoc]
            refine (read _).1.trans ?_
            rw [skipBlanks_quote, members]
            rfl

theorem readValue_bracket (fuel : Nat) (cs : List Char) :
    readValue (fuel + 1) depth ('[' :: cs) = match skipBlanks cs with
      | ']' :: rest => some (nested depth (.list []), rest)
      | rest => (readItems fuel (depth - 1) rest).map fun (ds, rest) =>
        (nested depth (.list ds), rest) := rfl

theorem readValue_brace (fuel : Nat) (cs : List Char) :
    readValue (fuel + 1) depth ('\x7b' :: cs) = match skipBlanks cs with
      | '\x7d' :: rest => some (nested depth (.table []), rest)
      | rest => (readMembers fuel (depth - 1) rest).map fun (ms, rest) =>
        (nested depth (tableOfPieces ms), rest) := rfl

theorem nested_succ (depth : Nat) (d : Document) : nested (depth + 1) d = d :=
  if_neg (Nat.succ_ne_zero depth)

theorem writeItems_line {ds : List Document} (each : ∀ e ∈ ds, ReadsBack real depth e) :
    ∀ c ∈ writeItems real ds, 32 ≤ c.toNat := by
  induction ds with
  | nil => exact List.forall_mem_singleton.mpr (by decide)
  | cons d ds ih =>
      rw [writeItems_cons]
      refine List.forall_mem_cons.mpr ⟨by decide, List.forall_mem_append.mpr ⟨?_, ?_⟩⟩
      · exact (each d List.mem_cons_self).line
      · exact ih fun e he => each e (List.mem_cons_of_mem d he)

theorem writeMembers_line {ns : List (String × Document)}
    (each : ∀ n ∈ ns, ReadsBack real depth n.2) : ∀ c ∈ writeMembers real ns, 32 ≤ c.toNat := by
  induction ns with
  | nil => exact List.forall_mem_singleton.mpr (by decide)
  | cons n ns ih =>
      obtain ⟨k, d⟩ := n
      rw [writeMembers_cons]
      refine List.forall_mem_cons.mpr ⟨by decide, List.forall_mem_append.mpr ⟨?_, ?_⟩⟩
      · exact quote_printable k
      · refine List.forall_mem_cons.mpr ⟨by decide, List.forall_mem_append.mpr ⟨?_, ?_⟩⟩
        · exact (each (k, d) List.mem_cons_self).line
        · exact ih fun e he => each e (List.mem_cons_of_mem _ he)

theorem readsBack_list {ds : List Document} (each : ∀ e ∈ ds, ReadsBack real depth e) :
    ReadsBack real (depth + 1) (.list ds) := by
  cases ds with
  | nil =>
      exact readsBack_word '[' [']'] rfl rfl (by decide) (fun _ _ => rfl) (by simp)
  | cons d ds =>
      have written : write real (.list (d :: ds)) =
          '[' :: (write real d ++ writeItems real ds) := rfl
      have own := each d List.mem_cons_self
      constructor
      case first => exact ⟨'[', _, written, rfl, by decide⟩
      case reads =>
        intro fuel rest enough ends
        rw [written, List.length_cons, List.length_append] at enough
        rw [written, List.cons_append, List.append_assoc]
        obtain ⟨fuel, rfl⟩ : ∃ f, fuel = f + 2 := ⟨fuel - 2, by omega⟩
        have items := readItems_write each fuel (by omega) rest
        obtain ⟨c, cs, split, _, other⟩ := own.first
        rw [readValue_bracket, own.skip]
        split
        · next closed =>
          rw [split, List.cons_append] at closed
          exact absurd (List.cons.inj closed).1 other
        · rw [Nat.add_sub_cancel, items, Option.map_some]
          dsimp only
          rw [nested_succ]
      case line =>
        rw [written]
        refine List.forall_mem_cons.mpr ⟨by decide, List.forall_mem_append.mpr ⟨own.line, ?_⟩⟩
        exact writeItems_line fun e he => each e (List.mem_cons_of_mem d he)

theorem readsBack_table {ns : List (String × Document)}
    (names : ∀ n ∈ ns, n.1.toList.all isBare = true)
    (each : ∀ n ∈ ns, ReadsBack real depth n.2) : ReadsBack real (depth + 1) (.table ns) := by
  cases ns with
  | nil =>
      exact readsBack_word '\x7b' ['\x7d'] rfl rfl (by decide) (fun _ _ => rfl) (by simp)
  | cons n ns =>
      obtain ⟨k, d⟩ := n
      have written : write real (.table ((k, d) :: ns)) =
          '\x7b' :: (quote k ++ ':' :: (write real d ++ writeMembers real ns)) := rfl
      have own : ReadsBack real depth d := each (k, d) List.mem_cons_self
      constructor
      case first => exact ⟨'\x7b', _, written, rfl, by decide⟩
      case reads =>
        intro fuel rest enough ends
        rw [written, List.length_cons, List.length_append, List.length_cons,
          List.length_append] at enough
        rw [written, List.cons_append, List.append_assoc, List.cons_append, List.append_assoc]
        obtain ⟨fuel, rfl⟩ : ∃ f, fuel = f + 2 := ⟨fuel - 2, by omega⟩
        obtain ⟨ms, spelled, plain, members⟩ :=
          readMembers_write names each fuel (by omega) rest
        rw [readValue_brace, skipBlanks_quote]
        split
        · next closed => cases (List.cons.inj closed).1
        · rw [Nat.add_sub_cancel, members, Option.map_some]
          dsimp only
          rw [nested_succ, tableOfPieces_plain spelled plain]
      case line =>
        rw [written]
        refine List.forall_mem_cons.mpr ⟨by decide, List.forall_mem_append.mpr ⟨?_, ?_⟩⟩
        · exact quote_printable k
        · refine List.forall_mem_cons.mpr ⟨by decide, List.forall_mem_append.mpr ⟨own.line, ?_⟩⟩
          exact writeMembers_line fun e he => each e (List.mem_cons_of_mem _ he)

theorem Exact.readsBack (exact : Exact depth d) : ReadsBack real depth d := by
  induction exact with
  | null => exact readsBack_null
  | bool b => exact readsBack_bool b
  | @integer _ n low high =>
      by_cases natural : 0 ≤ n
      · exact readsBack_natural natural high
      · exact readsBack_negative natural low
  | text s => exact readsBack_text s
  | list items ih => exact readsBack_list ih
  | table names values ih => exact readsBack_table names ih

theorem writeMembers_last (real : Float → String) (ns : List (String × Document)) :
    ∃ cs, writeMembers real ns = cs ++ ['\x7d'] := by
  induction ns with
  | nil => exact ⟨[], rfl⟩
  | cons n ns ih =>
      obtain ⟨k, d⟩ := n
      obtain ⟨cs, last⟩ := ih
      refine ⟨',' :: (quote k ++ ':' :: (write real d ++ cs)), ?_⟩
      rw [writeMembers_cons, last]
      simp only [List.cons_append, List.append_assoc]

theorem write_table (real : Float → String) (ns : List (String × Document)) :
    ∃ cs, write real (.table ns) = '\x7b' :: (cs ++ ['\x7d']) := by
  cases ns with
  | nil => exact ⟨[], rfl⟩
  | cons n ns =>
      obtain ⟨k, d⟩ := n
      obtain ⟨cs, last⟩ := writeMembers_last real ns
      refine ⟨quote k ++ ':' :: (write real d ++ cs), ?_⟩
      change '\x7b' :: (quote k ++ ':' :: (write real d ++ writeMembers real ns)) = _
      rw [last]
      simp only [List.cons_append, List.append_assoc]

theorem compact_line (exact : Exact maxDepth d) : ∀ c ∈ (compact d).toList, 32 ≤ c.toNat := by
  rw [compact, String.toList_ofList]
  have k : ReadsBack Decimal.json maxDepth d := exact.readsBack
  exact k.line

theorem parse?_compact (exact : Exact maxDepth d) : parse? (compact d) = some d := by
  have k : ReadsBack Decimal.json maxDepth d := exact.readsBack
  have whole : ∀ cs : List Char, cs = write Decimal.json d → skipBlanks cs = cs := by
    rintro cs rfl
    simpa using k.skip []
  have read := k.reads (2 * (write Decimal.json d).length + 2) [] (by omega) trivial
  rw [List.append_nil] at read
  simp only [parse?, compact, String.toList_ofList, whole _ rfl, read, bind, Option.bind]
  rfl

end InferenceSim.Json
