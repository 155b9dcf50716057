import InferenceSim.Document.Json

/-! Numbers and strings of JSON text, each read back as it was written. A number ends where no
digit follows it, and a string at the first quote that no escape has. -/
namespace InferenceSim.Json

/-- What may stand after a value: nothing, or the mark that ends it. -/
def Ends : List Char → Prop
  | [] => True
  | c :: _ => c = ',' ∨ c = ']' ∨ c = '\x7d'

theorem Ends.comma (rest : List Char) : Ends (',' :: rest) := Or.inl rfl

theorem Ends.bracket (rest : List Char) : Ends (']' :: rest) := Or.inr (Or.inl rfl)

theorem Ends.brace (rest : List Char) : Ends ('\x7d' :: rest) := Or.inr (Or.inr rfl)

section
variable {c : Char} {ds rest : List Char} {n : Nat}

theorem Ends.not_digit (ends : Ends (c :: rest)) : c.isDigit = false := by
  rcases ends with rfl | rfl | rfl <;> rfl

theorem spanDigits_append (digits : ∀ c ∈ ds, c.isDigit = true) (ends : Ends rest) :
    spanDigits (ds ++ rest) = (ds, rest) := by
  have stop : rest.takeWhile Char.isDigit = [] ∧ rest.dropWhile Char.isDigit = rest := by
    cases rest with
    | nil => exact ⟨rfl, rfl⟩
    | cons c rest => simp [ends.not_digit]
  rw [spanDigits, List.takeWhile_append_of_pos digits, List.dropWhile_append_of_pos digits,
    stop.1, stop.2, List.append_nil]

theorem isDigit_of_mem_decimal (inside : c ∈ Nat.toDigits 10 n) : c.isDigit = true :=
  Nat.isDigit_of_mem_toDigits (by decide) (by decide) inside

theorem decimal_head (pos : 0 < n) : (Nat.toDigits 10 n).head? ≠ some '0' := by
  induction n using Nat.strongRecOn with
  | ind n ih =>
      by_cases small : n < 10
      · rw [Nat.toDigits_of_lt_base small]
        intro zero
        exact Nat.ne_of_gt pos (Nat.digitChar_eq_zero.mp (Option.some.inj zero))
      · have first := ih (n / 10) (by omega) (by omega)
        obtain ⟨c, cs, split⟩ := List.exists_cons_of_ne_nil (Nat.toDigits_ne_nil (n := n / 10) (b := 10))
        rw [Nat.toDigits_of_base_le (by decide) (Nat.le_of_not_lt small)]
        rw [split] at first ⊢
        exact first

theorem readMagnitude_decimal (negative : Bool) (n : Nat) (ends : Ends rest) :
    readMagnitude negative (Nat.toDigits 10 n ++ rest) = some (integerDocument negative n, rest) := by
  have value : digitsValue (Nat.toDigits 10 n) = n := Nat.ofDigitChars_ten_toDigits
  have span := spanDigits_append (fun c hc => isDigit_of_mem_decimal (n := n) hc) ends
  have some : Nat.toDigits 10 n ≠ [] := Nat.toDigits_ne_nil
  have lead : ∀ c cs, Nat.toDigits 10 n ≠ '0' :: c :: cs := by
    intro c cs split
    by_cases zero : n = 0
    · rw [zero, Nat.toDigits_zero] at split
      cases split
    · exact decimal_head (Nat.pos_of_ne_zero zero) (by rw [split]; rfl)
  rw [readMagnitude, span]
  generalize Nat.toDigits 10 n = ds at value some lead
  split
  · next nil => exact absurd (Prod.mk.inj nil).1 some
  · next split => exact absurd (Prod.mk.inj split).1 (lead _ _)
  · next point =>
    obtain rfl := (Prod.mk.inj point).2
    rcases ends with ends | ends | ends <;> cases ends
  · next power =>
    obtain rfl := (Prod.mk.inj power).2
    rcases ends with ends | ends | ends <;> cases ends
  · next power =>
    obtain rfl := (Prod.mk.inj power).2
    rcases ends with ends | ends | ends <;> cases ends
  · next whole =>
    obtain ⟨rfl, rfl⟩ := Prod.mk.inj whole
    rw [value]

end

def Piece.Stands (c : Char) (p : Piece) : Prop :=
  ∀ ps, joinPieces (p :: ps) = (joinPieces ps).map (c :: ·)

def isBare (c : Char) : Bool := c ≠ '"' ∧ c ≠ '\\' ∧ 32 ≤ c.toNat

def Piece.After (p : Piece) (cs : List Char) : Prop :=
  ∀ rest, readPieces (cs ++ rest) = (readPieces rest).map fun (ps, rest) => (p :: ps, rest)

section
variable {c : Char}

theorem isBare_iff : isBare c = true ↔ c ≠ '"' ∧ c ≠ '\\' ∧ 32 ≤ c.toNat := decide_eq_true_iff

theorem escape_bare (bare : isBare c = true) : escape c = [c] := by
  obtain ⟨quote, backslash, printable⟩ := isBare_iff.mp bare
  have other : ∀ d : Char, d.toNat < 32 → c ≠ d := by
    rintro d low rfl
    exact Nat.not_le_of_lt low printable
  simp only [escape, quote, backslash, other '\n' (by decide), other '\r' (by decide),
    other '\t' (by decide), other '\x08' (by decide), other '\x0c' (by decide),
    Nat.not_lt_of_le printable, if_false]

theorem readPieces_bare (bare : isBare c = true) : (Piece.char c).After [c] := by
  obtain ⟨quote, backslash, printable⟩ := isBare_iff.mp bare
  intro rest
  rw [List.singleton_append, readPieces, if_neg (Nat.not_lt_of_le printable)]
  · exact quote
  · intro d rest own
    exact absurd own backslash

theorem hexValue?_hexDigit : ∀ n < 16, hexValue? (hexDigit n) = some n := by decide

theorem readPieces_control (low : c.toNat < 32) :
    (Piece.unit c.toNat).After
      ['\\', 'u', '0', '0', hexDigit (c.toNat / 16), hexDigit (c.toNat % 16)] := by
  intro rest
  have high := hexValue?_hexDigit (c.toNat / 16) (by omega)
  have last := hexValue?_hexDigit (c.toNat % 16) (Nat.mod_lt _ (by decide))
  have whole : ((0 * 16 + 0) * 16 + c.toNat / 16) * 16 + c.toNat % 16 = c.toNat := by omega
  have zero : hexValue? '0' = some 0 := rfl
  simp only [List.cons_append, List.nil_append, readPieces, zero, high, last, whole, bind,
    Option.bind]
  cases readPieces rest <;> rfl

theorem stands_unit (low : c.toNat < 32) : Piece.Stands c (.unit c.toNat) := by
  intro ps
  rw [joinPieces.eq_def]
  dsimp only
  rw [if_neg (by omega), if_neg (by omega), Char.ofNat_toNat]

def mapped : List Char := ['"', '\\', '\n', '\r', '\t', '\x08', '\x0c']

theorem escape_cases (c : Char) : isBare c = true ∨ c ∈ mapped ∨
    c.toNat < 32 ∧ isBare c = false ∧
      escape c = ['\\', 'u', '0', '0', hexDigit (c.toNat / 16), hexDigit (c.toNat % 16)] := by
  by_cases own : c ∈ mapped
  · exact .inr (.inl own)
  by_cases low : c.toNat < 32
  · refine .inr (.inr ⟨low, ?_, ?_⟩)
    · simp [isBare, low]
    · simp only [mapped, List.mem_cons, List.not_mem_nil, or_false, not_or] at own
      obtain ⟨quote, backslash, newline, back, tab, feed, form⟩ := own
      simp only [escape, quote, backslash, newline, back, tab, feed, form, low, if_false, if_true]
  · refine .inl (isBare_iff.mpr ⟨?_, ?_, Nat.le_of_not_lt low⟩) <;> rintro rfl <;>
      exact own (by decide)

theorem hexDigit_printable : ∀ n < 16, 32 ≤ (hexDigit n).toNat := by decide

theorem escape_mapped : ∀ c ∈ mapped, isBare c = false ∧ ∀ e ∈ escape c, 32 ≤ e.toNat := by
  simp [mapped, isBare, escape]

theorem escape_printable (c : Char) : ∀ e ∈ escape c, 32 ≤ e.toNat := by
  rcases escape_cases c with bare | own | ⟨low, _, written⟩
  · rw [escape_bare bare]
    exact List.forall_mem_singleton.mpr (isBare_iff.mp bare).2.2
  · exact (escape_mapped c own).2
  · rw [written]
    have high := hexDigit_printable (c.toNat / 16) (by omega)
    have last := hexDigit_printable (c.toNat % 16) (Nat.mod_lt _ (by decide))
    simp [high, last]

theorem readPieces_escape (c : Char) : ∃ p, Piece.Stands c p ∧
    (isBare c = true → p.isChar = true) ∧ p.After (escape c) := by
  rcases escape_cases c with bare | own | ⟨low, escaped, written⟩
  · exact ⟨.char c, fun ps => rfl, fun _ => rfl, escape_bare bare ▸ readPieces_bare bare⟩
  · refine ⟨.escape c, fun ps => rfl, ?_, ?_⟩
    · rw [(escape_mapped c own).1]
      exact fun plain => absurd plain Bool.false_ne_true
    · simp only [mapped, List.mem_cons, List.not_mem_nil, or_false] at own
      rcases own with rfl | rfl | rfl | rfl | rfl | rfl | rfl <;> exact fun rest => rfl
  · refine ⟨.unit c.toNat, stands_unit low, ?_, written ▸ readPieces_control low⟩
    rw [escaped]
    exact fun plain => absurd plain Bool.false_ne_true

end

theorem readPieces_quoted (cs : List Char) : ∃ ps, joinPieces ps = some cs ∧
    (cs.all isBare = true → ps.all Piece.isChar = true) ∧
    ∀ rest, readPieces (cs.flatMap escape ++ '"' :: rest) = some (ps, rest) := by
  induction cs with
  | nil =>
      refine ⟨[], rfl, fun _ => rfl, fun rest => ?_⟩
      rw [List.flatMap_nil, List.nil_append, readPieces]
  | cons c cs ih =>
      obtain ⟨ps, joined, plain, read⟩ := ih
      obtain ⟨p, stands, bare, after⟩ := readPieces_escape c
      refine ⟨p :: ps, ?_, ?_, ?_⟩
      · rw [stands, joined]
        rfl
      · intro all
        obtain ⟨first, others⟩ := Bool.and_eq_true_iff.mp (List.all_cons.symm.trans all)
        rw [List.all_cons, bare first, plain others]
        rfl
      · intro rest
        rw [List.flatMap_cons, List.append_assoc, after, read]
        rfl

theorem quote_printable (s : String) : ∀ c ∈ quote s, 32 ≤ c.toNat := by
  intro c hc
  rcases List.mem_cons.mp hc with rfl | inside
  · decide
  · rcases List.mem_append.mp inside with escaped | last
    · obtain ⟨d, _, he⟩ := List.mem_flatMap.mp escaped
      exact escape_printable d c he
    · obtain rfl := List.mem_singleton.mp last
      decide

end InferenceSim.Json
