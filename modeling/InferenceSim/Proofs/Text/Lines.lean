import InferenceSim.Text.Blank

/-! Lines of text and of bytes. A text may be cut into lines before or after it is written in
UTF-8: the byte of the mark that ends a line is in no other character. -/
namespace InferenceSim.Text

section
variable {isMark : Char → Bool} {cs rest : List Char} {mark : Char}

theorem splitAt_ne_nil (isMark : Char → Bool) (cs : List Char) : splitAt isMark cs ≠ [] := by
  cases cs with
  | nil => exact List.cons_ne_nil _ _
  | cons c cs =>
      rw [splitAt]
      split
      · exact List.cons_ne_nil _ _
      · split <;> exact List.cons_ne_nil _ _

theorem splitAt_cons (isMark : Char → Bool) (c : Char) (cs : List Char) :
    splitAt isMark (c :: cs) =
      if isMark c then [] :: splitAt isMark cs else (splitAt isMark cs).modifyHead (c :: ·) := by
  rw [splitAt]
  split
  · rfl
  · cases pieces : splitAt isMark cs with
    | nil => exact absurd pieces (splitAt_ne_nil isMark cs)
    | cons piece pieces => rfl

theorem splitAt_append (none : ∀ c ∈ cs, isMark c = false) (mark' : isMark mark = true) :
    splitAt isMark (cs ++ mark :: rest) = cs :: splitAt isMark rest := by
  induction cs with
  | nil => rw [List.nil_append, splitAt_cons, if_pos mark']
  | cons c cs ih =>
      obtain ⟨first, others⟩ := List.forall_mem_cons.mp none
      rw [List.cons_append, splitAt_cons, first, ih others]
      rfl

theorem splitAt_lines {lines : List (List Char)} (mark' : isMark mark = true)
    (none : ∀ l ∈ lines, ∀ c ∈ l, isMark c = false) :
    splitAt isMark (lines.flatMap (· ++ [mark])) = lines ++ [[]] := by
  induction lines with
  | nil => rfl
  | cons line lines ih =>
      obtain ⟨first, others⟩ := List.forall_mem_cons.mp none
      rw [List.flatMap_cons, List.append_assoc, List.singleton_append,
        splitAt_append first mark', ih others]
      rfl

end

theorem trim_solid {cs : List Char} (first : ∀ c ∈ cs.head?, isBlank c = false)
    (last : ∀ c ∈ cs.getLast?, isBlank c = false) : trim cs = cs := by
  have keep : ∀ l : List Char, (∀ c ∈ l.head?, isBlank c = false) → l.dropWhile isBlank = l := by
    intro l solid
    cases l with
    | nil => rfl
    | cons c l => rw [List.dropWhile_cons, solid c rfl]; rfl
  rw [trim, keep cs first, keep cs.reverse (by rwa [List.head?_reverse]), List.reverse_reverse]

def bytes (cs : List Char) : List UInt8 := cs.flatMap String.utf8EncodeChar

theorem toList_loop (b : ByteArray) (i : Nat) (r : List UInt8) :
    ByteArray.toList.loop b i r = r.reverse ++ b.data.toList.drop i := by
  fun_induction ByteArray.toList.loop b i r with
  | case1 i r inside ih =>
      have inside' : i < b.data.toList.length := by simpa using inside
      rw [ih, List.drop_eq_getElem_cons inside']
      simp [ByteArray.get!, inside]
  | case2 i r outside =>
      rw [List.drop_eq_nil_of_le (by simpa using Nat.le_of_not_lt outside), List.append_nil]

theorem toList_data (b : ByteArray) : b.toList = b.data.toList := by
  rw [ByteArray.toList, toList_loop]
  rfl

theorem toList_toUTF8 (s : String) : s.toUTF8.toList = bytes s.toList := by
  rw [String.toUTF8_eq_toByteArray, ← String.utf8Encode_toList, toList_data, List.utf8Encode,
    List.toList_data_toByteArray]
  rfl

theorem fromUTF8?_bytes (cs : List Char) :
    String.fromUTF8? (ByteArray.mk (bytes cs).toArray) = some (String.ofList cs) := by
  have encoded : ByteArray.mk (bytes cs).toArray = cs.utf8Encode := by
    refine ByteArray.ext (Array.toList_inj.mp ?_)
    rw [List.utf8Encode, List.toList_data_toByteArray]
    rfl
  rw [encoded, String.fromUTF8?, dif_pos ByteArray.isValidUTF8_utf8Encode]
  exact congrArg some (String.toByteArray_inj.mp String.toByteArray_ofList.symm)

theorem newline_not_mem {c : Char} (other : c ≠ '\n') : 10 ∉ String.utf8EncodeChar c := by
  have far : ∀ n, 10 ≠ n % 256 → (10 : UInt8) ≠ UInt8.ofNat n := by
    intro n differs same
    exact differs (congrArg UInt8.toNat same)
  have own : c.val.toNat ≠ 10 := fun same => other (Char.toNat_inj.mp same)
  unfold String.utf8EncodeChar
  intro inside
  dsimp only at inside
  split at inside
  · exact far _ (by omega) (List.mem_singleton.mp inside)
  · split at inside
    · simp only [List.mem_cons, List.not_mem_nil, or_false] at inside
      rcases inside with byte | byte <;> exact far _ (by omega) byte
    · split at inside
      · simp only [List.mem_cons, List.not_mem_nil, or_false] at inside
        rcases inside with byte | byte | byte <;> exact far _ (by omega) byte
      · simp only [List.mem_cons, List.not_mem_nil, or_false] at inside
        rcases inside with byte | byte | byte | byte <;> exact far _ (by omega) byte

theorem splitOn_append {α : Type} [BEq α] [LawfulBEq α] {a : α} {xs : List α} (none : a ∉ xs)
    (ys : List α) : (xs ++ ys).splitOn a = (ys.splitOn a).modifyHead (xs ++ ·) := by
  induction xs with
  | nil => exact (congrFun List.modifyHead_id _).symm
  | cons x xs ih =>
      have first : (x == a) = false := beq_eq_false_iff_ne.mpr (List.ne_of_not_mem_cons none).symm
      rw [List.cons_append, List.splitOn_cons_eq_if_modifyHead, first,
        ih (List.not_mem_of_not_mem_cons none)]
      cases ys.splitOn a <;> rfl

theorem splitOn_bytes (cs : List Char) :
    (bytes cs).splitOn 10 = (splitAt (· = '\n') cs).map bytes := by
  induction cs with
  | nil => rfl
  | cons c cs ih =>
      rw [bytes, List.flatMap_cons, ← bytes, splitAt_cons]
      by_cases mark : c = '\n'
      · obtain rfl := mark
        rw [if_pos (by decide), List.map_cons, ← ih]
        exact List.splitOn_cons_eq_if_modifyHead 10 (bytes cs)
      · rw [if_neg (by simpa using mark), splitOn_append (newline_not_mem mark), ih]
        cases splitAt (· = '\n') cs <;> rfl

end InferenceSim.Text
