import ChainScript.Text.Blank

/-! # Whole lines

A text that is empty or ends in a line feed holds whole lines, so what follows it starts a line of
its own: `lines_append`. Every text can be cut before each of its lines: `exists_cut`. A carriage
return stands before the line feed that ends its line, so no cut comes between the two.
-/

namespace ChainScript.Text
set_option autoImplicit false

/-- A text is empty or ends in a line feed. -/
def WholeLines (text : String) : Prop :=
  text = "" ∨ text.toList.getLast? = some '\n'

instance (text : String) : Decidable (WholeLines text) :=
  inferInstanceAs (Decidable (text = "" ∨ text.toList.getLast? = some '\n'))

/-- Behind a line feed the lines start anew, whatever was read before it. -/
theorem linesFrom_feed (line front back : List Char) :
    linesFrom line (front ++ '\n' :: back) =
      linesFrom line (front ++ ['\n']) ++ linesFrom [] back := by
  induction front generalizing line with
  | nil => simp [linesFrom]
  | cons c front ih =>
    simp only [List.cons_append, linesFrom]
    split
    · rw [ih, List.cons_append]
    · exact ih (c :: line)

theorem lines_append {front : String} (h : WholeLines front) (back : String) :
    lines (front ++ back) = lines front ++ lines back := by
  rcases h with rfl | h
  · rw [String.empty_append]
    rfl
  · obtain ⟨cs, hcs⟩ := List.getLast?_eq_some_iff.mp h
    rw [lines, lines, lines, String.toList_append, hcs, List.append_assoc, List.singleton_append,
      linesFrom_feed, List.map_append]

theorem exists_feed {line cs : List Char} {k : Nat} (hpos : 0 < k)
    (hk : k < (linesFrom line cs).length) :
    ∃ front back, cs = front ++ '\n' :: back ∧
      linesFrom line (front ++ ['\n']) = (linesFrom line cs).take k := by
  induction cs generalizing line k with
  | nil =>
    rw [linesFrom] at hk
    split at hk <;> simp at hk
    omega
  | cons c rest ih =>
    by_cases hc : c = '\n'
    · subst hc
      have hlines : linesFrom line ('\n' :: rest) = endLine line :: linesFrom [] rest := by
        rw [linesFrom, if_pos rfl]
      rw [hlines] at hk ⊢
      obtain ⟨j, rfl⟩ : ∃ j, k = j + 1 := ⟨k - 1, by omega⟩
      rw [List.take_succ_cons]
      rcases Nat.eq_zero_or_pos j with rfl | hj
      · exact ⟨[], rest, rfl, by simp [linesFrom]⟩
      · obtain ⟨front, back, rfl, hfront⟩ := ih hj (by simpa using hk)
        refine ⟨'\n' :: front, back, rfl, ?_⟩
        rw [← hfront, List.cons_append, linesFrom, if_pos rfl]
    · have hlines : linesFrom line (c :: rest) = linesFrom (c :: line) rest := by
        rw [linesFrom, if_neg hc]
      rw [hlines] at hk ⊢
      obtain ⟨front, back, rfl, hfront⟩ := ih hpos hk
      refine ⟨c :: front, back, rfl, ?_⟩
      rw [← hfront, List.cons_append, linesFrom, if_neg hc]

/-- A text can be cut before any of its lines. -/
theorem exists_cut {text : String} {k : Nat} (hk : k < (lines text).length) :
    ∃ front back, text = front ++ back ∧ WholeLines front ∧ lines front = (lines text).take k := by
  rcases Nat.eq_zero_or_pos k with rfl | hpos
  · exact ⟨"", text, String.empty_append.symm, .inl rfl, rfl⟩
  · rw [lines, List.length_map] at hk
    obtain ⟨front, back, htext, hfront⟩ := exists_feed hpos hk
    refine ⟨String.ofList (front ++ ['\n']), String.ofList back, ?_, .inr ?_, ?_⟩
    · rw [← String.ofList_append, List.append_assoc, List.singleton_append, ← htext,
        String.ofList_toList]
    · rw [String.toList_ofList, List.getLast?_concat]
    · rw [lines, lines, String.toList_ofList, hfront, List.map_take]

end ChainScript.Text
