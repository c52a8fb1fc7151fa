/-!
# Text in pieces

A text cut at every occurrence of a separator. There is one piece more than there are separators, so the text without any is its
own only piece, and pieces may be empty.
-/

namespace Brainfuck

/-- The pieces of a text between the occurrences of a character. -/
def cut (separator : Char) : List Char → List (List Char)
  | [] => [[]]
  | c :: rest =>
    if c = separator then [] :: cut separator rest
    else
      match cut separator rest with
      | piece :: more => (c :: piece) :: more
      | [] => [[c]]

theorem cut_ne_nil (separator : Char) (text : List Char) : cut separator text ≠ [] := by
  cases text with
  | nil => simp [cut]
  | cons c rest =>
    rw [cut]
    split
    · simp
    · split <;> simp

/-- The pieces with the separator between them are the text. -/
theorem intercalate_cut (separator : Char) (text : List Char) :
    [separator].intercalate (cut separator text) = text := by
  induction text with
  | nil => rfl
  | cons c rest ih =>
    obtain ⟨piece, more, h⟩ := List.exists_cons_of_ne_nil (cut_ne_nil separator rest)
    rw [cut, h]
    rw [h] at ih
    split
    · rename_i hc
      subst hc
      simp only [List.intercalate, List.intersperse] at ih ⊢
      simp [ih]
    · cases more <;> simp_all [List.intercalate, List.intersperse]

/-- No piece holds the separator. -/
theorem not_mem_of_mem_cut {separator : Char} {text piece : List Char} (h : piece ∈ cut separator text) :
    separator ∉ piece := by
  induction text generalizing piece with
  | nil => simp_all [cut]
  | cons c rest ih =>
    rw [cut] at h
    split at h
    · rcases List.mem_cons.mp h with rfl | h
      · simp
      · exact ih h
    · rename_i hc
      split at h
      · rename_i first more hcut
        rcases List.mem_cons.mp h with rfl | h
        · have := ih (show first ∈ cut separator rest by simp [hcut])
          simp [this, Ne.symm hc]
        · exact ih (by simp [hcut, h])
      · simp_all [Ne.symm hc]

end Brainfuck
