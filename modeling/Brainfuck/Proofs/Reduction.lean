import Brainfuck.Source
import Mathlib.Data.List.Chain

/-!
# Reduced texts

A text is reduced if no two neighbours in it undo each other. Cancelling pairs gives a reduced text (`reduced_cancelPairs`) and
leaves a reduced one as it is (`cancelPairs_of_reduced`). A character that undoes nothing, such as a bracket, is a barrier: what
stands before it and what stands behind it are cancelled apart (`cancelPairs_append_cons`).
-/

namespace Brainfuck.Source

/-- No two neighbours of a text undo each other. -/
def Reduced (text : List Char) : Prop := text.IsChain fun a b => inverse? b ≠ some a

instance (text : List Char) : Decidable (Reduced text) := inferInstanceAs (Decidable (List.IsChain _ _))

/-- Of two commands each undoes the other or none does. -/
theorem inverse?_comm {a b : Char} : inverse? a = some b ↔ inverse? b = some a := by
  have half : ∀ {a b : Char}, inverse? a = some b → inverse? b = some a := by
    intro a b h
    unfold inverse? at h
    split at h <;> cases h <;> rfl
  exact ⟨half, half⟩

/-! ## One more character -/

/-- A character that does not undo the last one of the kept text becomes the last one. -/
theorem settle_eq_cons {kept : List Char} {c : Char} (h : ∀ last ∈ kept.head?, inverse? c ≠ some last) :
    settle kept c = c :: kept := by
  cases kept with
  | nil => rfl
  | cons last before => exact if_neg (h last rfl)

/-- The kept text, read from its end, stays without neighbours that undo each other. -/
theorem isChain_settle {kept : List Char} (h : kept.IsChain fun a b => inverse? a ≠ some b) (c : Char) :
    (settle kept c).IsChain fun a b => inverse? a ≠ some b := by
  cases kept with
  | nil => exact List.isChain_singleton c
  | cons last before =>
    rw [settle]
    split
    · exact h.tail
    · rename_i hne
      exact List.isChain_cons_cons.mpr ⟨hne, h⟩

theorem isChain_foldl_settle (text : List Char) {kept : List Char} (h : kept.IsChain fun a b => inverse? a ≠ some b) :
    (text.foldl settle kept).IsChain fun a b => inverse? a ≠ some b := by
  induction text generalizing kept with
  | nil => exact h
  | cons c text ih => exact ih (isChain_settle h c)

/-- Cancelling pairs leaves none. -/
theorem reduced_cancelPairs (text : List Char) : Reduced (cancelPairs text) :=
  List.isChain_reverse.mpr (isChain_foldl_settle text List.isChain_nil)

/-- A text that goes on from the kept text without undoing anything is kept as a whole. -/
theorem foldl_settle_of_reduced {text kept : List Char} (h : Reduced (kept.reverse ++ text)) :
    text.foldl settle kept = text.reverse ++ kept := by
  induction text generalizing kept with
  | nil => rfl
  | cons c text ih =>
    have hsettle : settle kept c = c :: kept := by
      refine settle_eq_cons ?_
      intro last hlast
      obtain ⟨-, -, hseam⟩ := List.isChain_append.mp h
      exact hseam last (by simpa using hlast) c rfl
    have hrest : Reduced ((c :: kept).reverse ++ text) := by simpa using h
    rw [List.foldl_cons, hsettle, ih hrest]
    simp

/-- A reduced text has no pairs to cancel. -/
theorem cancelPairs_of_reduced {text : List Char} (h : Reduced text) : cancelPairs text = text := by
  rw [cancelPairs, @foldl_settle_of_reduced text [] h]
  simp

theorem subset_settle (kept : List Char) (c : Char) : settle kept c ⊆ c :: kept := by
  cases kept with
  | nil => exact List.Subset.refl _
  | cons last before =>
    rw [settle]
    split
    · intro a ha
      exact List.mem_cons_of_mem c (List.mem_cons_of_mem last ha)
    · exact List.Subset.refl _

/-- What is left when pairs are cancelled was there before. -/
theorem cancelPairs_subset (text : List Char) : cancelPairs text ⊆ text := by
  suffices ∀ kept, text.foldl settle kept ⊆ text ++ kept by
    intro a ha
    simpa using this [] (List.mem_reverse.mp ha)
  induction text with
  | nil => exact fun kept => List.Subset.refl _
  | cons c text ih =>
    intro kept a ha
    rcases List.mem_append.mp (ih (settle kept c) ha) with ha | ha
    · exact List.mem_append_left kept (List.mem_cons_of_mem c ha)
    · rcases List.mem_cons.mp (subset_settle kept c ha) with rfl | ha
      · exact List.mem_cons_self
      · exact List.mem_append_right (c :: text) ha

/-- An optimized text has commands only. -/
theorem isCommand_of_mem_optimize {text : List Char} {c : Char} (h : c ∈ optimize text) : isCommand c = true :=
  List.of_mem_filter (cancelPairs_subset _ h)

/-! ## Barriers -/

/-- What is kept behind a character that undoes nothing is kept apart from what is kept before it. -/
theorem foldl_settle_append_cons {c : Char} (hc : inverse? c = none) (text above below : List Char) :
    text.foldl settle (above ++ c :: below) = text.foldl settle above ++ c :: below := by
  induction text generalizing above with
  | nil => rfl
  | cons a text ih =>
    have hsettle : settle (above ++ c :: below) a = settle above a ++ c :: below := by
      cases above with
      | nil =>
        refine settle_eq_cons ?_
        intro last hlast ha
        cases hlast
        rw [inverse?_comm.mp ha] at hc
        cases hc
      | cons last above =>
        rw [List.cons_append, settle, settle]
        split <;> rfl
    rw [List.foldl_cons, List.foldl_cons, hsettle, ih]

/-- The texts before and behind a character that undoes nothing are cancelled apart. -/
theorem cancelPairs_append_cons {c : Char} (hc : inverse? c = none) (before after : List Char) :
    cancelPairs (before ++ c :: after) = cancelPairs before ++ c :: cancelPairs after := by
  have hbarrier : settle (before.foldl settle []) c = [] ++ c :: before.foldl settle [] := by
    refine settle_eq_cons ?_
    intro last _ hlast
    rw [hc] at hlast
    cases hlast
  simp only [cancelPairs]
  rw [List.foldl_append, List.foldl_cons, hbarrier, foldl_settle_append_cons hc, List.reverse_append, List.reverse_cons,
    List.append_assoc, List.singleton_append]

/-! ## Brackets and comments -/

/-- A character is a bracket. -/
def isBracket (c : Char) : Bool := c == '[' || c == ']'

theorem isBracket_iff {c : Char} : isBracket c = true ↔ c = '[' ∨ c = ']' := by
  rw [isBracket, Bool.or_eq_true, beq_iff_eq, beq_iff_eq]

/-- The texts before and behind a bracket are optimized apart. -/
theorem optimize_append_cons {c : Char} (hc : isBracket c = true) (before after : List Char) :
    optimize (before ++ c :: after) = optimize before ++ c :: optimize after := by
  have hinverse : inverse? c = none := by rcases isBracket_iff.mp hc with rfl | rfl <;> rfl
  have hcommand : isCommand c = true := by rcases isBracket_iff.mp hc with rfl | rfl <;> rfl
  rw [optimize, stripComments, List.filter_append, List.filter_cons_of_pos hcommand, cancelPairs_append_cons hinverse]
  rfl

/-- A character that is settled changes the brackets of the kept text by itself only. -/
theorem filter_isBracket_settle (kept : List Char) (c : Char) :
    (settle kept c).filter isBracket = [c].filter isBracket ++ kept.filter isBracket := by
  cases kept with
  | nil => rw [settle, List.filter_nil, List.append_nil]
  | cons last before =>
    rw [settle]
    split
    · rename_i hinverse
      unfold inverse? at hinverse
      split at hinverse <;> cases hinverse <;> rfl
    · rw [← List.singleton_append, List.filter_append]

/-- Cancelling pairs keeps the brackets. -/
theorem filter_isBracket_cancelPairs (text : List Char) : (cancelPairs text).filter isBracket = text.filter isBracket := by
  suffices ∀ kept, ((text.foldl settle kept).reverse).filter isBracket =
      (kept.reverse).filter isBracket ++ text.filter isBracket from this []
  induction text with
  | nil =>
    intro kept
    simp
  | cons c text ih =>
    intro kept
    rw [List.foldl_cons, ih, List.filter_reverse, filter_isBracket_settle, List.reverse_append, ← List.filter_reverse,
      List.append_assoc, ← List.singleton_append, List.filter_append]
    congr 2
    by_cases hc : isBracket c <;> simp [hc]

/-- Optimizing keeps the brackets. -/
theorem filter_isBracket_optimize (text : List Char) : (optimize text).filter isBracket = text.filter isBracket := by
  rw [optimize, filter_isBracket_cancelPairs, stripComments, List.filter_filter]
  refine List.filter_congr ?_
  intro c _
  cases hc : isBracket c with
  | false => rfl
  | true =>
    rcases isBracket_iff.mp hc with rfl | rfl <;> rfl

end Brainfuck.Source
