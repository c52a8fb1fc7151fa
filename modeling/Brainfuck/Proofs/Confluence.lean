import Brainfuck.Proofs.Cancelling
import Mathlib.Logic.Relation

/-!
# Deleting pairs in any order

A pair is a command followed by the one that undoes it. Here pairs are deleted from a text one at a time, wherever they stand
(`Deletes`). What cancelling leaves of a text has no pair, and it can be reached by such deletions
(`reflTransGen_deletes_cancelPairs`). A deletion leaves a text that cancels like the one before (`Deletes.alike`), so all orders of
deletions come to the same text in the end (`cancelPairs_confluent`), and what cancelling leaves of a long text can be found from what
it leaves of the parts.
-/

namespace Brainfuck.Source

/-- The texts of two commands that undo each other. -/
def pairs : List (List Char) := [['+', '-'], ['-', '+'], ['<', '>'], ['>', '<']]

/-- The second text is the first one without one of its pairs. -/
inductive Deletes : List Char → List Char → Prop where
  | pair (before : List Char) {pair : List Char} (h : pair ∈ pairs) (after : List Char) :
      Deletes (before ++ pair ++ after) (before ++ after)

open Relation

variable {s t u v pair : List Char}

theorem mem_pairs_iff : pair ∈ pairs ↔ ∃ c d, pair = [c, d] ∧ inverse? d = some c := by
  constructor
  · intro h
    simp only [pairs, List.mem_cons, List.not_mem_nil, or_false] at h
    rcases h with rfl | rfl | rfl | rfl <;> exact ⟨_, _, rfl, rfl⟩
  · rintro ⟨c, d, rfl, h⟩
    unfold inverse? at h
    split at h <;> cases h <;> simp [pairs]

/-! ## Texts without pairs -/

/-- A text is reduced exactly if it has no pair. -/
theorem reduced_iff_forall_pairs : Reduced t ↔ ∀ pair ∈ pairs, ¬ pair <:+: t := by
  rw [Reduced, List.isChain_iff_forall_rel_of_append_cons_cons]
  constructor
  · intro h pair hpair
    obtain ⟨c, d, rfl, hundo⟩ := mem_pairs_iff.mp hpair
    rintro ⟨before, after, rfl⟩
    exact h (List.append_assoc before [c, d] after) hundo
  · intro h c d before after ht hundo
    refine h [c, d] (mem_pairs_iff.mpr ⟨c, d, rfl, hundo⟩) ⟨before, after, ?_⟩
    rw [ht, List.append_assoc]
    rfl

/-- A text from which no pair can be deleted is reduced. -/
theorem reduced_of_forall_not_deletes (h : ∀ u, ¬ Deletes t u) : Reduced t := by
  refine reduced_iff_forall_pairs.mpr ?_
  rintro pair hpair ⟨before, after, rfl⟩
  exact h _ (.pair before hpair after)

/-! ## One deletion -/

theorem Deletes.length_eq (h : Deletes t u) : t.length = u.length + 2 := by
  obtain ⟨before, hpair, after⟩ := h
  obtain ⟨c, d, rfl, -⟩ := mem_pairs_iff.mp hpair
  simp
  omega

theorem Deletes.append_right (h : Deletes t u) (v : List Char) : Deletes (t ++ v) (u ++ v) := by
  obtain ⟨before, hpair, after⟩ := h
  rw [List.append_assoc, List.append_assoc before after]
  exact .pair before hpair (after ++ v)

/-- A text without one of its pairs cancels like the text. -/
theorem Deletes.alike (h : Deletes t u) : Alike t u := by
  obtain ⟨before, hpair, after⟩ := h
  obtain ⟨c, d, rfl, hundo⟩ := mem_pairs_iff.mp hpair
  have hbefore := (Alike.refl before).append (alike_pair hundo)
  rw [List.append_nil] at hbefore
  exact hbefore.append (.refl after)

theorem stripComments_append (u v : List Char) : stripComments (u ++ v) = stripComments u ++ stripComments v :=
  List.filter_append u v

/-- A pair stands among the commands, so it is one of the text without comments too. -/
theorem Deletes.stripComments (h : Deletes t u) : Deletes (stripComments t) (stripComments u) := by
  obtain ⟨before, hpair, after⟩ := h
  have hkept : ∀ pair ∈ pairs, Source.stripComments pair = pair := by decide
  rw [stripComments_append, stripComments_append, stripComments_append, hkept _ hpair]
  exact .pair _ hpair _

/-! ## Many deletions -/

theorem alike_of_reflTransGen (h : ReflTransGen Deletes t u) : Alike t u := by
  induction h with
  | refl => exact .refl t
  | tail _ hstep ih => exact ih.trans hstep.alike

/-- Settling a character behind the kept text deletes a pair or nothing. -/
theorem reflTransGen_deletes_settle (kept : List Char) (c : Char) :
    ReflTransGen Deletes (kept.reverse ++ [c]) (settle kept c).reverse := by
  cases kept with
  | nil => exact .refl
  | cons last before =>
    rw [settle]
    split
    · rename_i hundo
      have hpair : [last, c] ∈ pairs := mem_pairs_iff.mpr ⟨last, c, rfl, hundo⟩
      have hstep := Deletes.pair before.reverse hpair []
      rw [List.append_nil, List.append_nil] at hstep
      rw [List.reverse_cons, List.append_assoc]
      exact .single hstep
    · have hkept : (c :: last :: before).reverse = (last :: before).reverse ++ [c] := List.reverse_cons
      rw [hkept]

/-- What cancelling leaves of a text can be reached by deleting pairs. -/
theorem reflTransGen_deletes_cancelPairs (s : List Char) : ReflTransGen Deletes s (cancelPairs s) := by
  suffices ∀ kept : List Char, ReflTransGen Deletes (kept.reverse ++ s) (s.foldl settle kept).reverse from this []
  induction s with
  | nil =>
    intro kept
    rw [List.append_nil]
    exact .refl
  | cons c s ih =>
    intro kept
    have hsettle := (reflTransGen_deletes_settle kept c).lift (· ++ s) fun _ _ h => h.append_right s
    rw [← List.singleton_append, ← List.append_assoc]
    exact hsettle.trans (ih (settle kept c))

theorem alike_cancelPairs (s : List Char) : Alike s (cancelPairs s) :=
  alike_of_reflTransGen (reflTransGen_deletes_cancelPairs s)

/-! ## Cancelling in parts -/

theorem cancelPairs_cancelPairs (s : List Char) : cancelPairs (cancelPairs s) = cancelPairs s :=
  cancelPairs_of_reduced (reduced_cancelPairs s)

theorem cancelPairs_append (u v : List Char) : cancelPairs (u ++ v) = cancelPairs (cancelPairs u ++ cancelPairs v) :=
  ((alike_cancelPairs u).append (alike_cancelPairs v)).cancelPairs_eq

theorem stripComments_append_optimize (u v : List Char) :
    stripComments (optimize u ++ optimize v) = optimize u ++ optimize v := by
  refine List.filter_eq_self.mpr ?_
  intro c hc
  rcases List.mem_append.mp hc with hc | hc
  · exact isCommand_of_mem_optimize hc
  · exact isCommand_of_mem_optimize hc

/-- Optimizing a text is optimizing its parts and then what is left of them. -/
theorem optimize_append (u v : List Char) : optimize (u ++ v) = optimize (optimize u ++ optimize v) := by
  rw [optimize, stripComments_append, cancelPairs_append, optimize.eq_def (optimize u ++ optimize v), stripComments_append_optimize,
    optimize, optimize]

theorem optimize_optimize (s : List Char) : optimize (optimize s) = optimize s := by
  have happend := optimize_append s []
  rw [List.append_nil, show optimize [] = [] from rfl, List.append_nil] at happend
  exact happend.symm

/-- Pairs may be cancelled before the comments are taken out as well. -/
theorem optimize_cancelPairs (s : List Char) : optimize (cancelPairs s) = optimize s := by
  have hstrip := (reflTransGen_deletes_cancelPairs s).lift stripComments fun _ _ h => h.stripComments
  exact (alike_of_reflTransGen hstrip).cancelPairs_eq.symm

/-! ## One text for all orders -/

/-- Cancelling leaves the one text that deletions of pairs come to. It has no pair. It can be reached by deleting pairs; and a text
that is reached by deleting pairs in some other order is on the way to it, and is it if nothing is left to delete, which is the case in
the end since texts get shorter. So a pair may be deleted before cancelling, cancelling again changes nothing, and a text may be
cancelled in parts first; the same holds of optimizing, before which pairs may be cancelled too. -/
theorem cancelPairs_confluent :
    (∀ s, (∀ pair ∈ pairs, ¬ pair <:+: cancelPairs s) ∧ ReflTransGen Deletes s (cancelPairs s) ∧
      ∀ t, ReflTransGen Deletes s t →
        ReflTransGen Deletes t (cancelPairs s) ∧ ((∀ u, ¬ Deletes t u) → t = cancelPairs s)) ∧
    (∀ t u, Deletes t u → u.length < t.length) ∧
    (∀ pair ∈ pairs, ∀ u v, cancelPairs (u ++ pair ++ v) = cancelPairs (u ++ v)) ∧
    (∀ s, cancelPairs (cancelPairs s) = cancelPairs s) ∧
    (∀ u v, cancelPairs (u ++ v) = cancelPairs (cancelPairs u ++ cancelPairs v)) ∧
    (∀ s, optimize (optimize s) = optimize s) ∧
    (∀ u v, optimize (u ++ v) = optimize (optimize u ++ optimize v)) ∧
    ∀ s, optimize (cancelPairs s) = optimize s := by
  refine ⟨?_, ?_, ?_, cancelPairs_cancelPairs, cancelPairs_append, optimize_optimize, optimize_append, optimize_cancelPairs⟩
  · intro s
    refine ⟨reduced_iff_forall_pairs.mp (reduced_cancelPairs s), reflTransGen_deletes_cancelPairs s, ?_⟩
    intro t ht
    have hsame := (alike_of_reflTransGen ht).cancelPairs_eq
    refine ⟨?_, ?_⟩
    · rw [hsame]
      exact reflTransGen_deletes_cancelPairs t
    · intro hdone
      rw [hsame, cancelPairs_of_reduced (reduced_of_forall_not_deletes hdone)]
  · intro t u h
    rw [h.length_eq]
    omega
  · intro pair hpair u v
    exact (Deletes.pair u hpair v).alike.cancelPairs_eq

/-- From `+-+` either of two overlapping pairs may be deleted, and `+` is left both times. In `<-+x->` a comment stands in the way of
what would otherwise cancel as a whole. -/
theorem cancelPairs_confluent_overlap :
    ReflTransGen Deletes ['+', '-', '+'] ['+'] ∧ (∀ u, ¬ Deletes ['+'] u) ∧ ['+'] = cancelPairs ['+', '-', '+'] ∧
      ['-', '+'] ∈ pairs ∧ cancelPairs ['<', '-', '+', 'x', '-', '>'] = cancelPairs ['<', 'x', '-', '>'] ∧
      optimize (cancelPairs ['<', '-', '+', 'x', '-', '>']) = ['<', '-', '>'] := by
  obtain ⟨hnormal, -, hpair, -, -, -, -, hoptimize⟩ := cancelPairs_confluent
  have hdeletes : ReflTransGen Deletes ['+', '-', '+'] ['+'] :=
    .single (.pair ['+'] (show ['-', '+'] ∈ pairs by decide) [])
  have hdone : ∀ u, ¬ Deletes ['+'] u := by
    intro u hu
    have hlength := hu.length_eq
    simp at hlength
  refine ⟨hdeletes, hdone, ((hnormal _).2.2 _ hdeletes).2 hdone, by decide, ?_, ?_⟩
  · exact hpair ['-', '+'] (by decide) ['<'] ['x', '-', '>']
  · rw [hoptimize]
    rfl

end Brainfuck.Source
