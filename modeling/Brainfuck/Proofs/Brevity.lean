import Brainfuck.Proofs.Blame
import Brainfuck.Proofs.Confluence
import Brainfuck.Proofs.Convergence

/-!
# The shortest program

Of all programs that the settings make of a source, the default one has the fewest tokens, and no source with the same optimized text
has a shorter program under any setting (`length_compile_le`).

Merging one round and optimizing the text do not compare token by token: a run that comes to nothing takes its token away, and may be
needed again a moment later. Compared are therefore the ends that both come to. Tokens without no-ops can be merged round after round,
each round shorter than the one before, and what they come to is what the text that cancelling leaves of theirs is merged into
(`length_compress_cancelPairs_le`). The optimized source is that text for every setting (`optimize_toSource_unpaired`), comments
apart, which have tokens of their own.
-/

namespace Brainfuck

/-- A token is not a no-op. -/
def Token.isCommand (t : Token) : Bool := t.kind != .noOp

/-- A token stands for a comment. -/
def Token.IsComment (t : Token) : Prop := ∃ c, Source.isCommand c = false ∧ t = .ofChar c

namespace Source

theorem length_cancelPairs_le (text : List Char) : (cancelPairs text).length ≤ text.length := by
  have hdeletes := reflTransGen_deletes_cancelPairs text
  generalize cancelPairs text = left at hdeletes
  induction hdeletes with
  | refl => exact Nat.le_refl _
  | tail _ hstep ih =>
    have hlength := hstep.length_eq
    omega

theorem length_optimize_le (text : List Char) : (optimize text).length ≤ text.length :=
  Nat.le_trans (length_cancelPairs_le _) (List.length_filter_le isCommand text)

end Source

namespace Program

variable {source source' : List Char} {tokens ts : List Token} {options : Options}

/-! ## Merging to the end -/

theorem length_compress_le (ts : List Token) : (compress ts).length ≤ ts.length := by
  have hle := length_compressFrom_le 0 0 ts
  rwa [show (arithmetic 0).length + (move 0).length = 0 from rfl, Nat.zero_add] at hle

theorem isNormal_compress (h : ∀ t ∈ ts, t.IsNormal) : ∀ t ∈ compress ts, t.IsNormal := by
  refine forall_mem_compressFrom ?_ h 0 0
  intro n hn
  exact ⟨hn, hn, hn, hn⟩

/-- Tokens without no-ops are at least as many as the text that cancelling leaves of theirs is merged into. -/
theorem length_compress_cancelPairs_le (h : ∀ t ∈ ts, t.IsNormal) :
    (compress (tokenize (Source.cancelPairs (toSource ts)))).length ≤ ts.length := by
  -- by induction on the number of tokens, which a round makes smaller until there is nothing to merge
  induction hlength : ts.length using Nat.strong_induction_on generalizing ts with
  | _ n ih =>
    rcases merged_or_length_lt ts with hmerged | hlt
    · have hshaped : Shaped ts := ⟨h, hmerged.apart⟩
      rw [Source.cancelPairs_of_reduced hshaped.reduced, compress_tokenize_toSource hshaped, List.length_map, List.length_map,
        hlength]
    · have hrest := ih (compress ts).length (by omega) (isNormal_compress h) rfl
      rw [cancelPairs_toSource_compress] at hrest
      omega

/-! ## Tokens of comments -/

/-- The tokens of a source are those of its commands, merged or not, and those of its comments. -/
theorem isNormal_or_isComment (options : Options) (source : List Char) :
    ∀ t ∈ unpaired options source, t.IsNormal ∨ t.IsComment := by
  have htokenize : ∀ text : List Char, ∀ t ∈ tokenize text, t.IsNormal ∨ t.IsComment := by
    intro text t ht
    obtain ⟨c, -, rfl⟩ := List.mem_map.mp ht
    cases hc : Source.isCommand c with
    | true => exact Or.inl (Token.isNormal_ofChar hc)
    | false => exact Or.inr ⟨c, hc, rfl⟩
  rw [unpaired]
  cases options.compress with
  | true =>
    rw [if_pos rfl]
    refine forall_mem_compressFrom ?_ (htokenize _) 0 0
    intro n hn
    exact ⟨Or.inl hn, Or.inl hn, Or.inl hn, Or.inl hn⟩
  | false =>
    rw [if_neg Bool.false_ne_true]
    exact htokenize _

theorem isCommand_of_isNormal {t : Token} (h : t.IsNormal) : t.isCommand = true := by
  cases t <;> first | rfl | exact h.elim

theorem isCommand_of_isComment {t : Token} (h : t.IsComment) : t.isCommand = false := by
  obtain ⟨c, hc, rfl⟩ := h
  obtain ⟨payload, hpayload⟩ := ofChar_of_not_isCommand hc
  rw [hpayload]
  rfl

/-- The text without comments is that of the tokens that are not no-ops. -/
theorem toSource_filter_isCommand (h : ∀ t ∈ ts, t.IsNormal ∨ t.IsComment) :
    toSource (ts.filter Token.isCommand) = Source.stripComments (toSource ts) := by
  induction ts with
  | nil => rfl
  | cons t ts ih =>
    obtain ⟨ht, hts⟩ := List.forall_mem_cons.mp h
    rw [toSource_cons, Source.stripComments_append, ← ih hts]
    rcases ht with ht | ht
    · obtain ⟨c, k, hsource, hcommand, -⟩ := exists_replicate ht
      rw [List.filter_cons_of_pos (isCommand_of_isNormal ht), toSource_cons, hsource, Source.stripComments,
        List.filter_replicate_of_pos hcommand]
    · rw [List.filter_cons_of_neg (by simp [isCommand_of_isComment ht])]
      obtain ⟨c, hc, rfl⟩ := ht
      rw [sourceOf_ofChar, Source.stripComments, List.filter_cons_of_neg (by simp [hc])]
      rfl

/-! ## The tokens of all settings -/

/-- The text of the tokens of a source, optimized, is the optimized source, under all settings. -/
theorem optimize_toSource_unpaired (options : Options) (source : List Char) :
    Source.optimize (toSource (unpaired options source)) = Source.optimize source := by
  have hmerge : ∀ text : List Char, Source.optimize (toSource (compress (tokenize text))) = Source.optimize text := by
    intro text
    rw [← Source.optimize_cancelPairs, cancelPairs_toSource_compress, Source.optimize_cancelPairs, toSource_tokenize]
  obtain ⟨optimize, merge⟩ := options
  cases optimize <;> cases merge
  · exact congrArg Source.optimize (toSource_tokenize source)
  · exact hmerge source
  · exact (congrArg Source.optimize (toSource_tokenize _)).trans (Source.optimize_optimize source)
  · exact (hmerge _).trans (Source.optimize_optimize source)

/-- No setting makes fewer tokens than the default one does of a source with the same optimized text. -/
theorem length_unpaired_le (h : Source.optimize source' = Source.optimize source) (options : Options) :
    (unpaired {} source).length ≤ (unpaired options source').length := by
  let commands := (unpaired options source').filter Token.isCommand
  have hnormal : ∀ t ∈ commands, t.IsNormal := by
    intro t ht
    obtain ⟨hmem, hkind⟩ := List.mem_filter.mp ht
    rcases isNormal_or_isComment options source' t hmem with hnormal | hcomment
    · exact hnormal
    · rw [isCommand_of_isComment hcomment] at hkind
      cases hkind
  have htext : Source.cancelPairs (toSource commands) = Source.optimize source := by
    rw [toSource_filter_isCommand (isNormal_or_isComment options source'), ← h, ← optimize_toSource_unpaired options source']
    rfl
  have hle := length_compress_cancelPairs_le hnormal
  rw [htext] at hle
  exact Nat.le_trans hle (List.length_filter_le _ _)

theorem length_of_compile (h : compile options source = .ok tokens) : tokens.length = (unpaired options source).length := by
  rw [compile_eq_resolve] at h
  have hlength := congrArg List.length (map_untarget_of_resolve h)
  rwa [List.length_map, List.length_map] at hlength

/-- A source is balanced if another one with the same optimized text is. -/
theorem balanced_of_optimize_eq (h : Source.Balanced source) (heq : Source.optimize source' = Source.optimize source) :
    Source.Balanced source' := by
  have hunpaired : unpaired {} source' = unpaired {} source := congrArg (compress <| tokenize ·) heq
  have htokens : Balanced (unpaired {} source) := closesAll_unpaired_iff.mpr h
  rw [← hunpaired] at htokens
  exact closesAll_unpaired_iff.mp htokens

/-- The default compilation is never longer than any other. A balanced source is compiled under all settings, to so many tokens under
each of them as a run that ends well reports. By merging there are no more than without, and by optimizing the source there are no more
than without; and there is no setting and no source with the same optimized text, which is then balanced too, with fewer tokens than the
source has by default. -/
theorem length_compile_le (h : Source.Balanced source) :
    ∃ count : Options → Nat,
      (∀ options, ∃ tokens, compile options source = .ok tokens ∧ tokens.length = count options) ∧
      (∀ options steps m m' reported, Machine.runSource steps options source m = some (m', .ok reported) →
        reported = count options) ∧
      count ⟨true, true⟩ ≤ count ⟨false, true⟩ ∧ count ⟨false, true⟩ ≤ count ⟨false, false⟩ ∧
      count ⟨true, true⟩ ≤ count ⟨true, false⟩ ∧ count ⟨true, false⟩ ≤ count ⟨false, false⟩ ∧
      ∀ source', Source.optimize source' = Source.optimize source → ∀ options,
        ∃ tokens, compile options source' = .ok tokens ∧ count ⟨true, true⟩ ≤ tokens.length := by
  refine ⟨fun options => (unpaired options source).length, ?_, ?_, ?_, ?_, ?_, ?_, ?_⟩
  · intro options
    obtain ⟨tokens, htokens⟩ := exists_compile h options
    exact ⟨tokens, htokens, length_of_compile htokens⟩
  · intro options steps m m' reported hrun
    obtain ⟨tokens, htokens, -, rfl⟩ := Machine.runSource_eq_some_iff.mp hrun
    exact length_of_compile htokens
  · exact length_unpaired_le rfl _
  · exact length_compress_le (tokenize source)
  · exact length_unpaired_le rfl _
  · simp only [unpaired, if_true, Bool.false_eq_true, if_false, tokenize, List.length_map]
    exact Source.length_optimize_le source
  · intro source' heq options
    obtain ⟨tokens, htokens⟩ := exists_compile (balanced_of_optimize_eq h heq) options
    refine ⟨tokens, htokens, ?_⟩
    rw [length_of_compile htokens]
    exact length_unpaired_le heq options

/-- The source `+<+->+[x]` has nine tokens if every character has one and seven if runs are merged, since the arithmetic in the middle
comes to nothing and leaves the moves apart. By default it has three, and so has `++[]`, which no setting makes shorter. -/
theorem length_compile_le_nested :
    Source.Balanced ['+', '<', '+', '-', '>', '+', '[', 'x', ']'] ∧
      Source.optimize ['+', '+', '[', ']'] = Source.optimize ['+', '<', '+', '-', '>', '+', '[', 'x', ']'] ∧
      ∃ count : Options → Nat,
        count ⟨false, false⟩ = 9 ∧ count ⟨false, true⟩ = 7 ∧ count ⟨true, false⟩ = 4 ∧ count ⟨true, true⟩ = 3 ∧
        count ⟨true, true⟩ ≤ count ⟨false, true⟩ ∧
        ∀ options, ∃ tokens, compile options ['+', '+', '[', ']'] = .ok tokens ∧ 3 ≤ tokens.length := by
  have hbalanced : Source.Balanced ['+', '<', '+', '-', '>', '+', '[', 'x', ']'] := by decide
  have hsame : Source.optimize ['+', '+', '[', ']'] = Source.optimize ['+', '<', '+', '-', '>', '+', '[', 'x', ']'] := rfl
  obtain ⟨count, hcount, -, hmerged, -, -, -, hleast⟩ := length_compile_le hbalanced
  have hvalue : ∀ options tokens, compile options ['+', '<', '+', '-', '>', '+', '[', 'x', ']'] = .ok tokens →
      count options = tokens.length := by
    intro options tokens htokens
    obtain ⟨tokens', htokens', hlength⟩ := hcount options
    rw [htokens] at htokens'
    cases htokens'
    exact hlength.symm
  have hdefault : count ⟨true, true⟩ = 3 := hvalue ⟨true, true⟩ _ rfl
  refine ⟨hbalanced, hsame, count, hvalue ⟨false, false⟩ _ rfl, hvalue ⟨false, true⟩ _ rfl, hvalue ⟨true, false⟩ _ rfl, hdefault,
    hmerged, ?_⟩
  intro options
  have hleast := hleast _ hsame options
  rwa [hdefault] at hleast

end Program

end Brainfuck
