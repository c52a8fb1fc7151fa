import Brainfuck.Proofs.Compression

/-!
# The options of a compilation

A source does the same however it is compiled (`runSource_of_options`). Its tokens, one for each character, are the same program
to an observer as those of the optimized text: a comment changes nothing, and neither do two neighbours that undo each other.
Merging runs was seen to give the same program before.
-/

namespace Brainfuck

namespace Program

theorem tokenize_append (source source' : List Char) : tokenize (source ++ source') = tokenize source ++ tokenize source' :=
  List.map_append

/-! ## Comments -/

/-- A comment stands for a no-op. -/
theorem ofChar_of_not_isCommand {c : Char} (h : Source.isCommand c = false) : ∃ payload, Token.ofChar c = .noOp payload := by
  unfold Token.ofChar
  split <;> first | exact ⟨_, rfl⟩ | simp [Source.isCommand] at h

/-- The source without its comments is the same program. -/
theorem same_stripComments (source : List Char) : Same (tokenize source) (tokenize (Source.stripComments source)) := by
  induction source with
  | nil => exact .refl _
  | cons c source ih =>
    cases hc : Source.isCommand c with
    | true =>
      rw [Source.stripComments, List.filter_cons_of_pos hc]
      exact ih.cons (Token.ofChar c)
    | false =>
      rw [Source.stripComments, List.filter_cons_of_neg (by simp [hc])]
      obtain ⟨payload, hpayload⟩ := ofChar_of_not_isCommand hc
      have h : Same (Token.ofChar c :: tokenize source) (tokenize source) :=
        @Same.replace [Token.ofChar c] [] (tokenize source) (by simp [hpayload, Token.isQuiet]) (by simp)
          (by simp [hpayload, Tape.after])
      exact h.trans ih

/-! ## Neighbours that undo each other -/

/-- A command and the one that undoes it only change the tape, and together they leave it as it was. -/
theorem undo_of_inverse? {c last : Char} (h : Source.inverse? c = some last) :
    (Token.ofChar last).isQuiet = true ∧ (Token.ofChar c).isQuiet = true ∧
      ∀ tape : Tape, tape.InRange → (tape.after (Token.ofChar last)).after (Token.ofChar c) = tape := by
  unfold Source.inverse? at h
  have hadd : ∀ {tape : Tape} {a b : Int}, tape.InRange → a + b = 0 → (tape.add a).add b = tape := by
    intro tape a b htape hab
    rw [Tape.add_add htape.onCell, hab, Tape.add_zero]
  have hmove : ∀ {tape : Tape} {a b : Int}, tape.InRange → a + b = 0 → (tape.move a).move b = tape := by
    intro tape a b htape hab
    rw [Tape.move_move, hab, Tape.move_zero htape]
  split at h <;> cases h
  · exact ⟨rfl, rfl, fun tape htape => hadd htape rfl⟩
  · exact ⟨rfl, rfl, fun tape htape => hadd htape rfl⟩
  · exact ⟨rfl, rfl, fun tape htape => hmove htape rfl⟩
  · exact ⟨rfl, rfl, fun tape htape => hmove htape rfl⟩

/-- A character that is settled behind a kept text gives the same program as the character behind the text. -/
theorem same_settle (kept : List Char) (c : Char) (rest : List Char) :
    Same (tokenize (kept.reverse ++ c :: rest)) (tokenize ((Source.settle kept c).reverse ++ rest)) := by
  cases kept with
  | nil => exact .refl _
  | cons last before =>
    rw [Source.settle]
    split
    · rename_i hinverse
      obtain ⟨hlast, hc, hundo⟩ := undo_of_inverse? hinverse
      have h : Same (Token.ofChar last :: Token.ofChar c :: tokenize rest) (tokenize rest) :=
        @Same.replace [Token.ofChar last, Token.ofChar c] [] (tokenize rest) (by simp [hlast, hc]) (by simp)
          (by simpa using hundo)
      simpa [tokenize_append, tokenize] using h.append_left (tokenize before.reverse)
    · have h : (c :: last :: before).reverse ++ rest = (last :: before).reverse ++ c :: rest := by simp
      rw [h]
      exact .refl _

/-- The source without neighbours that undo each other is the same program. -/
theorem same_cancelPairs (source : List Char) : Same (tokenize source) (tokenize (Source.cancelPairs source)) := by
  suffices ∀ kept, Same (tokenize (kept.reverse ++ source)) (tokenize (source.foldl Source.settle kept).reverse) from this []
  induction source with
  | nil => intro kept; simpa using Same.refl _
  | cons c source ih =>
    intro kept
    rw [List.foldl_cons]
    exact (same_settle kept c source).trans (ih _)

/-! ## All settings -/

/-- The tokens of a source that are paired in the end. -/
def unpaired (options : Options) (source : List Char) : List Token :=
  let source := if options.optimize then Source.optimize source else source
  if options.compress then compress (tokenize source) else tokenize source

theorem compile_eq_resolve (options : Options) (source : List Char) :
    compile options source = resolve (unpaired options source) := by
  simp only [compile, unpaired]
  cases options.compress <;> rfl

/-- However a source is compiled, it is the same program as its tokens, one for each character. -/
theorem same_unpaired (options : Options) (source : List Char) : Same (tokenize source) (unpaired options source) := by
  have hsource : Same (tokenize source) (tokenize (if options.optimize then Source.optimize source else source)) := by
    cases options.optimize with
    | true => exact (same_stripComments source).trans (same_cancelPairs _)
    | false => exact .refl _
  rw [unpaired]
  cases options.compress with
  | true => exact hsource.trans (same_compress _)
  | false => exact hsource

/-- A balanced source reads as a block. -/
theorem exists_read {source : List Char} (h : Source.Balanced source) : ∃ b, Block.read (tokenize source) = some [b] :=
  Block.balanced_iff_read.mp (balanced_tokenize_iff.mpr h)

/-- A source with balanced brackets is compiled under all settings. -/
theorem exists_compile {source : List Char} (h : Source.Balanced source) (options : Options) :
    ∃ tokens, compile options source = .ok tokens := by
  obtain ⟨b, hread⟩ := exists_read h
  rw [compile_eq_resolve]
  exact (same_unpaired options source).exists_resolve (Block.resolve_of_read hread)

/-- The programs that two settings make of a source run alike. -/
theorem runsAlike_of_compile {options options' : Options} {source : List Char} {tokens tokens' : List Token} {m : Machine}
    (h : compile options source = .ok tokens) (h' : compile options' source = .ok tokens') (hm : m.tape.InRange) :
    m.RunsAlike tokens tokens' := by
  rw [compile_eq_resolve] at h h'
  exact ((same_unpaired options source).symm.trans (same_unpaired options' source)).runsAlike h h' hm

end Program

/-! ## Runs of a source -/

/-- A run of a source comes to an end with a machine and an outcome. -/
def Machine.SourceEnds (options : Program.Options) (source : List Char) (m m' : Machine) : Outcome → Prop
  | .finished => ∃ steps count, m.runSource steps options source = some (m', .ok count)
  | .failed cause => ∃ steps, m.runSource steps options source = some (m', .error (.runtime cause))

/-- A source that is compiled ends as its program does. -/
theorem Machine.sourceEnds_iff {options : Program.Options} {source : List Char} {tokens : List Token} {m m' : Machine}
    {o : Outcome} (h : Program.compile options source = .ok tokens) :
    m.SourceEnds options source m' o ↔ ∃ steps, m.run steps tokens = some (m', o) := by
  cases o with
  | finished =>
    simp only [SourceEnds, runSource_eq_some_iff, h, Except.ok.injEq, exists_eq_left']
    constructor
    · rintro ⟨steps, count, hrun, -⟩
      exact ⟨steps, hrun⟩
    · rintro ⟨steps, hrun⟩
      exact ⟨steps, _, hrun, rfl⟩
  | failed cause => simp only [SourceEnds, runSource_eq_some_iff, h, Except.ok.injEq, exists_eq_left']

/-- A balanced source does the same under all settings. It is compiled under both; the runs on a machine in use come to the same
ends, so neither ends or both end with the same outcome, tape, cursor and streams; and what has passed through the streams at some
moment of one run has at some moment of the other, also if they go on for ever. A run that fails fails because of a stream. -/
theorem runSource_of_options {source : List Char} (h : Source.Balanced source) (options options' : Program.Options)
    {m : Machine} (hm : m.tape.InRange) :
    ∃ tokens tokens', Program.compile options source = .ok tokens ∧ Program.compile options' source = .ok tokens' ∧
      (∀ m' o, m.SourceEnds options source m' o ↔ m.SourceEnds options' source m' o) ∧
      (∀ input output, m.Passes tokens input output ↔ m.Passes tokens' input output) ∧
      ∀ m' cause, m.SourceEnds options source m' (.failed cause) → cause.ofStream = true := by
  obtain ⟨tokens, htokens⟩ := Program.exists_compile h options
  obtain ⟨tokens', htokens'⟩ := Program.exists_compile h options'
  obtain ⟨hends, hpasses⟩ := Program.runsAlike_of_compile htokens htokens' hm
  refine ⟨tokens, tokens', htokens, htokens', ?_, hpasses, ?_⟩
  · intro m' o
    rw [Machine.sourceEnds_iff htokens, Machine.sourceEnds_iff htokens']
    exact hends m' o
  · intro m' cause hfails
    obtain ⟨steps, hrun⟩ := (Machine.sourceEnds_iff htokens).mp hfails
    rw [Program.compile_eq_resolve] at htokens
    exact Program.ofStream_of_run htokens hm hrun

/-- The source `+[.x+-]` would write for ever. On an output that is full after two bytes it fails in the same way whether or not
the comment and what undoes itself are taken out. -/
theorem runSource_of_options_full :
    Source.Balanced ['+', '[', '.', 'x', '+', '-', ']'] ∧
      (⟨1, .blank 1, {}, ⟨#[], some 2⟩⟩ : Machine).tape.InRange ∧
      ∃ m', m'.output.written = #[1, 1] ∧
        (⟨1, .blank 1, {}, ⟨#[], some 2⟩⟩ : Machine).SourceEnds {} ['+', '[', '.', 'x', '+', '-', ']'] m'
          (.failed .outputFull) ∧
        (⟨1, .blank 1, {}, ⟨#[], some 2⟩⟩ : Machine).SourceEnds ⟨false, false⟩ ['+', '[', '.', 'x', '+', '-', ']'] m'
          (.failed .outputFull) := by
  have hbalanced : Source.Balanced ['+', '[', '.', 'x', '+', '-', ']'] := by decide
  have hm : (⟨1, .blank 1, {}, ⟨#[], some 2⟩⟩ : Machine).tape.InRange := by decide
  obtain ⟨-, -, -, -, hends, -⟩ := runSource_of_options hbalanced {} ⟨false, false⟩ hm
  have h : (⟨1, .blank 1, {}, ⟨#[], some 2⟩⟩ : Machine).SourceEnds {} ['+', '[', '.', 'x', '+', '-', ']'] _
      (.failed .outputFull) := ⟨7, rfl⟩
  exact ⟨hbalanced, hm, _, rfl, h, (hends _ _).mp h⟩

end Brainfuck
