import Brainfuck.Proofs.Options
import Brainfuck.Proofs.Reduction

/-!
# The bracket to blame

A source that cannot be compiled has one bracket that is to blame, whatever the options are (`compile_blames`). It is an end behind
a balanced text, or else a start from which on nothing but balanced text follows (`Source.Blamed`). Optimizing and merging keep the
brackets of a text and do not reach across them, so under all settings the tokens of the text before this bracket are those before
the token of the bracket, and how many there are is the index that is reported.
-/

namespace Brainfuck

/-! ## The letter to blame in a word -/

/-- A letter of a word is to blame for what has no partner, if `depth` brackets are open before the word: it closes one more than
are open, and what stands before it closes all the others; or nothing before it does so, and it opens a bracket and is followed by
a balanced word. -/
def Blamed {α : Type} (opens closes : α → Bool) (depth : Nat) (before : List α) (a : α) (after : List α) : Prop :=
  (closes a = true ∧ ClosesAll opens closes depth before) ∨
    (opens a = true ∧ ClosesWithin opens closes depth before ∧ Balanced opens closes after)

section Word

variable {α : Type} {opens closes : α → Bool} {depth : Nat} {a b : α} {before after : List α}

theorem blamed_cons_of_opens (ho : opens b = true) (hc : closes b = false) :
    Blamed opens closes depth (b :: before) a after ↔ Blamed opens closes (depth + 1) before a after := by
  rw [Blamed, Blamed, closesAll_cons_of_opens ho hc, closesWithin_cons_of_opens ho hc]

theorem blamed_cons_of_closes (ho : opens b = false) (hc : closes b = true) :
    Blamed opens closes depth (b :: before) a after ↔
      ∃ outer, depth = outer + 1 ∧ Blamed opens closes outer before a after := by
  rw [Blamed, closesAll_cons_of_closes ho hc, closesWithin_cons_of_closes ho hc]
  constructor
  · intro h
    rcases h with ⟨ha, outer, rfl, hbefore⟩ | ⟨ha, ⟨outer, rfl, hbefore⟩, hafter⟩
    · exact ⟨outer, rfl, Or.inl ⟨ha, hbefore⟩⟩
    · exact ⟨outer, rfl, Or.inr ⟨ha, hbefore, hafter⟩⟩
  · intro h
    obtain ⟨outer, rfl, h⟩ := h
    rcases h with ⟨ha, hbefore⟩ | ⟨ha, hbefore, hafter⟩
    · exact Or.inl ⟨ha, outer, rfl, hbefore⟩
    · exact Or.inr ⟨ha, ⟨outer, rfl, hbefore⟩, hafter⟩

theorem blamed_cons_of_neither (ho : opens b = false) (hc : closes b = false) :
    Blamed opens closes depth (b :: before) a after ↔ Blamed opens closes depth before a after := by
  rw [Blamed, Blamed, closesAll_cons_of_neither ho hc, closesWithin_cons_of_neither ho hc]

/-- A word closes what it opens, and some of the brackets that were open before it, or one of its letters is to blame. -/
theorem closesAll_or_exists_blamed (hdisjoint : ∀ a, opens a = true → closes a = false) (depth : Nat) (word : List α) :
    (∃ inner, inner ≤ depth ∧ ClosesAll opens closes inner word) ∨
      ∃ before a after, word = before ++ a :: after ∧ Blamed opens closes depth before a after := by
  induction word generalizing depth with
  | nil => exact Or.inl ⟨0, Nat.zero_le _, closesAll_nil_iff.mpr rfl⟩
  | cons b word ih =>
    cases ho : opens b with
    | true =>
      have hc := hdisjoint b ho
      rcases ih (depth + 1) with ⟨inner, hle, hword⟩ | ⟨before, a, after, rfl, hblamed⟩
      · cases inner with
        | zero => exact Or.inr ⟨[], b, word, rfl, Or.inr ⟨ho, closesWithin_nil, hword⟩⟩
        | succ inner => exact Or.inl ⟨inner, by omega, (closesAll_cons_of_opens ho hc).mpr hword⟩
      · exact Or.inr ⟨b :: before, a, after, rfl, (blamed_cons_of_opens ho hc).mpr hblamed⟩
    | false =>
      cases hc : closes b with
      | true =>
        cases depth with
        | zero => exact Or.inr ⟨[], b, word, rfl, Or.inl ⟨hc, closesAll_nil_iff.mpr rfl⟩⟩
        | succ depth =>
          rcases ih depth with ⟨inner, hle, hword⟩ | ⟨before, a, after, rfl, hblamed⟩
          · exact Or.inl ⟨inner + 1, by omega, (closesAll_cons_of_closes ho hc).mpr ⟨inner, rfl, hword⟩⟩
          · exact Or.inr ⟨b :: before, a, after, rfl, (blamed_cons_of_closes ho hc).mpr ⟨depth, rfl, hblamed⟩⟩
      | false =>
        rcases ih depth with ⟨inner, hle, hword⟩ | ⟨before, a, after, rfl, hblamed⟩
        · exact Or.inl ⟨inner, hle, (closesAll_cons_of_neither ho hc).mpr hword⟩
        · exact Or.inr ⟨b :: before, a, after, rfl, (blamed_cons_of_neither ho hc).mpr hblamed⟩

end Word

/-- A bracket of a source is to blame for a failed compilation: an end behind a balanced text, or a start before a balanced text and
behind one without ends that have no partner. -/
def Source.Blamed (before : List Char) (bracket : Char) (after : List Char) : Prop :=
  Brainfuck.Blamed (· == '[') (· == ']') 0 before bracket after

/-- A source is balanced or has a bracket that is to blame. -/
theorem Source.balanced_or_exists_blamed (source : List Char) :
    Source.Balanced source ∨ ∃ before bracket after, source = before ++ bracket :: after ∧ Source.Blamed before bracket after := by
  have hdisjoint : ∀ c : Char, (c == '[') = true → (c == ']') = false := by
    intro c hc
    rw [beq_iff_eq.mp hc]
    rfl
  rcases closesAll_or_exists_blamed hdisjoint 0 source with ⟨inner, hle, hsource⟩ | hblamed
  · obtain rfl : inner = 0 := Nat.le_zero.mp hle
    exact Or.inl hsource
  · exact Or.inr hblamed

theorem Source.Blamed.isBracket {before after : List Char} {bracket : Char} (h : Source.Blamed before bracket after) :
    Source.isBracket bracket = true := by
  rw [Source.isBracket_iff]
  rcases h with ⟨hcloses, -⟩ | ⟨hopens, -⟩
  · exact Or.inr (beq_iff_eq.mp hcloses)
  · exact Or.inl (beq_iff_eq.mp hopens)

/-! ## Pairing reports the token to blame -/

namespace Program

/-- A token of a program is to blame, if `depth` starts are open before the program. -/
def Blamed (depth : Nat) (before : List Token) (t : Token) (after : List Token) : Prop :=
  Brainfuck.Blamed (fun t : Token => t.kind == .loopStart) (fun t : Token => t.kind == .loopEnd) depth before t after

/-- Balanced tokens are paired on the spot, and the open starts stay as they are. -/
theorem exists_resolveFrom_of_balanced {ts : List Token} (h : Balanced ts) (starts : List Nat) (paired : Array Token) :
    ∃ paired', resolveFrom starts paired ts = resolveFrom starts paired' [] := by
  obtain ⟨b, hread⟩ := Block.balanced_iff_read.mp h
  have htokens := Block.tokens_of_ofTokens? (Block.ofTokens?_eq_some_iff.mpr hread)
  have hresolve := Block.resolveFrom_append (Block.plain_of_read hread b (by simp)) htokens.symm starts paired []
  rw [List.append_nil] at hresolve
  exact ⟨_, hresolve⟩

/-- Pairing fails at the token that is to blame, given as many open starts as it is to be blamed with. -/
theorem resolveFrom_of_blamed {before after : List Token} {t : Token} {starts : List Nat} (paired : Array Token)
    (h : Blamed starts.length before t after) :
    resolveFrom starts paired (before ++ t :: after) = .error ⟨paired.size + before.length⟩ := by
  induction before generalizing starts paired with
  | nil =>
    rcases h with ⟨hcloses, hbefore⟩ | ⟨hopens, -, hafter⟩
    · obtain rfl : starts = [] := List.eq_nil_of_length_eq_zero (closesAll_nil_iff.mp hbefore)
      cases t with
      | loopEnd target => rfl
      | _ => cases hcloses
    · cases t with
      | loopStart target =>
        obtain ⟨paired', hresolve⟩ :=
          exists_resolveFrom_of_balanced hafter (paired.size :: starts) (paired.push (.loopStart target))
        rw [List.nil_append, resolveFrom, hresolve]
        rfl
      | _ => cases hopens
  | cons u before ih =>
    cases u with
    | loopStart target =>
      have h' : Blamed (paired.size :: starts).length before t after := (blamed_cons_of_opens rfl rfl).mp h
      rw [List.cons_append, resolveFrom, ih _ h', Array.size_push, List.length_cons, Nat.add_right_comm, Nat.add_assoc]
    | loopEnd target =>
      obtain ⟨outer, houter, h'⟩ := (blamed_cons_of_closes rfl rfl).mp h
      cases starts with
      | nil => cases houter
      | cons start starts =>
        obtain rfl : starts.length = outer := Nat.succ.inj houter
        rw [List.cons_append, resolveFrom, ih _ h', Array.size_push, Array.size_modify, List.length_cons, Nat.add_right_comm,
          Nat.add_assoc]
    | _ =>
      have h' : Blamed starts.length before t after := (blamed_cons_of_neither rfl rfl).mp h
      rw [List.cons_append, Block.resolveFrom_cons_of_not_isLoop rfl, ih _ h', Array.size_push, List.length_cons,
        Nat.add_right_comm, Nat.add_assoc]

/-- Pairing reports the index of the token that is to blame. -/
theorem resolve_of_blamed {before after : List Token} {t : Token} (h : Blamed 0 before t after) :
    resolve (before ++ t :: after) = .error ⟨before.length⟩ := by
  have hresolve := @resolveFrom_of_blamed before after t [] #[] h
  rw [resolve, hresolve, Array.size_empty, Nat.zero_add]
  rfl

/-! ## Brackets under all settings -/

/-- The loop tokens of a compiled source are the tokens of its brackets. -/
theorem filter_isLoop_unpaired (options : Options) (source : List Char) :
    (unpaired options source).filter Token.isLoop = (source.filter Source.isBracket).map Token.ofChar := by
  have htokenize : ∀ text : List Char,
      (tokenize text).filter Token.isLoop = (text.filter Source.isBracket).map Token.ofChar := by
    intro text
    rw [tokenize, List.filter_map]
    congr 2
    funext c
    simp only [Function.comp_apply, Token.isLoop, kind_ofChar_eq_loopStart, kind_ofChar_eq_loopEnd, Source.isBracket]
  have hsource : (if options.optimize then Source.optimize source else source).filter Source.isBracket =
      source.filter Source.isBracket := by
    cases options.optimize with
    | true => exact Source.filter_isBracket_optimize source
    | false => rfl
  rw [unpaired]
  cases options.compress with
  | true => rw [if_pos rfl, compress, filter_isLoop_compressFrom, htokenize, hsource]
  | false => rw [if_neg Bool.false_ne_true, htokenize, hsource]

/-- The texts before and behind a bracket are tokenized, optimized and merged apart. -/
theorem unpaired_append_cons {c : Char} (hc : Source.isBracket c = true) (options : Options) (before after : List Char) :
    unpaired options (before ++ c :: after) = unpaired options before ++ Token.ofChar c :: unpaired options after := by
  have hdelta : (Token.ofChar c).delta? = none := by rcases Source.isBracket_iff.mp hc with rfl | rfl <;> rfl
  have hshift : (Token.ofChar c).shift? = none := by rcases Source.isBracket_iff.mp hc with rfl | rfl <;> rfl
  have htokenize : ∀ before after : List Char,
      tokenize (before ++ c :: after) = tokenize before ++ Token.ofChar c :: tokenize after := by
    intro before after
    rw [tokenize_append]
    rfl
  obtain ⟨optimize, merge⟩ := options
  cases optimize <;> cases merge
  · exact htokenize before after
  · simp only [unpaired, Bool.false_eq_true, if_false, if_true, htokenize, compress_append_cons hdelta hshift]
  · simp only [unpaired, Bool.false_eq_true, if_false, if_true, Source.optimize_append_cons hc, htokenize]
  · simp only [unpaired, if_true, Source.optimize_append_cons hc, htokenize, compress_append_cons hdelta hshift]

/-- A text closes what its tokens do, under all settings. -/
theorem closesWithin_unpaired_iff {options : Options} {source : List Char} {depth : Nat} :
    ClosesWithin (fun t : Token => t.kind == .loopStart) (fun t : Token => t.kind == .loopEnd) depth
        (unpaired options source) ↔
      ClosesWithin (· == '[') (· == ']') depth source := by
  rw [← @closesWithin_filter_iff _ _ _ Token.isLoop depth (unpaired options source) (by simp +contextual [Token.isLoop])
      (by simp +contextual [Token.isLoop]),
    filter_isLoop_unpaired, closesWithin_map_iff]
  simp only [Function.comp_def, kind_ofChar_eq_loopStart, kind_ofChar_eq_loopEnd]
  exact closesWithin_filter_iff (by simp +contextual [Source.isBracket]) (by simp +contextual [Source.isBracket])

/-- Tokens of one kind of bracket are as many as the brackets, under all settings. -/
theorem countP_unpaired {q : Token → Bool} {p : Char → Bool} (hq : ∀ t, q t = true → t.isLoop = true)
    (hp : ∀ c, p c = true → Source.isBracket c = true) (h : ∀ c, q (Token.ofChar c) = p c) (options : Options)
    (source : List Char) : (unpaired options source).countP q = source.countP p := by
  rw [← countP_filter_of_imp hq, filter_isLoop_unpaired, List.countP_map, ← countP_filter_of_imp hp]
  refine List.countP_congr ?_
  intro c _
  rw [Function.comp_apply, h]

theorem countP_isLoop_unpaired (options : Options) (source : List Char) :
    (unpaired options source).countP Token.isLoop = source.countP Source.isBracket := by
  refine countP_unpaired (fun _ ht => ht) (fun _ hc => hc) ?_ options source
  intro c
  rw [Token.isLoop, kind_ofChar_eq_loopStart, kind_ofChar_eq_loopEnd, Source.isBracket]

theorem closesAll_unpaired_iff {options : Options} {source : List Char} {depth : Nat} :
    ClosesAll (fun t : Token => t.kind == .loopStart) (fun t : Token => t.kind == .loopEnd) depth
        (unpaired options source) ↔
      ClosesAll (· == '[') (· == ']') depth source := by
  have hstarts := @countP_unpaired (fun t => t.kind == .loopStart) (· == '[') (by simp +contextual [Token.isLoop])
    (by simp +contextual [Source.isBracket]) kind_ofChar_eq_loopStart options source
  have hends := @countP_unpaired (fun t => t.kind == .loopEnd) (· == ']') (by simp +contextual [Token.isLoop])
    (by simp +contextual [Source.isBracket]) kind_ofChar_eq_loopEnd options source
  rw [closesAll_iff, closesAll_iff, closesWithin_unpaired_iff, hstarts, hends]

/-- The token of the bracket that is to blame is to blame, under all settings. -/
theorem blamed_unpaired {before after : List Char} {bracket : Char} (h : Source.Blamed before bracket after)
    (options : Options) : Blamed 0 (unpaired options before) (Token.ofChar bracket) (unpaired options after) := by
  rcases h with ⟨hcloses, hbefore⟩ | ⟨hopens, hbefore, hafter⟩
  · refine Or.inl ⟨?_, closesAll_unpaired_iff.mpr hbefore⟩
    exact (kind_ofChar_eq_loopEnd bracket).trans hcloses
  · refine Or.inr ⟨?_, closesWithin_unpaired_iff.mpr hbefore, closesAll_unpaired_iff.mpr hafter⟩
    exact (kind_ofChar_eq_loopStart bracket).trans hopens

end Program

/-! ## All settings blame one bracket -/

/-- A source is compiled under all settings, or else one of its brackets is to blame under all of them. The index that is reported
is then the number of tokens of the text before this bracket; the token there is that of the bracket, and as many loop tokens stand
before it as brackets before the bracket; and a run of the source leaves the machine as it was. -/
theorem compile_blames (source : List Char) :
    (∀ options, ∃ tokens, Program.compile options source = .ok tokens) ∨
      ∃ before bracket after, source = before ++ bracket :: after ∧ Source.Blamed before bracket after ∧
        ∀ options,
          Program.compile options source = .error ⟨(Program.unpaired options before).length⟩ ∧
          Program.unpaired options source =
            Program.unpaired options before ++ Token.ofChar bracket :: Program.unpaired options after ∧
          (Program.unpaired options before).countP Token.isLoop = before.countP Source.isBracket ∧
          ∀ (steps : Nat) (m : Machine), m.runSource steps options source =
            some (m, .error (.unmatched ⟨(Program.unpaired options before).length⟩)) := by
  rcases Source.balanced_or_exists_blamed source with hbalanced | ⟨before, bracket, after, rfl, hblamed⟩
  · exact Or.inl (Program.exists_compile hbalanced)
  · refine Or.inr ⟨before, bracket, after, rfl, hblamed, ?_⟩
    intro options
    have hsplit := Program.unpaired_append_cons hblamed.isBracket options before after
    have hcompile : Program.compile options (before ++ bracket :: after) =
        .error ⟨(Program.unpaired options before).length⟩ := by
      rw [Program.compile_eq_resolve, hsplit]
      exact Program.resolve_of_blamed (Program.blamed_unpaired hblamed options)
    refine ⟨hcompile, hsplit, Program.countP_isLoop_unpaired options before, ?_⟩
    intro steps m
    exact Machine.runSource_eq_some_iff.mpr ⟨hcompile, rfl⟩

/-- The second end is to blame; before it stand five characters, three of them once the text is merged, and two brackets. -/
example :
    Program.compile ⟨false, false⟩ ['+', '-', 'x', '[', ']', ']'] = .error ⟨5⟩ ∧
      Program.compile ⟨false, true⟩ ['+', '-', 'x', '[', ']', ']'] = .error ⟨3⟩ ∧
      Program.compile {} ['+', '-', 'x', '[', ']', ']'] = .error ⟨2⟩ := ⟨rfl, rfl, rfl⟩

end Brainfuck
