import Brainfuck.Machine.Run

/-!
# Structured programs

A program read as a tree: a block is a sequence of simple tokens and loops, and a loop has a block for its body. Here a loop is
executed as it is meant, its body again and again as long as the cell under the cursor is not zero, without indices and jumps.
-/

namespace Brainfuck

/-- A block: the end, a token that is not a loop token and what follows it, or a loop and what follows it. -/
inductive Block where
  | done
  | simple (t : Token) (rest : Block)
  | loop (body rest : Block)
  deriving Repr, Inhabited

namespace Block

/-- The blocks that a token opens or extends when a list of tokens is read from the end. The first block is the innermost one
that is not yet complete; an end begins a new one, and a start makes it the body of a loop in the next. -/
def extend (t : Token) (blocks : List Block) : Option (List Block) :=
  match t, blocks with
  | .loopEnd _, blocks => some (.done :: blocks)
  | .loopStart _, body :: rest :: outer => some (.loop body rest :: outer)
  | .loopStart _, _ => none
  | t, rest :: outer => some (.simple t rest :: outer)
  | _, [] => none

/-- The block that a list of tokens forms, if each of its loop tokens has a partner. Targets do not matter. -/
def ofTokens? (tokens : List Token) : Option Block :=
  match tokens.foldr (fun t blocks => blocks.bind (extend t)) (some [.done]) with
  | some [block] => some block
  | _ => none

/-- The tokens of a block, its loop tokens without targets. -/
def tokens : Block → List Token
  | .done => []
  | .simple t rest => t :: rest.tokens
  | .loop body rest => .loopStart none :: body.tokens ++ .loopEnd none :: rest.tokens

/-- A run of `body` as often as the cell under the cursor is not zero before it, if at most `rounds` times are enough. A body that
fails ends it, and so does a cursor that is on no cell. -/
def repeatBody (body : Machine → Option (Machine × Outcome)) : Nat → Machine → Option (Machine × Outcome)
  | rounds, m =>
    if !m.tape.onCell then some (m, .failed (.cursorOffTape m.tape.cursor))
    else if m.tape.cell = 0 then some (m, .finished)
    else
      match rounds with
      | 0 => none
      | rounds + 1 =>
        match body m with
        | some (m', .finished) => repeatBody body rounds m'
        | stopped => stopped

/-- The end of a run of a block, if no loop takes more than `rounds` rounds at any of the times that the run comes to it. -/
def run (rounds : Nat) : Block → Machine → Option (Machine × Outcome)
  | .done, m => some (m, .finished)
  | .simple t rest, m =>
    match m.exec 0 t with
    | .next m' _ => rest.run rounds m'
    | .failed m' cause => some (m', .failed cause)
  | .loop body rest, m =>
    match repeatBody (body.run rounds) rounds m with
    | some (m', .finished) => rest.run rounds m'
    | stopped => stopped

/-! ## Helpers: the tokens of a block that was read -/

/-- The tokens of blocks that are not yet complete, with the end that separates each from the next. -/
def pendingTokens : List Block → List Token
  | [] => []
  | [block] => block.tokens
  | block :: outer => block.tokens ++ .loopEnd none :: pendingTokens outer

theorem pendingTokens_of_extend {t : Token} {blocks blocks' : List Block} (hne : blocks ≠ [])
    (h : extend t blocks = some blocks') : blocks' ≠ [] ∧ pendingTokens blocks' = t.untarget :: pendingTokens blocks := by
  obtain ⟨block, outer, rfl⟩ := List.exists_cons_of_ne_nil hne
  cases t with
  | loopStart target =>
    cases outer with
    | nil => simp [extend] at h
    | cons rest more =>
      simp only [extend, Option.some.injEq] at h
      subst h
      cases more <;> simp [pendingTokens, tokens, Token.untarget]
  | loopEnd target =>
    simp only [extend, Option.some.injEq] at h
    subst h
    simp [pendingTokens, tokens, Token.untarget]
  | _ =>
    simp only [extend, Option.some.injEq] at h
    subst h
    cases outer <;> simp [pendingTokens, tokens, Token.untarget]

theorem pendingTokens_of_foldr {ts : List Token} {blocks : List Block}
    (h : ts.foldr (fun t blocks => blocks.bind (extend t)) (some [.done]) = some blocks) :
    blocks ≠ [] ∧ pendingTokens blocks = ts.map Token.untarget := by
  induction ts generalizing blocks with
  | nil =>
    obtain rfl : [Block.done] = blocks := by simpa using h
    simp [pendingTokens, tokens]
  | cons t ts ih =>
    rw [List.foldr_cons, Option.bind_eq_some_iff] at h
    obtain ⟨before, hbefore, hext⟩ := h
    obtain ⟨hne, htokens⟩ := ih hbefore
    obtain ⟨hne', htokens'⟩ := pendingTokens_of_extend hne hext
    exact ⟨hne', by rw [htokens', htokens, List.map_cons]⟩

/-- A block that was read from a list of tokens has these tokens, their targets apart. -/
theorem tokens_of_ofTokens? {ts : List Token} {block : Block} (h : ofTokens? ts = some block) :
    block.tokens = ts.map Token.untarget := by
  rw [ofTokens?] at h
  split at h
  · rename_i found hfold
    obtain rfl : found = block := by simpa using h
    simpa [pendingTokens] using (pendingTokens_of_foldr hfold).2
  · simp at h

end Block

end Brainfuck
