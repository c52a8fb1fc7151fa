import Brainfuck.Proofs.Reading

/-!
# Blocks as paired tokens

Pairing the loop tokens of a list lays its block out again: each loop token gets the index of its partner in the layout
(`Block.link`). So pairing succeeds exactly on the balanced lists, and what it gives depends on the block alone
(`resolve_eq_ok_iff`). In particular targets that were there before do not matter. A change of tokens that leaves the loops alone may
be made before the pairing or behind it (`resolve_map`).
-/

namespace Brainfuck

namespace Block

/-- The number of tokens of a block. -/
def size : Block → Nat
  | .done => 0
  | .simple _ rest => rest.size + 1
  | .loop body rest => body.size + rest.size + 2

/-- The tokens of a block that begins at the index `first` of a program, each loop token pointed at its partner. -/
def link (first : Nat) : Block → List Token
  | .done => []
  | .simple t rest => t :: rest.link (first + 1)
  | .loop body rest =>
    .loopStart (some (.nat (first + 1 + body.size))) :: body.link (first + 1) ++
      .loopEnd (some (.nat first)) :: rest.link (first + 2 + body.size)

@[simp] theorem length_link (b : Block) (first : Nat) : (b.link first).length = b.size := by
  induction b generalizing first with
  | done => rfl
  | simple t rest ih => simp [link, size, ih]
  | loop body rest ihb ihr =>
    simp [link, size, ihb, ihr]
    omega

/-- Without their targets the linked tokens of a block are its tokens. -/
theorem map_untarget_link {b : Block} (hb : b.Plain) (first : Nat) : (b.link first).map Token.untarget = b.tokens := by
  induction b generalizing first with
  | done => rfl
  | simple t rest ih =>
    have ht : t.untarget = t := Token.untarget_of_not_isLoop hb.1
    simp [link, tokens, ih hb.2, ht]
  | loop body rest ihb ihr => simp [link, tokens, ihb hb.1, ihr hb.2, Token.untarget]

/-! ## Pairing lays a block out -/

/-- Changing the element behind the first elements of an array. -/
theorem modify_push_append {α : Type} (f : α → α) (before after : Array α) (a : α) :
    (before.push a ++ after).modify before.size f = before.push (f a) ++ after := by
  apply Array.ext'
  have h := List.modifyTailIdx_add (List.modifyHead f) 0 before.toList (a :: after.toList)
  simpa [List.modify] using h

/-- A token that is not a loop token is passed over. -/
theorem resolveFrom_cons_of_not_isLoop {t : Token} (ht : t.isLoop = false) (starts : List Nat) (paired : Array Token)
    (rest : List Token) :
    Program.resolveFrom starts paired (t :: rest) = Program.resolveFrom starts (paired.push t) rest := by
  cases t <;> first | rfl | simp [Token.isLoop, Token.kind] at ht

/-- A block behind tokens that are already paired is paired on the spot, whatever follows it. -/
theorem resolveFrom_append {b : Block} (hb : b.Plain) {ts : List Token} (hts : ts.map Token.untarget = b.tokens)
    (starts : List Nat) (paired : Array Token) (rest : List Token) :
    Program.resolveFrom starts paired (ts ++ rest) =
      Program.resolveFrom starts (paired ++ (b.link paired.size).toArray) rest := by
  induction b generalizing ts starts paired rest with
  | done =>
    obtain rfl : ts = [] := by simpa [tokens] using hts
    simp [link]
  | simple t block ih =>
    obtain ⟨t', ts, rfl, ht', htail⟩ := List.map_eq_cons_iff.mp hts
    have hloop : t'.isLoop = false := by rw [← Token.isLoop_untarget, ht', hb.1]
    rw [Token.untarget_of_not_isLoop hloop] at ht'
    subst ht'
    rw [List.cons_append, resolveFrom_cons_of_not_isLoop hloop, ih hb.2 htail]
    congr 1
    apply Array.ext'
    simp [link]
  | loop body block ihb ihr =>
    -- The start is pushed, the body is paired behind it, and the end changes the start at its index.
    obtain ⟨start, ts, rfl, hstart, htail⟩ := List.map_eq_cons_iff.mp hts
    obtain ⟨inner, ts, rfl, hinner, htail⟩ := List.map_eq_append_iff.mp htail
    obtain ⟨stop, outer, rfl, hstop, houter⟩ := List.map_eq_cons_iff.mp htail
    obtain ⟨old, rfl⟩ := Token.untarget_eq_loopStart hstart
    obtain ⟨old', rfl⟩ := Token.untarget_eq_loopEnd hstop
    have hsize : ((paired.push (.loopStart old)) ++ (body.link (paired.size + 1)).toArray).size =
        paired.size + 1 + body.size := by
      simp
      omega
    rw [List.cons_append, Program.resolveFrom, List.append_assoc, ihb hb.1 hinner, Array.size_push, List.cons_append,
      Program.resolveFrom, hsize, modify_push_append, ihr hb.2 houter]
    congr 1
    apply Array.ext'
    have hfirst : paired.size + (body.size + 1 + 1) = paired.size + 2 + body.size := by omega
    simp [link, Token.aim, hfirst]

/-- Tokens that pair with the given open starts read as one block more than these. -/
theorem read_of_resolveFrom {ts : List Token} {starts : List Nat} {paired out : Array Token}
    (h : Program.resolveFrom starts paired ts = .ok out) :
    ∃ blocks, read ts = some blocks ∧ blocks.length = starts.length + 1 := by
  rw [← closesAll_iff_read]
  induction ts generalizing starts paired with
  | nil =>
    cases starts with
    | nil => exact closesAll_nil_iff.mpr rfl
    | cons innermost outer => simp [Program.resolveFrom] at h
  | cons t ts ih =>
    cases t with
    | loopStart target =>
      rw [Program.resolveFrom] at h
      exact (closesAll_cons_of_opens rfl rfl).mpr (ih h)
    | loopEnd target =>
      cases starts with
      | nil => simp [Program.resolveFrom] at h
      | cons start outer =>
        rw [Program.resolveFrom] at h
        exact (closesAll_cons_of_closes rfl rfl).mpr ⟨_, rfl, ih h⟩
    | _ =>
      rw [resolveFrom_cons_of_not_isLoop rfl] at h
      exact (closesAll_cons_of_neither rfl rfl).mpr (ih h)

/-- A program that reads as a block is paired as the block is laid out. -/
theorem resolve_of_read {ts : List Token} {b : Block} (h : read ts = some [b]) : Program.resolve ts = .ok (b.link 0) := by
  have htokens := tokens_of_ofTokens? (ofTokens?_eq_some_iff.mpr h)
  have := resolveFrom_append (plain_of_read h b (by simp)) htokens.symm [] #[] []
  rw [List.append_nil] at this
  rw [Program.resolve, this]
  simp [Program.resolveFrom, Except.map]

/-- Pairing succeeds exactly on the programs that read as a block, and lays this block out. -/
theorem resolve_eq_ok_iff {ts linked : List Token} :
    Program.resolve ts = .ok linked ↔ ∃ b, read ts = some [b] ∧ linked = b.link 0 := by
  constructor
  · intro h
    cases hfrom : Program.resolveFrom [] #[] ts with
    | error e => simp [Program.resolve, hfrom, Except.map] at h
    | ok out =>
      obtain ⟨blocks, hread, hlength⟩ := read_of_resolveFrom hfrom
      obtain ⟨b, rfl⟩ := List.length_eq_one_iff.mp hlength
      rw [resolve_of_read hread] at h
      exact ⟨b, hread, (Except.ok.inj h).symm⟩
  · rintro ⟨b, hread, rfl⟩
    exact resolve_of_read hread

/-- Reading does not look at targets. -/
theorem read_map_untarget (ts : List Token) : read (ts.map Token.untarget) = read ts := by
  induction ts with
  | nil => rfl
  | cons t ts ih =>
    have hextend : extend t.untarget = extend t := by
      funext blocks
      rcases blocks with _ | ⟨_, _ | _⟩ <;> cases t <;> rfl
    rw [List.map_cons, read_cons, read_cons, ih, hextend]

end Block

/-! ## Pairing changed tokens -/

/-- A change of tokens that pairing does not see: what opens or closes a loop does so after it, what does not does not, and a token
may as well be pointed at an index before as behind it. -/
structure Token.KeepsLoops (f : Token → Token) : Prop where
  opens : ∀ target, ∃ target', f (.loopStart target) = .loopStart target'
  closes : ∀ target, ∃ target', f (.loopEnd target) = .loopEnd target'
  other : ∀ t : Token, t.isLoop = false → (f t).isLoop = false
  aim : ∀ index t, f (Token.aim index t) = Token.aim index (f t)

namespace Program

variable {f : Token → Token}

theorem map_modify_aim (hf : Token.KeepsLoops f) (done : Array Token) (start index : Nat) :
    (done.modify start (Token.aim index)).map f = (done.map f).modify start (Token.aim index) := by
  ext i hi hi'
  · simp
  · simp only [Array.getElem_map, Array.getElem_modify]
    split
    · exact hf.aim index _
    · rfl

theorem resolveFrom_map (hf : Token.KeepsLoops f) (starts : List Nat) (done : Array Token) (ts : List Token) :
    resolveFrom starts (done.map f) (ts.map f) = (resolveFrom starts done ts).map (Array.map f) := by
  induction ts generalizing starts done with
  | nil => cases starts <;> rfl
  | cons t ts ih =>
    rw [List.map_cons]
    cases hloop : t.isLoop with
    | false =>
      rw [Block.resolveFrom_cons_of_not_isLoop hloop, Block.resolveFrom_cons_of_not_isLoop (hf.other t hloop), ← ih, Array.map_push]
    | true =>
      cases t with
      | loopStart target =>
        obtain ⟨target', htarget⟩ := hf.opens target
        rw [htarget, resolveFrom, resolveFrom, ← ih, Array.map_push, Array.size_map, htarget]
      | loopEnd target =>
        obtain ⟨target', htarget⟩ := hf.closes target
        rw [htarget, resolveFrom.eq_def, resolveFrom.eq_def starts done, Array.size_map]
        cases starts with
        | nil => rfl
        | cons start outer =>
          simp only
          rw [← ih, Array.map_push, map_modify_aim hf, hf.aim, htarget]
      | _ => simp [Token.isLoop, Token.kind] at hloop

/-- Pairing changed tokens comes to changing paired tokens. -/
theorem resolve_map (hf : Token.KeepsLoops f) (ts : List Token) : resolve (ts.map f) = (resolve ts).map (List.map f) := by
  have h := resolveFrom_map hf [] #[] ts
  rw [Array.map_empty] at h
  rw [resolve, resolve, h]
  cases resolveFrom [] #[] ts with
  | error e => rfl
  | ok done => exact congrArg Except.ok Array.toList_map

end Program

end Brainfuck
