import Brainfuck.Block
import Mathlib.Data.List.Infix

/-!
# Reading tokens as a block

A list of tokens reads as a block exactly if its loop tokens are balanced. Balance is a property of words over two brackets and
anything else, so it is stated for words of any kind (`ClosesAll`, `Balanced`) and used for sources as well as for tokens. A
list that closes all it opens and `depth` loops more reads as `depth + 1` blocks, all but the last still to be closed by a start
(`closesAll_iff_read`).
-/

namespace Brainfuck

/-- A word closes what it opens and `depth` brackets that were open before: no beginning of it closes more than that, and the
whole closes them all. -/
def ClosesAll {α : Type} (opens closes : α → Bool) (depth : Nat) (word : List α) : Prop :=
  (∀ beginning, beginning <+: word → beginning.countP closes ≤ depth + beginning.countP opens) ∧
    word.countP closes = depth + word.countP opens

instance {α : Type} (opens closes : α → Bool) (depth : Nat) (word : List α) :
    Decidable (ClosesAll opens closes depth word) :=
  decidable_of_iff ((∀ beginning ∈ word.inits, beginning.countP closes ≤ depth + beginning.countP opens) ∧
    word.countP closes = depth + word.countP opens) (by simp only [List.mem_inits, ClosesAll])

/-- No beginning of a word closes more than it opens and `depth` brackets that were open before. -/
def ClosesWithin {α : Type} (opens closes : α → Bool) (depth : Nat) (word : List α) : Prop :=
  ∀ beginning, beginning <+: word → beginning.countP closes ≤ depth + beginning.countP opens

/-- The brackets of a word are balanced. -/
def Balanced {α : Type} (opens closes : α → Bool) (word : List α) : Prop := ClosesAll opens closes 0 word

/-- The brackets of a source are balanced: no beginning has more ends than starts, and the whole has as many of each. -/
def Source.Balanced (source : List Char) : Prop := Brainfuck.Balanced (· == '[') (· == ']') source

instance (source : List Char) : Decidable (Source.Balanced source) := inferInstanceAs (Decidable (ClosesAll _ _ _ _))

/-- A token is a loop token. -/
def Token.isLoop (t : Token) : Bool := t.kind == .loopStart || t.kind == .loopEnd

theorem Token.untarget_of_not_isLoop {t : Token} (ht : t.isLoop = false) : t.untarget = t := by
  cases t <;> first | rfl | simp [Token.isLoop, Token.kind] at ht

theorem Token.isLoop_untarget (t : Token) : t.untarget.isLoop = t.isLoop := by
  cases t <;> rfl

theorem Token.untarget_untarget (t : Token) : t.untarget.untarget = t.untarget := by
  cases t <;> rfl

theorem Token.untarget_eq_loopStart {t : Token} (h : t.untarget = .loopStart none) : ∃ target, t = .loopStart target := by
  cases t <;> simp_all [Token.untarget]

theorem Token.untarget_eq_loopEnd {t : Token} (h : t.untarget = .loopEnd none) : ∃ target, t = .loopEnd target := by
  cases t <;> simp_all [Token.untarget]

/-- The loop tokens of a program are balanced. -/
def Program.Balanced (tokens : List Token) : Prop :=
  Brainfuck.Balanced (fun t : Token => t.kind == .loopStart) (fun t : Token => t.kind == .loopEnd) tokens

/-! ## Balanced words, one letter at a time -/

section Word

variable {α : Type} {opens closes : α → Bool} {depth : Nat} {a : α} {word : List α}

theorem closesAll_iff :
    ClosesAll opens closes depth word ↔
      ClosesWithin opens closes depth word ∧ word.countP closes = depth + word.countP opens :=
  Iff.rfl

theorem closesWithin_nil : ClosesWithin opens closes depth [] := by
  intro beginning hb
  rw [List.prefix_nil.mp hb]
  exact Nat.zero_le _

theorem closesAll_nil_iff : ClosesAll opens closes depth [] ↔ depth = 0 := by
  rw [closesAll_iff, and_iff_right closesWithin_nil, List.countP_nil, List.countP_nil]
  omega

/-- What a letter in front of a word changes for its beginnings. -/
theorem closesWithin_cons_iff :
    ClosesWithin opens closes depth (a :: word) ↔
      ∀ beginning, beginning <+: word →
        (beginning.countP closes + if closes a then 1 else 0) ≤
          depth + (beginning.countP opens + if opens a then 1 else 0) := by
  constructor
  · intro h beginning hb
    have := h (a :: beginning) (List.prefix_cons_inj a |>.mpr hb)
    simpa only [List.countP_cons] using this
  · intro h beginning hb
    rcases List.prefix_cons_iff.mp hb with rfl | ⟨rest, rfl, hrest⟩
    · exact Nat.zero_le _
    · simpa only [List.countP_cons] using h rest hrest

theorem closesWithin_cons_of_opens (ho : opens a = true) (hc : closes a = false) :
    ClosesWithin opens closes depth (a :: word) ↔ ClosesWithin opens closes (depth + 1) word := by
  rw [closesWithin_cons_iff, ClosesWithin]
  simp only [ho, hc, if_true, Bool.false_eq_true, if_false]
  refine forall₂_congr fun beginning _ => ?_
  omega

theorem closesWithin_cons_of_closes (ho : opens a = false) (hc : closes a = true) :
    ClosesWithin opens closes depth (a :: word) ↔ ∃ outer, depth = outer + 1 ∧ ClosesWithin opens closes outer word := by
  rw [closesWithin_cons_iff]
  simp only [ho, hc, if_true, Bool.false_eq_true, if_false]
  constructor
  · intro hle
    have hpos := hle [] List.nil_prefix
    simp only [List.countP_nil] at hpos
    refine ⟨depth - 1, by omega, ?_⟩
    intro beginning hb
    have hbeginning := hle beginning hb
    omega
  · rintro ⟨outer, rfl, hle⟩ beginning hb
    have hbeginning := hle beginning hb
    omega

theorem closesWithin_cons_of_neither (ho : opens a = false) (hc : closes a = false) :
    ClosesWithin opens closes depth (a :: word) ↔ ClosesWithin opens closes depth word := by
  rw [closesWithin_cons_iff, ClosesWithin]
  simp only [ho, hc, Bool.false_eq_true, if_false, Nat.add_zero]

theorem closesAll_cons_of_opens (ho : opens a = true) (hc : closes a = false) :
    ClosesAll opens closes depth (a :: word) ↔ ClosesAll opens closes (depth + 1) word := by
  rw [closesAll_iff, closesAll_iff, closesWithin_cons_of_opens ho hc, List.countP_cons, List.countP_cons]
  simp only [ho, hc, if_true, Bool.false_eq_true, if_false]
  refine and_congr_right fun _ => ?_
  omega

theorem closesAll_cons_of_closes (ho : opens a = false) (hc : closes a = true) :
    ClosesAll opens closes depth (a :: word) ↔ ∃ outer, depth = outer + 1 ∧ ClosesAll opens closes outer word := by
  simp only [closesAll_iff, closesWithin_cons_of_closes ho hc, List.countP_cons, ho, hc, if_true, Bool.false_eq_true, if_false]
  constructor
  · rintro ⟨⟨outer, rfl, hwithin⟩, hcount⟩
    exact ⟨outer, rfl, hwithin, by omega⟩
  · rintro ⟨outer, rfl, hwithin, hcount⟩
    exact ⟨⟨outer, rfl, hwithin⟩, by omega⟩

theorem closesAll_cons_of_neither (ho : opens a = false) (hc : closes a = false) :
    ClosesAll opens closes depth (a :: word) ↔ ClosesAll opens closes depth word := by
  rw [closesAll_iff, closesAll_iff, closesWithin_cons_of_neither ho hc, List.countP_cons, List.countP_cons]
  simp only [ho, hc, Bool.false_eq_true, if_false, Nat.add_zero]

end Word

/-! ## Renaming and leaving out letters -/

theorem closesWithin_map_iff {α β : Type} {opens closes : β → Bool} {f : α → β} {depth : Nat} {word : List α} :
    ClosesWithin opens closes depth (word.map f) ↔ ClosesWithin (opens ∘ f) (closes ∘ f) depth word := by
  constructor
  · intro h beginning hb
    simpa only [List.countP_map] using h (beginning.map f) (hb.map f)
  · intro h beginning hb
    obtain ⟨before, hbefore, rfl⟩ := List.prefix_map_iff.mp hb
    simpa only [List.countP_map] using h before hbefore

/-- Renaming letters renames the brackets. -/
theorem closesAll_map_iff {α β : Type} {opens closes : β → Bool} {f : α → β} {depth : Nat} {word : List α} :
    ClosesAll opens closes depth (word.map f) ↔ ClosesAll (opens ∘ f) (closes ∘ f) depth word := by
  rw [closesAll_iff, closesAll_iff, closesWithin_map_iff, List.countP_map, List.countP_map]

/-- Leaving out letters that are no brackets leaves out nothing that counts. -/
theorem countP_filter_of_imp {α : Type} {p q : α → Bool} (h : ∀ a, q a = true → p a = true) (word : List α) :
    (word.filter p).countP q = word.countP q := by
  rw [List.countP_filter]
  refine List.countP_congr fun a _ => ?_
  rw [Bool.and_eq_true, and_iff_left_of_imp (h a)]

theorem closesWithin_filter_iff {α : Type} {opens closes p : α → Bool} {depth : Nat} {word : List α}
    (ho : ∀ a, opens a = true → p a = true) (hc : ∀ a, closes a = true → p a = true) :
    ClosesWithin opens closes depth (word.filter p) ↔ ClosesWithin opens closes depth word := by
  constructor
  · intro h beginning hb
    simpa only [countP_filter_of_imp ho, countP_filter_of_imp hc] using h (beginning.filter p) (hb.filter p)
  · intro h beginning hb
    obtain ⟨before, hbefore, rfl⟩ := List.prefix_filter_iff.mp hb
    simpa only [countP_filter_of_imp ho, countP_filter_of_imp hc] using h before hbefore

theorem kind_ofChar_eq_loopStart (c : Char) : ((Token.ofChar c).kind == .loopStart) = (c == '[') := by
  rw [Bool.eq_iff_iff, beq_iff_eq, beq_iff_eq]
  unfold Token.ofChar
  split <;> simp_all [Token.kind]

theorem kind_ofChar_eq_loopEnd (c : Char) : ((Token.ofChar c).kind == .loopEnd) = (c == ']') := by
  rw [Bool.eq_iff_iff, beq_iff_eq, beq_iff_eq]
  unfold Token.ofChar
  split <;> simp_all [Token.kind]

/-- The brackets of a source are those of its tokens. -/
theorem balanced_tokenize_iff {source : List Char} :
    Program.Balanced (Program.tokenize source) ↔ Source.Balanced source := by
  rw [Program.Balanced, Brainfuck.Balanced, Program.tokenize, closesAll_map_iff]
  simp only [Function.comp_def, kind_ofChar_eq_loopStart, kind_ofChar_eq_loopEnd]
  rfl

/-! ## Tokens as blocks -/

namespace Block

/-- The blocks that a list of tokens leaves when it is read from its end. All but the last wait for a start. -/
def read (ts : List Token) : Option (List Block) := ts.foldr (fun t blocks => blocks.bind (extend t)) (some [.done])

@[simp] theorem read_nil : read [] = some [.done] := rfl

theorem read_cons (t : Token) (ts : List Token) : read (t :: ts) = (read ts).bind (extend t) := rfl

/-- The block of a list of tokens is the only one that reading leaves. -/
theorem ofTokens?_eq_some_iff {ts : List Token} {b : Block} : ofTokens? ts = some b ↔ read ts = some [b] := by
  rw [ofTokens?, ← read]
  split
  · simp_all
  · rename_i hne
    refine iff_of_false (by simp) fun h => hne b h

theorem extend_of_not_isLoop {t : Token} (ht : t.isLoop = false) (block : Block) (outer : List Block) :
    extend t (block :: outer) = some (.simple t block :: outer) := by
  cases t <;> first | rfl | simp [Token.isLoop, Token.kind] at ht

/-- Reading leaves at least one block. -/
theorem read_ne_nil {ts : List Token} : read ts ≠ some [] := by
  intro h
  exact (pendingTokens_of_foldr h).1 rfl

/-- A list of tokens reads as `depth + 1` blocks if and only if it closes all its loops and `depth` more. -/
theorem closesAll_iff_read {ts : List Token} {depth : Nat} :
    ClosesAll (fun t : Token => t.kind == .loopStart) (fun t : Token => t.kind == .loopEnd) depth ts ↔
      ∃ blocks, read ts = some blocks ∧ blocks.length = depth + 1 := by
  induction ts generalizing depth with
  | nil =>
    rw [closesAll_nil_iff, read_nil]
    simp [eq_comm]
  | cons t ts ih =>
    have hne := @read_ne_nil ts
    cases t with
    | loopStart target =>
      rw [closesAll_cons_of_opens rfl rfl, ih, read_cons]
      rcases read ts with _ | (_ | ⟨body, _ | ⟨rest, outer⟩⟩) <;> simp [extend]
    | loopEnd target =>
      rw [closesAll_cons_of_closes rfl rfl, read_cons]
      simp only [ih]
      rcases hr : read ts with _ | blocks
      · simp
      · have hpos : 0 < blocks.length := List.length_pos_iff.mpr fun h => hne (by rw [hr, h])
        simp only [Option.some.injEq, exists_eq_left', Option.bind_some, extend, List.length_cons]
        constructor
        · rintro ⟨outer, rfl, h⟩
          omega
        · intro h
          exact ⟨depth - 1, by omega, by omega⟩
    | _ =>
      rw [closesAll_cons_of_neither rfl rfl, ih, read_cons]
      rcases read ts with _ | (_ | ⟨block, outer⟩) <;> simp_all [extend]

/-- A list of tokens reads as a block if and only if its loop tokens are balanced. -/
theorem balanced_iff_read {ts : List Token} : Program.Balanced ts ↔ ∃ b, read ts = some [b] := by
  rw [Program.Balanced, Brainfuck.Balanced, closesAll_iff_read]
  simp only [Nat.zero_add, List.length_eq_one_iff]
  constructor
  · rintro ⟨_, h, b, rfl⟩
    exact ⟨b, h⟩
  · rintro ⟨b, h⟩
    exact ⟨_, h, b, rfl⟩

/-! ## Blocks that were read -/

/-- No token of a block is a loop token: what loops there are is in its shape. -/
def Plain : Block → Prop
  | .done => True
  | .simple t rest => t.isLoop = false ∧ rest.Plain
  | .loop body rest => body.Plain ∧ rest.Plain

theorem plain_of_extend {t : Token} {blocks blocks' : List Block} (hblocks : ∀ b ∈ blocks, b.Plain)
    (h : extend t blocks = some blocks') : ∀ b ∈ blocks', b.Plain := by
  by_cases ht : t.isLoop = true
  · cases t with
    | loopStart target =>
      rcases blocks with _ | ⟨body, _ | ⟨rest, outer⟩⟩
      · simp [extend] at h
      · simp [extend] at h
      · obtain rfl : Block.loop body rest :: outer = blocks' := by simpa [extend] using h
        simp_all [Plain]
    | loopEnd target =>
      obtain rfl : Block.done :: blocks = blocks' := by simpa [extend] using h
      simp_all [Plain]
    | _ => simp [Token.isLoop, Token.kind] at ht
  · rw [Bool.not_eq_true] at ht
    rcases blocks with _ | ⟨block, outer⟩
    · cases t <;> simp [extend, Token.isLoop, Token.kind] at h ht
    · rw [extend_of_not_isLoop ht] at h
      obtain rfl := Option.some.inj h
      simp_all [Plain]

/-- The blocks that reading leaves have no loop tokens. -/
theorem plain_of_read {ts : List Token} {blocks : List Block} (h : read ts = some blocks) : ∀ b ∈ blocks, b.Plain := by
  induction ts generalizing blocks with
  | nil =>
    obtain rfl : [Block.done] = blocks := by simpa using h
    simp [Plain]
  | cons t ts ih =>
    rw [read_cons, Option.bind_eq_some_iff] at h
    obtain ⟨before, hbefore, hextend⟩ := h
    exact plain_of_extend (ih hbefore) hextend

end Block

end Brainfuck
