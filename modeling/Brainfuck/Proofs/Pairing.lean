import Brainfuck.Proofs.Blame
import Mathlib.Order.Bounds.Basic

/-!
# Loops and their partners

Two loop tokens of a list are partners if a balanced list stands between them (`Program.Partners`). Pairing accepts exactly the
balanced lists, and points each loop token of such a list at its partner and changes nothing else (`Program.Paired`). Where it fails,
it reports the first end that has no start, or, if there is none, the last start that has no partner (`resolve_pairs`).

That partners exist is a fact about words: before an end that does not close too much, and behind each start of a balanced word, the
letter to blame in what is left of the word is the partner.
-/

namespace Brainfuck

/-! ## Places of a list -/

section Places

variable {α : Type} {a b : α} {list : List α} {index : Nat}

theorem exists_append_of_getElem? (h : list[index]? = some a) :
    ∃ before after, list = before ++ a :: after ∧ before.length = index := by
  obtain ⟨hlt, rfl⟩ := List.getElem?_eq_some_iff.mp h
  refine ⟨list.take index, list.drop (index + 1), ?_, List.length_take_of_le (Nat.le_of_lt hlt)⟩
  rw [← List.drop_eq_getElem_cons hlt, List.take_append_drop]

/-- The second of two places that split a list in three. -/
theorem getElem?_second (before inner after : List α) :
    (before ++ a :: (inner ++ b :: after))[before.length + 1 + inner.length]? = some b := by
  have hindex : before.length + 1 + inner.length - before.length = inner.length + 1 := by omega
  rw [List.getElem?_append_right (by omega), hindex, List.getElem?_cons_succ, List.getElem?_append_right (Nat.le_refl _),
    Nat.sub_self, List.getElem?_cons_zero]

/-- What is between two places that split a list in three. -/
theorem take_drop_between (before inner after : List α) :
    ((before ++ a :: (inner ++ b :: after)).take (before.length + 1 + inner.length)).drop (before.length + 1) = inner := by
  have hsplit : before ++ a :: (inner ++ b :: after) = ((before ++ [a]) ++ inner) ++ b :: after := by simp
  have hlength : ((before ++ [a]) ++ inner).length = before.length + 1 + inner.length := by
    simp
    omega
  rw [hsplit, List.take_left' hlength, List.drop_left' (by simp)]

end Places

/-! ## Brackets that match in a word -/

section Word

variable {α : Type} {opens closes : α → Bool} {depth : Nat} {a b b' : α} {before after inner inner' outer outer' : List α}

/-- What holds of the beginnings of two words, one behind the other. -/
theorem closesWithin_append_iff :
    ClosesWithin opens closes depth (before ++ after) ↔
      ClosesWithin opens closes depth before ∧ ∀ beginning, beginning <+: after →
        before.countP closes + beginning.countP closes ≤ depth + (before.countP opens + beginning.countP opens) := by
  constructor
  · intro h
    refine ⟨?_, ?_⟩
    · intro beginning hb
      exact h beginning (hb.trans (List.prefix_append before after))
    · intro beginning hb
      have hle := h (before ++ beginning) ((List.prefix_append_right_inj before).mpr hb)
      rwa [List.countP_append, List.countP_append] at hle
  · rintro ⟨hbefore, hafter⟩ beginning hb
    rcases List.prefix_or_prefix_of_prefix hb (List.prefix_append before after) with hshort | ⟨rest, rfl⟩
    · exact hbefore beginning hshort
    · rw [List.countP_append, List.countP_append]
      exact hafter rest ((List.prefix_append_right_inj before).mp hb)

variable (hdisjoint : ∀ a, opens a = true → closes a = false)

include hdisjoint

theorem opens_eq_false_of_closes (hb : closes b = true) : opens b = false := by
  cases ho : opens b with
  | false => rfl
  | true => exact absurd hb (by simp [hdisjoint b ho])

/-- An end behind a balanced word has nothing to close. -/
theorem not_closesWithin_of_balanced (h : Balanced opens closes inner) (hb : closes b = true) (after : List α) :
    ¬ ClosesWithin opens closes 0 (inner ++ b :: after) := by
  intro hwithin
  have hle := (closesWithin_append_iff.mp hwithin).2 [b] (List.prefix_append [b] after)
  have hcount := h.2
  simp only [List.countP_cons, List.countP_nil, hb, opens_eq_false_of_closes hdisjoint hb, if_true, Bool.false_eq_true,
    if_false] at hle
  omega

/-- Behind a start there is at most one end with a balanced word in between. -/
theorem Balanced.inner_unique (h : Balanced opens closes inner) (h' : Balanced opens closes inner') (hb : closes b = true)
    (hb' : closes b' = true) (heq : inner ++ b :: outer = inner' ++ b' :: outer') :
    inner = inner' ∧ b = b' ∧ outer = outer' := by
  -- the longer of the two words would go on behind the end of the other one
  have hlonger : ∀ {u v : List α} {c d : α} {middle w x : List α}, Balanced opens closes u → Balanced opens closes v →
      closes c = true → v = u ++ middle → c :: w = middle ++ d :: x → middle = [] := by
    intro u v c d middle w x hu hv hc hmiddle hseam
    cases middle with
    | nil => rfl
    | cons e middle =>
      obtain ⟨rfl, -⟩ := List.cons.inj hseam
      subst hmiddle
      exact absurd hv.1 (not_closesWithin_of_balanced hdisjoint hu hc middle)
  rcases List.append_eq_append_iff.mp heq with ⟨middle, hinner, hseam⟩ | ⟨middle, hinner, hseam⟩
  · obtain rfl := hlonger h h' hb hinner hseam
    obtain ⟨rfl, rfl⟩ := List.cons.inj hseam
    exact ⟨by rw [hinner, List.append_nil], rfl, rfl⟩
  · obtain rfl := hlonger h' h hb' hinner hseam
    obtain ⟨rfl, rfl⟩ := List.cons.inj hseam
    exact ⟨by rw [hinner, List.append_nil], rfl, rfl⟩

/-- An end has a start before it, if no beginning of the word closes too much. -/
theorem exists_opens_of_closesWithin (h : ClosesWithin opens closes 0 (before ++ b :: after)) (hb : closes b = true) :
    ∃ outer a inner, before = outer ++ a :: inner ∧ opens a = true ∧ Balanced opens closes inner := by
  rcases closesAll_or_exists_blamed hdisjoint 0 before with ⟨depth, hdepth, hbefore⟩ | ⟨outer, a, inner, rfl, hblamed⟩
  · obtain rfl : depth = 0 := Nat.le_zero.mp hdepth
    exact absurd h (not_closesWithin_of_balanced hdisjoint hbefore hb after)
  · rcases hblamed with ⟨ha, houter⟩ | ⟨ha, -, hinner⟩
    · rw [List.append_assoc, List.cons_append] at h
      exact absurd h (not_closesWithin_of_balanced hdisjoint houter ha _)
    · exact ⟨outer, a, inner, rfl, ha, hinner⟩

/-- A start of a balanced word has an end behind it. -/
theorem exists_closes_of_balanced (h : Balanced opens closes (before ++ a :: after)) (ha : opens a = true) :
    ∃ inner b outer, after = inner ++ b :: outer ∧ closes b = true ∧ Balanced opens closes inner := by
  have hbefore := (closesWithin_append_iff.mp h.1).1 before (List.prefix_refl before)
  have hcount := h.2
  simp only [List.countP_append, List.countP_cons, ha, hdisjoint a ha, if_true, Bool.false_eq_true, if_false] at hcount
  rcases closesAll_or_exists_blamed hdisjoint 0 after with ⟨depth, hdepth, hafter⟩ | ⟨inner, b, outer, rfl, hblamed⟩
  · have hafter := hafter.2
    omega
  · rcases hblamed with ⟨hb, hinner⟩ | ⟨hb, hinner, houter⟩
    · exact ⟨inner, b, outer, rfl, hb, hinner⟩
    · -- with one more start left open behind it the word would not be balanced
      have hinner := hinner inner (List.prefix_refl inner)
      have houter := houter.2
      simp only [List.countP_append, List.countP_cons, hb, hdisjoint b hb, if_true, Bool.false_eq_true, if_false] at hcount
      omega

end Word

theorem Token.kind_ne_loopEnd_of_loopStart (t : Token) (h : (t.kind == .loopStart) = true) : (t.kind == .loopEnd) = false := by
  rw [beq_iff_eq.mp h]
  rfl

theorem Token.exists_eq_loopStart {t : Token} (h : (t.kind == .loopStart) = true) : ∃ target, t = .loopStart target := by
  cases t <;> first | exact ⟨_, rfl⟩ | cases h

theorem Token.exists_eq_loopEnd {t : Token} (h : (t.kind == .loopEnd) = true) : ∃ target, t = .loopEnd target := by
  cases t <;> first | exact ⟨_, rfl⟩ | cases h

namespace Program

/-! ## Partners in a list of tokens -/

/-- No beginning of a list of tokens closes more loops than it opens. -/
def ClosesOpened (tokens : List Token) : Prop :=
  ClosesWithin (fun t : Token => t.kind == .loopStart) (fun t : Token => t.kind == .loopEnd) 0 tokens

/-- A start and an end of a list of tokens are partners: the tokens between them are balanced. -/
structure Partners (tokens : List Token) (start stop : Nat) : Prop where
  opens : ∃ target, tokens[start]? = some (.loopStart target)
  closes : ∃ target, tokens[stop]? = some (.loopEnd target)
  lt : start < stop
  between : Balanced ((tokens.take stop).drop (start + 1))

/-- An end is stray: with it more loops are closed than were opened. -/
structure Stray (tokens : List Token) (stop : Nat) : Prop where
  closes : ∃ target, tokens[stop]? = some (.loopEnd target)
  more : (tokens.take (stop + 1)).countP (fun t => t.kind == .loopStart) <
    (tokens.take (stop + 1)).countP (fun t => t.kind == .loopEnd)

/-- A start is left open: it has no partner. -/
structure LeftOpen (tokens : List Token) (start : Nat) : Prop where
  opens : ∃ target, tokens[start]? = some (.loopStart target)
  alone : ∀ stop, ¬ Partners tokens start stop

/-- The tokens of a list are paired: each loop token has a partner and is pointed at it, and the other tokens are as they were. -/
structure Paired (tokens linked : List Token) : Prop where
  length : linked.length = tokens.length
  others : ∀ (index : Nat) (t : Token), tokens[index]? = some t → t.isLoop = false → linked[index]? = some t
  starts : ∀ (start : Nat) target, tokens[start]? = some (.loopStart target) → ∃ stop, Partners tokens start stop
  ends : ∀ (stop : Nat) target, tokens[stop]? = some (.loopEnd target) → ∃ start, Partners tokens start stop
  targets : ∀ start stop, Partners tokens start stop →
    linked[start]? = some (.loopStart (some (.nat stop))) ∧ linked[stop]? = some (.loopEnd (some (.nat start)))

variable {tokens tokens' before after : List Token} {start stop : Nat} {target : Option Numeral}

/-- Partners split a list in three: what is before them, between them and behind them. -/
theorem partners_iff : Partners tokens start stop ↔
    ∃ before target inner target' after, tokens = before ++ .loopStart target :: (inner ++ .loopEnd target' :: after) ∧
      before.length = start ∧ before.length + 1 + inner.length = stop ∧ Balanced inner := by
  constructor
  · rintro ⟨⟨target, hopens⟩, ⟨target', hcloses⟩, hlt, hbetween⟩
    obtain ⟨before, rest, rfl, rfl⟩ := exists_append_of_getElem? hopens
    have hstop : stop - before.length = (stop - before.length - 1) + 1 := by omega
    rw [List.getElem?_append_right (by omega), hstop, List.getElem?_cons_succ] at hcloses
    obtain ⟨inner, after, rfl, hinner⟩ := exists_append_of_getElem? hcloses
    obtain rfl : before.length + 1 + inner.length = stop := by omega
    rw [take_drop_between] at hbetween
    exact ⟨before, target, inner, target', after, rfl, rfl, rfl, hbetween⟩
  · rintro ⟨before, target, inner, target', after, rfl, rfl, rfl, hinner⟩
    exact ⟨⟨target, by simp⟩, ⟨target', getElem?_second before inner after⟩, by omega, by rwa [take_drop_between]⟩

/-- Partners stay partners where other tokens stand in front. -/
theorem Partners.append_left (h : Partners tokens start stop) (before : List Token) :
    Partners (before ++ tokens) (before.length + start) (before.length + stop) := by
  obtain ⟨front, target, inner, target', after, rfl, rfl, rfl, hinner⟩ := partners_iff.mp h
  refine partners_iff.mpr ⟨before ++ front, target, inner, target', after, by simp, by simp, ?_, hinner⟩
  rw [List.length_append]
  omega

/-! ## Partners of a balanced list -/

/-- An end has a partner, if no beginning of the list closes too much. -/
theorem exists_partner_of_loopEnd (h : ClosesOpened tokens) (hstop : tokens[stop]? = some (.loopEnd target)) :
    ∃ start, Partners tokens start stop := by
  obtain ⟨before, after, rfl, rfl⟩ := exists_append_of_getElem? hstop
  obtain ⟨outer, a, inner, rfl, ha, hinner⟩ := exists_opens_of_closesWithin Token.kind_ne_loopEnd_of_loopStart h rfl
  obtain ⟨target', rfl⟩ := Token.exists_eq_loopStart ha
  refine ⟨outer.length, partners_iff.mpr ⟨outer, target', inner, target, after, by simp, rfl, ?_, hinner⟩⟩
  rw [List.length_append, List.length_cons]
  omega

/-- A start of a balanced list has a partner. -/
theorem exists_partner_of_loopStart (h : Balanced tokens) (hstart : tokens[start]? = some (.loopStart target)) :
    ∃ stop, Partners tokens start stop := by
  obtain ⟨before, after, rfl, rfl⟩ := exists_append_of_getElem? hstart
  obtain ⟨inner, b, outer, rfl, hb, hinner⟩ := exists_closes_of_balanced Token.kind_ne_loopEnd_of_loopStart h rfl
  obtain ⟨target', rfl⟩ := Token.exists_eq_loopEnd hb
  exact ⟨_, partners_iff.mpr ⟨before, target, inner, target', outer, rfl, rfl, rfl, hinner⟩⟩

/-! ## Lists that can be paired -/

/-- Pairing accepts exactly the balanced lists. -/
theorem exists_resolve_iff : (∃ linked, resolve tokens = .ok linked) ↔ Balanced tokens := by
  rw [Block.balanced_iff_read]
  constructor
  · rintro ⟨linked, h⟩
    obtain ⟨b, hread, -⟩ := Block.resolve_eq_ok_iff.mp h
    exact ⟨b, hread⟩
  · rintro ⟨b, hread⟩
    exact ⟨_, Block.resolve_of_read hread⟩

/-- Tokens that cannot be paired have one that is to blame, and its index is reported. -/
theorem exists_blamed_of_resolve {loop : UnmatchedLoop} (h : resolve tokens = .error loop) :
    ∃ before t after, tokens = before ++ t :: after ∧ Blamed 0 before t after ∧ loop.index = before.length := by
  rcases closesAll_or_exists_blamed Token.kind_ne_loopEnd_of_loopStart 0 tokens with
    ⟨depth, hdepth, hbalanced⟩ | ⟨before, t, after, rfl, hblamed⟩
  · obtain rfl : depth = 0 := Nat.le_zero.mp hdepth
    obtain ⟨linked, hlinked⟩ := exists_resolve_iff.mpr hbalanced
    rw [hlinked] at h
    cases h
  · rw [resolve_of_blamed hblamed] at h
    cases h
    exact ⟨before, t, after, rfl, hblamed, rfl⟩

/-! ## Targets do not matter -/

theorem balanced_congr (h : tokens.map Token.untarget = tokens'.map Token.untarget) : Balanced tokens ↔ Balanced tokens' := by
  rw [Block.balanced_iff_read, Block.balanced_iff_read, ← Block.read_map_untarget, h, Block.read_map_untarget]

theorem Partners.congr (h : tokens.map Token.untarget = tokens'.map Token.untarget) (hpartners : Partners tokens start stop) :
    Partners tokens' start stop := by
  have hindex : ∀ index : Nat, tokens'[index]?.map Token.untarget = tokens[index]?.map Token.untarget := by
    intro index
    rw [← List.getElem?_map, ← List.getElem?_map, h]
  obtain ⟨⟨target, hopens⟩, ⟨target', hcloses⟩, hlt, hbetween⟩ := hpartners
  refine ⟨?_, ?_, hlt, ?_⟩
  · have hstart := hindex start
    rw [hopens, Option.map_some, Option.map_eq_some_iff] at hstart
    obtain ⟨t, ht, huntarget⟩ := hstart
    obtain ⟨old, rfl⟩ := Token.untarget_eq_loopStart huntarget
    exact ⟨old, ht⟩
  · have hstop := hindex stop
    rw [hcloses, Option.map_some, Option.map_eq_some_iff] at hstop
    obtain ⟨t, ht, huntarget⟩ := hstop
    obtain ⟨old, rfl⟩ := Token.untarget_eq_loopEnd huntarget
    exact ⟨old, ht⟩
  · refine (balanced_congr ?_).mp hbetween
    rw [List.map_drop, List.map_take, h, List.map_drop, List.map_take]

theorem blamed_map_untarget {t : Token} (h : Blamed 0 before t after) :
    Blamed 0 (before.map Token.untarget) t.untarget (after.map Token.untarget) := by
  have hkind : ∀ u : Token, u.untarget.kind = u.kind := by
    intro u
    cases u <;> rfl
  unfold Blamed Brainfuck.Blamed Brainfuck.Balanced at h ⊢
  simpa only [closesAll_map_iff, closesWithin_map_iff, Function.comp_def, hkind] using h

/-- Pairing a list without its targets gives what pairing the list gives, also where it fails. -/
theorem resolve_map_untarget (tokens : List Token) : resolve (tokens.map Token.untarget) = resolve tokens := by
  cases h : resolve tokens with
  | ok linked =>
    have huntarget : tokens.map Token.untarget = (tokens.map Token.untarget).map Token.untarget := by
      rw [List.map_map]
      exact List.map_congr_left fun t _ => (Token.untarget_untarget t).symm
    exact resolve_congr huntarget h
  | error loop =>
    obtain ⟨before, t, after, rfl, hblamed, hindex⟩ := exists_blamed_of_resolve h
    rw [List.map_append, List.map_cons, resolve_of_blamed (blamed_map_untarget hblamed), List.length_map, ← hindex]

end Program

/-! ## Paired tokens -/

namespace Block

theorem balanced_link {b : Block} (hb : b.Plain) (first : Nat) : Program.Balanced (b.link first) := by
  have hfrom := resolveFrom_append hb (map_untarget_link hb first) [] #[] []
  rw [List.append_nil] at hfrom
  have hresolve : Program.resolve (b.link first) = .ok (b.link 0) := by
    rw [Program.resolve, hfrom]
    simp [Program.resolveFrom, Except.map]
  exact Program.exists_resolve_iff.mp ⟨_, hresolve⟩

/-- In the linked tokens of a block each start is followed by the body of its loop and by the end, and the two point at each other. -/
theorem link_eq_append_loopStart {b : Block} (hb : b.Plain) {first : Nat} {before after : List Token} {target : Option Numeral}
    (h : b.link first = before ++ .loopStart target :: after) :
    ∃ inner outer, after = inner ++ .loopEnd (some (.nat (first + before.length))) :: outer ∧
      target = some (.nat (first + before.length + 1 + inner.length)) ∧ Program.Balanced inner := by
  induction b generalizing first before after with
  | done => simp [link] at h
  | simple t rest ih =>
    cases before with
    | nil =>
      obtain ⟨rfl, -⟩ := List.cons.inj h
      exact absurd hb.1 (by simp [Token.isLoop, Token.kind])
    | cons t' before =>
      obtain ⟨-, hrest⟩ := List.cons.inj h
      have hfirst : first + (t' :: before).length = first + 1 + before.length := by
        rw [List.length_cons]
        omega
      rw [hfirst]
      exact ih hb.2 hrest
  | loop body rest ihb ihr =>
    cases before with
    | nil =>
      obtain ⟨hstart, hafter⟩ := List.cons.inj h
      cases hstart
      refine ⟨body.link (first + 1), rest.link (first + 2 + body.size), hafter.symm, ?_, balanced_link hb.1 _⟩
      rw [length_link, List.length_nil, Nat.add_zero]
    | cons t' before =>
      have htail : body.link (first + 1) ++ .loopEnd (some (.nat first)) :: rest.link (first + 2 + body.size) =
          before ++ .loopStart target :: after := (List.cons.inj h).2
      rcases List.append_eq_append_iff.mp htail with ⟨middle, rfl, hseam⟩ | ⟨middle, hbody, hseam⟩
      · -- the start stands behind the end of the loop
        cases middle with
        | nil => cases (List.cons.inj hseam).1
        | cons stop middle =>
          obtain ⟨-, hrest⟩ := List.cons.inj hseam
          have hfirst : first + (t' :: (body.link (first + 1) ++ stop :: middle)).length =
              first + 2 + body.size + middle.length := by
            simp
            omega
          rw [hfirst]
          exact ihr hb.2 hrest
      · -- the start stands in the body
        cases middle with
        | nil => cases (List.cons.inj hseam).1
        | cons start middle =>
          obtain ⟨rfl, hafter⟩ := List.cons.inj hseam
          have hfirst : first + (t' :: before).length = first + 1 + before.length := by
            rw [List.length_cons]
            omega
          obtain ⟨inner, outer, rfl, htarget, hinner⟩ := ihb hb.1 hbody
          rw [hfirst]
          refine ⟨inner, outer ++ .loopEnd (some (.nat first)) :: rest.link (first + 2 + body.size), ?_, htarget, hinner⟩
          rw [hafter]
          exact List.append_assoc _ _ _

end Block

namespace Program

variable {tokens linked : List Token}

/-- Partners in a paired list point at each other. -/
theorem targets_of_resolve (h : resolve tokens = .ok linked) {start stop : Nat} (hpartners : Partners tokens start stop) :
    linked[start]? = some (.loopStart (some (.nat stop))) ∧ linked[stop]? = some (.loopEnd (some (.nat start))) := by
  have hlinked := hpartners.congr (map_untarget_of_resolve h).symm
  obtain ⟨before, target, inner, target', after, hsplit, rfl, rfl, hinner⟩ := partners_iff.mp hlinked
  obtain ⟨b, hread, rfl⟩ := Block.resolve_eq_ok_iff.mp h
  obtain ⟨inner', outer, hafter, rfl, hinner'⟩ :=
    Block.link_eq_append_loopStart (Block.plain_of_read hread b (by simp)) hsplit
  obtain ⟨rfl, hstop, rfl⟩ := Balanced.inner_unique Token.kind_ne_loopEnd_of_loopStart hinner hinner' rfl rfl hafter
  cases hstop
  rw [hsplit]
  refine ⟨by simp, ?_⟩
  rw [getElem?_second, Nat.zero_add]

/-- A balanced list is paired, and pairing it again changes nothing. -/
theorem paired_of_resolve (h : resolve tokens = .ok linked) : Paired tokens linked ∧ resolve linked = .ok linked := by
  have huntarget := map_untarget_of_resolve h
  have hbalanced : Balanced tokens := exists_resolve_iff.mp ⟨linked, h⟩
  refine ⟨⟨?_, ?_, ?_, ?_, ?_⟩, resolve_congr huntarget.symm h⟩
  · have hlength := congrArg List.length huntarget
    rwa [List.length_map, List.length_map] at hlength
  · intro index t ht hloop
    have hmap : linked[index]?.map Token.untarget = some t.untarget := by
      rw [← List.getElem?_map, huntarget, List.getElem?_map, ht, Option.map_some]
    obtain ⟨u, hu, hsame⟩ := Option.map_eq_some_iff.mp hmap
    have huloop : u.isLoop = false := by rw [← Token.isLoop_untarget, hsame, Token.isLoop_untarget, hloop]
    rw [Token.untarget_of_not_isLoop hloop, Token.untarget_of_not_isLoop huloop] at hsame
    rw [hu, hsame]
  · intro start target hstart
    exact exists_partner_of_loopStart hbalanced hstart
  · intro stop target hstop
    exact exists_partner_of_loopEnd hbalanced.1 hstop
  · intro start stop hpartners
    exact targets_of_resolve h hpartners

/-! ## The loop token that is reported -/

theorem not_stray_of_closesOpened {index : Nat} (h : ClosesOpened (tokens.take (index + 1))) : ¬ Stray tokens index := by
  intro hstray
  have hle := h _ (List.prefix_refl _)
  have hmore := hstray.more
  omega

/-- An end behind a balanced list is the first that is stray. -/
theorem isLeast_stray {before after : List Token} {t : Token} (ht : (t.kind == .loopEnd) = true) (hbefore : Balanced before) :
    IsLeast {index | Stray (before ++ t :: after) index} before.length := by
  constructor
  · obtain ⟨target, htarget⟩ := Token.exists_eq_loopEnd ht
    refine ⟨⟨target, by simp [htarget]⟩, ?_⟩
    have htake : (before ++ t :: after).take (before.length + 1) = before ++ [t] := by
      rw [← List.singleton_append, ← List.append_assoc]
      exact List.take_left' (by simp)
    have hcount := hbefore.2
    have hopens := opens_eq_false_of_closes Token.kind_ne_loopEnd_of_loopStart ht
    rw [htake, List.countP_append, List.countP_append]
    simp only [List.countP_cons, List.countP_nil, ht, hopens, if_true, Bool.false_eq_true, if_false]
    omega
  · intro index hstray
    by_contra hlt
    refine not_stray_of_closesOpened ?_ hstray
    intro beginning hb
    rw [List.take_append_of_le_length (by omega)] at hb
    exact hbefore.1 beginning (hb.trans (List.take_prefix _ _))

/-- If a start is followed by balanced tokens, and nothing before it closes too much, nothing does. -/
theorem closesOpened_of_blamed {before after : List Token} {t : Token} (ht : (t.kind == .loopStart) = true)
    (hbefore : ClosesOpened before) (hafter : Balanced after) : ClosesOpened (before ++ t :: after) := by
  refine closesWithin_append_iff.mpr ⟨hbefore, ?_⟩
  intro beginning hb
  have hle := hbefore before (List.prefix_refl before)
  rcases List.prefix_cons_iff.mp hb with rfl | ⟨rest, rfl, hrest⟩
  · simpa using hle
  · have hrest := hafter.1 rest hrest
    rw [List.countP_cons, List.countP_cons, ht, Token.kind_ne_loopEnd_of_loopStart t ht, if_neg Bool.false_ne_true]
    omega

/-- A start before balanced tokens is the last one without a partner. -/
theorem isGreatest_leftOpen {before after : List Token} {t : Token} (ht : (t.kind == .loopStart) = true)
    (hafter : Balanced after) : IsGreatest {start | LeftOpen (before ++ t :: after) start} before.length := by
  obtain ⟨target, rfl⟩ := Token.exists_eq_loopStart ht
  constructor
  · refine ⟨⟨target, by simp⟩, ?_⟩
    intro stop hpartners
    obtain ⟨before', target', inner, target'', after', hsplit, hlength, -, hinner⟩ := partners_iff.mp hpartners
    obtain ⟨rfl, htail⟩ := List.append_inj hsplit hlength.symm
    obtain ⟨-, rfl⟩ := List.cons.inj htail
    exact not_closesWithin_of_balanced Token.kind_ne_loopEnd_of_loopStart hinner rfl after' hafter.1
  · intro start hopen
    by_contra hlt
    obtain ⟨target', hstart⟩ := hopen.opens
    obtain ⟨index, rfl⟩ : ∃ index, start = before.length + 1 + index := ⟨start - before.length - 1, by omega⟩
    have hindex : before.length + 1 + index - before.length = index + 1 := by omega
    rw [List.getElem?_append_right (by omega), hindex, List.getElem?_cons_succ] at hstart
    obtain ⟨stop, hpartners⟩ := exists_partner_of_loopStart hafter hstart
    have hmoved := hpartners.append_left (before ++ [.loopStart target])
    rw [List.append_assoc, List.length_append, List.length_singleton] at hmoved
    exact hopen.alone _ hmoved

/-! ## Pairing accepts the balanced lists -/

/-- Pairing accepts exactly the lists whose loop tokens are balanced. Such a list is paired: each loop token is pointed at its
partner and nothing else changes; and pairing again changes nothing. Old targets do not matter, neither to what is paired nor to
what fails. Where pairing fails, it reports the first end with which more loops are closed than were opened; if there is none, it
reports the last start without a partner, and then every end has one. -/
theorem resolve_pairs (tokens : List Token) :
    ((∃ linked, resolve tokens = .ok linked) ↔ Balanced tokens) ∧
      (∀ linked, resolve tokens = .ok linked → Paired tokens linked ∧ resolve linked = .ok linked) ∧
      (∀ tokens', tokens.map Token.untarget = tokens'.map Token.untarget → resolve tokens = resolve tokens') ∧
      ∀ loop, resolve tokens = .error loop →
        IsLeast {stop | Stray tokens stop} loop.index ∨
          (∀ stop, ¬ Stray tokens stop) ∧ IsGreatest {start | LeftOpen tokens start} loop.index ∧
            ∀ (stop : Nat) target, tokens[stop]? = some (.loopEnd target) → ∃ start, Partners tokens start stop := by
  refine ⟨exists_resolve_iff, fun _ => paired_of_resolve, ?_, ?_⟩
  · intro tokens' h
    rw [← resolve_map_untarget, h, resolve_map_untarget]
  · intro loop h
    obtain ⟨before, t, after, rfl, hblamed, hindex⟩ := exists_blamed_of_resolve h
    rw [hindex]
    rcases hblamed with ⟨ht, hbefore⟩ | ⟨ht, hbefore, hafter⟩
    · exact Or.inl (isLeast_stray ht hbefore)
    · have hwithin := closesOpened_of_blamed ht hbefore hafter
      refine Or.inr ⟨?_, isGreatest_leftOpen ht hafter, ?_⟩
      · intro stop
        refine not_stray_of_closesOpened ?_
        intro beginning hb
        exact hwithin beginning (hb.trans (List.take_prefix _ _))
      · intro stop target hstop
        exact exists_partner_of_loopEnd hwithin hstop

/-- Of `[]]][` the second end is reported, though a start is left open behind it; of `[[][` the last start is, though the first one
is left open too; and the loop in `[x]` is paired whatever its old target is. -/
theorem resolve_pairs_loop :
    let early := tokenize ['[', ']', ']', ']', '[']
    let late := tokenize ['[', '[', ']', '[']
    let tokens := [.loopStart (some (.nat 9)), Token.ofChar 'x', .loopEnd none]
    resolve early = .error ⟨2⟩ ∧ IsLeast {stop | Stray early stop} 2 ∧
      resolve late = .error ⟨3⟩ ∧ IsGreatest {start | LeftOpen late start} 3 ∧
      tokens.map Token.untarget = (tokenize ['[', 'x', ']']).map Token.untarget ∧ resolve tokens = resolve (tokenize ['[', 'x', ']']) ∧
      resolve tokens = .ok [.loopStart (some (.nat 2)), Token.ofChar 'x', .loopEnd (some (.nat 0))] ∧
      Paired tokens [.loopStart (some (.nat 2)), Token.ofChar 'x', .loopEnd (some (.nat 0))] := by
  intro early late tokens
  have hearly : resolve early = .error ⟨2⟩ := rfl
  have hlate : resolve late = .error ⟨3⟩ := rfl
  obtain ⟨-, hpaired, hcongr, -⟩ := resolve_pairs tokens
  refine ⟨rfl, ?_, rfl, ?_, rfl, hcongr _ rfl, rfl, (hpaired _ rfl).1⟩
  · rcases (resolve_pairs early).2.2.2 _ hearly with hleast | ⟨hnone, -, -⟩
    · exact hleast
    · exact absurd ⟨⟨none, rfl⟩, by decide⟩ (hnone 2)
  · rcases (resolve_pairs late).2.2.2 _ hlate with hleast | ⟨-, hgreatest, -⟩
    · obtain ⟨⟨target, hstop⟩, -⟩ := hleast.1
      cases hstop
    · exact hgreatest

end Program

end Brainfuck
