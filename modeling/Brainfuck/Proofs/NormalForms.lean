import Brainfuck.Proofs.Options
import Brainfuck.Proofs.Reduction

/-!
# Normal forms

A compiled program, written as a source, is the source that was compiled, or the optimized source if the compilation optimizes and
merges. The programs of the default compilation are those in normal form (`Program.Normal`), and each of these is what its own
source is compiled to, so two sources have one program exactly if they have one optimized text (`compile_lossless`).

In between stands the shape of a merged program (`Program.Shaped`): no count is zero and no two neighbours could be merged. The
text of such a program is reduced, merging the text gives the program back (`compress_tokenize_toSource`), and every reduced text of
commands is the text of such a program (`exists_shaped`).
-/

namespace Brainfuck

/-! ## Tokens in normal form -/

/-- The token with its count or its target as an integer. A truth value is equal to the integer it counts as, so the token is
equal to the one it was. -/
def Token.integral : Token → Token
  | .increment n => .increment (.nat n.toNat)
  | .decrement n => .decrement (.nat n.toNat)
  | .moveLeft n => .moveLeft (.nat n.toNat)
  | .moveRight n => .moveRight (.nat n.toNat)
  | .loopStart target => .loopStart (target.map fun n => .nat n.toNat)
  | .loopEnd target => .loopEnd (target.map fun n => .nat n.toNat)
  | t => t

/-- A token that can stand in a normal form: a count is at least one, a payload is null, and there are no no-ops. -/
def Token.IsNormal : Token → Prop
  | .increment n | .decrement n | .moveLeft n | .moveRight n => 1 ≤ n.toNat
  | .loopStart _ | .loopEnd _ => True
  | .output payload | .input payload => payload = .null
  | .noOp _ => False

/-- Two neighbours belong to one run: both are arithmetic, or both are moves. -/
def Token.Joins (t u : Token) : Prop :=
  (t.delta?.isSome = true ∧ u.delta?.isSome = true) ∨ (t.shift?.isSome = true ∧ u.shift?.isSome = true)

/-- Two tokens are both arithmetic, or both moves, or both neither. -/
def Token.SameClass (t u : Token) : Prop :=
  t.delta?.isSome = u.delta?.isSome ∧ t.shift?.isSome = u.shift?.isSome

namespace Program

/-- A program is merged: its tokens are normal, and no two neighbours belong to one run. -/
structure Shaped (ts : List Token) : Prop where
  tokens : ∀ t ∈ ts, t.IsNormal
  apart : ts.IsChain fun t u => ¬ t.Joins u

/-- A program is in normal form: it is merged, and its targets are those that pairing finds. -/
structure Normal (ts : List Token) : Prop extends Shaped ts where
  linked : (resolve ts).map (List.map Token.integral) = .ok (ts.map Token.integral)

end Program

namespace Token

variable {t u v : Token} {c : Char}

theorem SameClass.joins_iff_left (h : t.SameClass u) : t.Joins v ↔ u.Joins v := by
  rw [Joins, Joins, h.1, h.2]

theorem SameClass.joins_iff_right (h : t.SameClass u) : v.Joins t ↔ v.Joins u := by
  rw [Joins, Joins, h.1, h.2]

theorem sameClass_integral (t : Token) : t.integral.SameClass t := by
  cases t <;> exact ⟨rfl, rfl⟩

theorem sameClass_untarget (t : Token) : t.untarget.SameClass t := by
  cases t <;> exact ⟨rfl, rfl⟩

theorem isNormal_integral (t : Token) : t.integral.IsNormal ↔ t.IsNormal := by
  cases t <;> rfl

theorem isNormal_untarget (t : Token) : t.untarget.IsNormal ↔ t.IsNormal := by
  cases t <;> rfl

/-- The token of a command that undoes another is of its class. -/
theorem joins_of_inverse? {d : Char} (h : Source.inverse? d = some c) : (ofChar c).Joins (ofChar d) := by
  unfold Source.inverse? at h
  split at h <;> cases h
  · exact Or.inl ⟨rfl, rfl⟩
  · exact Or.inl ⟨rfl, rfl⟩
  · exact Or.inr ⟨rfl, rfl⟩
  · exact Or.inr ⟨rfl, rfl⟩

theorem isNormal_ofChar (hc : Source.isCommand c = true) : (ofChar c).IsNormal := by
  have hcommand : c = '+' ∨ c = '-' ∨ c = '<' ∨ c = '>' ∨ c = ',' ∨ c = '.' ∨ c = '[' ∨ c = ']' := by
    simpa [Source.isCommand, or_assoc] using hc
  rcases hcommand with rfl | rfl | rfl | rfl | rfl | rfl | rfl | rfl <;> simp [ofChar, IsNormal, Numeral.toNat]

end Token

namespace Program

/-! ## Texts of tokens -/

/-- The source of the token of a character is the character. -/
theorem sourceOf_ofChar (c : Char) : sourceOf (Token.ofChar c) = [c] := by
  unfold Token.ofChar
  split <;> simp [sourceOf, Numeral.toNat]

theorem toSource_tokenize (source : List Char) : toSource (tokenize source) = source := by
  rw [toSource, tokenize, List.flatMap_map]
  simp only [sourceOf_ofChar, List.flatMap_singleton']

theorem sourceOf_untarget (t : Token) : sourceOf t.untarget = sourceOf t := by
  cases t <;> rfl

theorem sourceOf_integral (t : Token) : sourceOf t.integral = sourceOf t := by
  cases t <;> rfl

theorem toSource_cons (t : Token) (ts : List Token) : toSource (t :: ts) = sourceOf t ++ toSource ts :=
  List.flatMap_cons

theorem toSource_map {f : Token → Token} (hf : ∀ t, sourceOf (f t) = sourceOf t) (ts : List Token) :
    toSource (ts.map f) = toSource ts := by
  rw [toSource, List.flatMap_map]
  simp only [hf]
  rfl

/-- A source does not show targets. -/
theorem toSource_congr {ts us : List Token} (h : ts.map Token.untarget = us.map Token.untarget) :
    toSource ts = toSource us := by
  rw [← toSource_map sourceOf_untarget ts, h, toSource_map sourceOf_untarget]

/-- The source of a normal token is a command, once or more often, of the class of the token. -/
theorem exists_replicate {t : Token} (ht : t.IsNormal) :
    ∃ c k, sourceOf t = List.replicate (k + 1) c ∧ Source.isCommand c = true ∧ (Token.ofChar c).SameClass t := by
  have hcount : ∀ {n : Numeral}, 1 ≤ n.toNat → n.toNat = (n.toNat - 1) + 1 := by
    intro n hn
    omega
  cases t with
  | noOp payload => exact ht.elim
  | increment n => exact ⟨'+', n.toNat - 1, by rw [sourceOf, ← hcount ht], rfl, rfl, rfl⟩
  | decrement n => exact ⟨'-', n.toNat - 1, by rw [sourceOf, ← hcount ht], rfl, rfl, rfl⟩
  | moveLeft n => exact ⟨'<', n.toNat - 1, by rw [sourceOf, ← hcount ht], rfl, rfl, rfl⟩
  | moveRight n => exact ⟨'>', n.toNat - 1, by rw [sourceOf, ← hcount ht], rfl, rfl, rfl⟩
  | loopStart target => exact ⟨'[', 0, rfl, rfl, rfl, rfl⟩
  | loopEnd target => exact ⟨']', 0, rfl, rfl, rfl, rfl⟩
  | output payload => exact ⟨'.', 0, rfl, rfl, rfl, rfl⟩
  | input payload => exact ⟨',', 0, rfl, rfl, rfl, rfl⟩

/-! ## Merged programs -/

namespace Shaped

variable {t : Token} {ts us : List Token}

theorem head (h : Shaped (t :: ts)) : t.IsNormal := h.tokens t List.mem_cons_self

theorem tail (h : Shaped (t :: ts)) : Shaped ts :=
  ⟨fun u hu => h.tokens u (List.mem_cons_of_mem t hu), h.apart.tail⟩

/-- A change of tokens that keeps classes and normality keeps merged programs. -/
theorem map_iff {f : Token → Token} (hclass : ∀ t, (f t).SameClass t) (hnormal : ∀ t, (f t).IsNormal ↔ t.IsNormal) :
    Shaped (ts.map f) ↔ Shaped ts := by
  have hjoins : ∀ t u : Token, ¬ (f t).Joins (f u) ↔ ¬ t.Joins u := by
    intro t u
    rw [(hclass t).joins_iff_left, (hclass u).joins_iff_right]
  constructor
  · intro h
    refine ⟨?_, ?_⟩
    · intro t ht
      exact (hnormal t).mp (h.tokens _ (List.mem_map_of_mem ht))
    · have hchain := (List.isChain_map f).mp h.apart
      exact hchain.imp fun t u => (hjoins t u).mp
  · intro h
    refine ⟨?_, (List.isChain_map f).mpr (h.apart.imp fun t u => (hjoins t u).mpr)⟩
    intro u hu
    obtain ⟨t, ht, rfl⟩ := List.mem_map.mp hu
    exact (hnormal t).mpr (h.tokens t ht)

/-- Targets do not matter to a merged program. -/
theorem congr (h : Shaped us) (huntarget : ts.map Token.untarget = us.map Token.untarget) : Shaped ts := by
  rw [← map_iff Token.sameClass_untarget Token.isNormal_untarget, huntarget]
  exact (map_iff Token.sameClass_untarget Token.isNormal_untarget).mpr h

/-- The text behind the first token of a merged program begins with a command of another class. -/
theorem not_joins_head (h : Shaped (t :: ts)) : ∀ c ∈ (toSource ts).head?, ¬ t.Joins (Token.ofChar c) := by
  intro c hc
  cases ts with
  | nil => cases hc
  | cons u ts =>
    obtain ⟨d, k, hsource, -, hclass⟩ := exists_replicate h.tail.head
    rw [toSource_cons, hsource, List.replicate_succ, List.cons_append, List.head?_cons, Option.mem_some_iff] at hc
    subst hc
    rw [hclass.joins_iff_right]
    exact (List.isChain_cons_cons.mp h.apart).1

theorem isCommand (h : Shaped ts) : ∀ c ∈ toSource ts, Source.isCommand c = true := by
  intro c hc
  obtain ⟨t, ht, hmem⟩ := List.mem_flatMap.mp hc
  obtain ⟨d, k, hsource, hcommand, -⟩ := exists_replicate (h.tokens t ht)
  rw [hsource] at hmem
  rw [List.eq_of_mem_replicate hmem]
  exact hcommand

/-- The text of a merged program is reduced. -/
theorem reduced (h : Shaped ts) : Source.Reduced (toSource ts) := by
  induction ts with
  | nil => exact List.isChain_nil
  | cons t ts ih =>
    obtain ⟨c, k, hsource, -, hclass⟩ := exists_replicate h.head
    have hself : Source.inverse? c ≠ some c := by
      unfold Source.inverse?
      split <;> simp
    rw [toSource_cons, hsource]
    refine List.isChain_append.mpr ⟨List.isChain_replicate_of_rel (k + 1) hself, ih h.tail, ?_⟩
    intro last hlast first hfirst hinverse
    obtain rfl : last = c := List.eq_of_mem_replicate (List.mem_of_getLast? hlast)
    exact h.not_joins_head first hfirst (hclass.joins_iff_left.mp (Token.joins_of_inverse? hinverse))

/-- There is nothing to optimize in the text of a merged program. -/
theorem optimize (h : Shaped ts) : Source.optimize (toSource ts) = toSource ts := by
  have hstrip : Source.stripComments (toSource ts) = toSource ts := List.filter_eq_self.mpr h.isCommand
  rw [Source.optimize, hstrip, Source.cancelPairs_of_reduced h.reduced]

end Shaped

/-! ## Merging the text of a merged program -/

theorem arithmetic_natCast {n : Nat} (hn : 1 ≤ n) :
    arithmetic n = [.increment (.nat n)] ∧ arithmetic (-n) = [.decrement (.nat n)] := by
  constructor
  · rw [arithmetic, if_pos (by omega), Int.toNat_natCast]
  · rw [arithmetic, if_neg (by omega), if_pos (by omega), Int.neg_neg, Int.toNat_natCast]

theorem move_natCast {n : Nat} (hn : 1 ≤ n) :
    move n = [.moveRight (.nat n)] ∧ move (-n) = [.moveLeft (.nat n)] := by
  constructor
  · rw [move, if_pos (by omega), Int.toNat_natCast]
  · rw [move, if_neg (by omega), if_pos (by omega), Int.neg_neg, Int.toNat_natCast]

/-- What is pending is let out in front of a token that does not join it. -/
theorem compressFrom_of_head {delta shift : Int} {us : List Token}
    (hdelta : ∀ u ∈ us.head?, u.delta?.isSome = true → delta = 0)
    (hshift : ∀ u ∈ us.head?, u.shift?.isSome = true → shift = 0) :
    compressFrom delta shift us = arithmetic delta ++ move shift ++ compress us := by
  have hzero : arithmetic 0 = [] ∧ move 0 = [] := ⟨rfl, rfl⟩
  cases us with
  | nil => simp only [compress, compressFrom, hzero, List.append_nil]
  | cons u us =>
    rw [compress, compressFrom, compressFrom]
    cases hd : u.delta? with
    | some d =>
      obtain rfl : delta = 0 := hdelta u rfl (by rw [hd]; rfl)
      simp only [hzero, List.nil_append]
    | none =>
      cases hs : u.shift? with
      | some s =>
        obtain rfl : shift = 0 := hshift u rfl (by rw [hs]; rfl)
        simp only [hzero, List.append_nil, List.nil_append]
      | none => simp only [hzero, List.nil_append]

theorem add_natCast_succ_mul (a d : Int) (n : Nat) : a + (n + 1 : Nat) * d = a + d + n * d := by
  rw [Int.natCast_add, Int.add_mul]
  omega

/-- Arithmetic joins the sum that is pending. -/
theorem compressFrom_cons_of_delta? {t : Token} {d : Int} (ht : t.delta? = some d) (delta : Int) (ts : List Token) :
    compressFrom delta 0 (t :: ts) = compressFrom (delta + d) 0 ts := by
  rw [compressFrom, ht]
  rfl

/-- A token that moves is not arithmetic. -/
theorem delta?_of_shift? {t : Token} {s : Int} (h : t.shift? = some s) : t.delta? = none := by
  cases t with
  | moveLeft | moveRight => rfl
  | _ => cases h

/-- A move joins the distance that is pending. -/
theorem compressFrom_cons_of_shift? {t : Token} {s : Int} (ht : t.shift? = some s) (shift : Int) (ts : List Token) :
    compressFrom 0 shift (t :: ts) = compressFrom 0 (shift + s) ts := by
  rw [compressFrom, delta?_of_shift? ht, ht]
  rfl

/-- Arithmetic that is repeated adds up, and its sum is let out in front of what is not arithmetic. -/
theorem compress_replicate_of_delta? {t : Token} {d : Int} (ht : t.delta? = some d) {us : List Token}
    (hus : ∀ u ∈ us.head?, ¬ t.Joins u) (n : Nat) :
    compress (List.replicate n t ++ us) = arithmetic (n * d) ++ compress us := by
  have hsum : ∀ delta, compressFrom delta 0 (List.replicate n t ++ us) = compressFrom (delta + n * d) 0 us := by
    induction n with
    | zero => simp
    | succ n ih =>
      intro delta
      rw [add_natCast_succ_mul, ← ih (delta + d), List.replicate_succ, List.cons_append, compressFrom_cons_of_delta? ht]
  have hsome : t.delta?.isSome = true := by rw [ht, Option.isSome_some]
  have hout := @compressFrom_of_head (n * d) 0 us (fun u hu hu' => absurd (Or.inl ⟨hsome, hu'⟩) (hus u hu))
    fun _ _ _ => rfl
  rw [compress, hsum, Int.zero_add, hout]
  exact congrArg (· ++ compress us) (List.append_nil _)

/-- Moves that are repeated add up, and their sum is let out in front of what does not move. -/
theorem compress_replicate_of_shift? {t : Token} {s : Int} (ht : t.shift? = some s) {us : List Token}
    (hus : ∀ u ∈ us.head?, ¬ t.Joins u) (n : Nat) :
    compress (List.replicate n t ++ us) = move (n * s) ++ compress us := by
  have hsum : ∀ shift, compressFrom 0 shift (List.replicate n t ++ us) = compressFrom 0 (shift + n * s) us := by
    induction n with
    | zero => simp
    | succ n ih =>
      intro shift
      rw [add_natCast_succ_mul, ← ih (shift + s), List.replicate_succ, List.cons_append, compressFrom_cons_of_shift? ht]
  have hsome : t.shift?.isSome = true := by rw [ht, Option.isSome_some]
  have hout := @compressFrom_of_head 0 (n * s) us (fun _ _ _ => rfl)
    fun u hu hu' => absurd (Or.inr ⟨hsome, hu'⟩) (hus u hu)
  rw [compress, hsum, Int.zero_add, hout]
  rfl

/-- The text of a normal token is merged into the token, if what follows does not belong to its run. -/
theorem compress_sourceOf_append {t : Token} (ht : t.IsNormal) {us : List Token} (hus : ∀ u ∈ us.head?, ¬ t.Joins u) :
    compress (tokenize (sourceOf t) ++ us) = t.integral.untarget :: compress us := by
  cases t with
  | noOp payload => exact ht.elim
  | increment n =>
    have hmerge := @compress_replicate_of_delta? (Token.ofChar '+') 1 rfl us hus n.toNat
    rw [Int.mul_one, (arithmetic_natCast ht).1] at hmerge
    rw [sourceOf, tokenize, List.map_replicate, hmerge]
    rfl
  | decrement n =>
    have hmerge := @compress_replicate_of_delta? (Token.ofChar '-') (-1) rfl us hus n.toNat
    rw [Int.mul_neg_one, (arithmetic_natCast ht).2] at hmerge
    rw [sourceOf, tokenize, List.map_replicate, hmerge]
    rfl
  | moveLeft n =>
    have hmerge := @compress_replicate_of_shift? (Token.ofChar '<') (-1) rfl us hus n.toNat
    rw [Int.mul_neg_one, (move_natCast ht).2] at hmerge
    rw [sourceOf, tokenize, List.map_replicate, hmerge]
    rfl
  | moveRight n =>
    have hmerge := @compress_replicate_of_shift? (Token.ofChar '>') 1 rfl us hus n.toNat
    rw [Int.mul_one, (move_natCast ht).1] at hmerge
    rw [sourceOf, tokenize, List.map_replicate, hmerge]
    rfl
  | loopStart target => rfl
  | loopEnd target => rfl
  | output payload =>
    obtain rfl : payload = .null := ht
    rfl
  | input payload =>
    obtain rfl : payload = .null := ht
    rfl

/-- The text of a merged program is merged into the program. -/
theorem compress_tokenize_toSource {ts : List Token} (h : Shaped ts) :
    compress (tokenize (toSource ts)) = (ts.map Token.integral).map Token.untarget := by
  induction ts with
  | nil => rfl
  | cons t ts ih =>
    have hus : ∀ u ∈ (tokenize (toSource ts)).head?, ¬ t.Joins u := by
      intro u hu
      rw [tokenize, List.head?_map, Option.mem_def, Option.map_eq_some_iff] at hu
      obtain ⟨c, hc, rfl⟩ := hu
      exact h.not_joins_head c hc
    rw [toSource_cons, tokenize_append, compress_sourceOf_append h.head hus, ih h.tail, List.map_cons, List.map_cons]

/-! ## Every reduced text is that of a merged program -/

theorem isSome_delta?_ofChar {c : Char} (h : (Token.ofChar c).delta?.isSome = true) : c = '+' ∨ c = '-' := by
  unfold Token.ofChar at h
  split at h <;> first | exact Or.inl rfl | exact Or.inr rfl | cases h

theorem isSome_shift?_ofChar {c : Char} (h : (Token.ofChar c).shift?.isSome = true) : c = '<' ∨ c = '>' := by
  unfold Token.ofChar at h
  split at h <;> first | exact Or.inl rfl | exact Or.inr rfl | cases h

/-- Commands of one run are the same unless they undo each other. -/
theorem eq_of_joins {c d : Char} (h : (Token.ofChar c).Joins (Token.ofChar d)) (hundo : Source.inverse? d ≠ some c) :
    d = c := by
  rcases h with ⟨hc, hd⟩ | ⟨hc, hd⟩
  · rcases isSome_delta?_ofChar hc with rfl | rfl <;> rcases isSome_delta?_ofChar hd with rfl | rfl <;>
      first | rfl | exact absurd rfl hundo
  · rcases isSome_shift?_ofChar hc with rfl | rfl <;> rcases isSome_shift?_ofChar hd with rfl | rfl <;>
      first | rfl | exact absurd rfl hundo

/-- A normal token takes one more of its command. -/
theorem exists_longer {c : Char} {u : Token} (hu : u.IsNormal) (hjoins : (Token.ofChar c).Joins u)
    (hundo : ∀ first ∈ (sourceOf u).head?, Source.inverse? first ≠ some c) :
    ∃ t : Token, t.IsNormal ∧ sourceOf t = c :: sourceOf u ∧ t.SameClass u := by
  obtain ⟨d, k, hsource, -, hclass⟩ := exists_replicate hu
  rw [← hclass.joins_iff_right] at hjoins
  rw [hsource] at hundo ⊢
  obtain rfl : d = c := eq_of_joins hjoins (hundo d rfl)
  rcases hjoins with ⟨hd, -⟩ | ⟨hd, -⟩
  · rcases isSome_delta?_ofChar hd with rfl | rfl
    · exact ⟨.increment (.nat (k + 2)), Nat.le_add_left 1 (k + 1), rfl, hclass⟩
    · exact ⟨.decrement (.nat (k + 2)), Nat.le_add_left 1 (k + 1), rfl, hclass⟩
  · rcases isSome_shift?_ofChar hd with rfl | rfl
    · exact ⟨.moveLeft (.nat (k + 2)), Nat.le_add_left 1 (k + 1), rfl, hclass⟩
    · exact ⟨.moveRight (.nat (k + 2)), Nat.le_add_left 1 (k + 1), rfl, hclass⟩

/-- A reduced text of commands is the text of a merged program. -/
theorem exists_shaped {text : List Char} (hcommand : ∀ c ∈ text, Source.isCommand c = true) (hreduced : Source.Reduced text) :
    ∃ ts, Shaped ts ∧ toSource ts = text := by
  induction text with
  | nil => exact ⟨[], ⟨fun _ h => absurd h List.not_mem_nil, List.isChain_nil⟩, rfl⟩
  | cons c text ih =>
    obtain ⟨ts, hts, rfl⟩ := ih (fun d hd => hcommand d (List.mem_cons_of_mem c hd)) hreduced.tail
    have hc := Token.isNormal_ofChar (hcommand c List.mem_cons_self)
    -- a command that does not join the first run is a run of its own
    have happart : (∀ u ∈ ts.head?, ¬ (Token.ofChar c).Joins u) → ∃ ts', Shaped ts' ∧ toSource ts' = c :: toSource ts := by
      intro hhead
      refine ⟨Token.ofChar c :: ts, ⟨List.forall_mem_cons.mpr ⟨hc, hts.tokens⟩, List.isChain_cons.mpr ⟨hhead, hts.apart⟩⟩, ?_⟩
      rw [toSource_cons, sourceOf_ofChar, List.singleton_append]
    cases ts with
    | nil => exact happart fun u hu => absurd hu (by simp)
    | cons u us =>
      by_cases hjoins : (Token.ofChar c).Joins u
      · have hundo : ∀ first ∈ (sourceOf u).head?, Source.inverse? first ≠ some c := by
          intro first hfirst
          refine (List.isChain_cons.mp hreduced).1 first ?_
          rw [toSource_cons, List.head?_append, hfirst]
          rfl
        obtain ⟨t, ht, hsource, hclass⟩ := exists_longer hts.head hjoins hundo
        have hhead : ∀ v ∈ us.head?, ¬ t.Joins v := by
          intro v hv
          rw [hclass.joins_iff_left]
          exact (List.isChain_cons.mp hts.apart).1 v hv
        refine ⟨t :: us, ⟨List.forall_mem_cons.mpr ⟨ht, hts.tail.tokens⟩, List.isChain_cons.mpr ⟨hhead, hts.tail.apart⟩⟩, ?_⟩
        rw [toSource_cons, hsource, toSource_cons, List.cons_append]
      · refine happart ?_
        intro v hv
        obtain rfl : u = v := Option.some.inj hv
        exact hjoins

/-! ## Pairing and the way numbers are written -/

/-- Pairing does not look at how numbers are written. -/
theorem keepsLoops_integral : Token.KeepsLoops Token.integral where
  opens _ := ⟨_, rfl⟩
  closes _ := ⟨_, rfl⟩
  other t ht := by cases t <;> first | rfl | exact ht
  aim index t := by cases t <;> rfl

/-! ## Compiling and writing -/

/-- The source of a compiled program is that of the tokens that were paired. -/
theorem toSource_of_compile {options : Options} {source : List Char} {tokens : List Token}
    (h : compile options source = .ok tokens) : toSource tokens = toSource (unpaired options source) := by
  rw [compile_eq_resolve] at h
  exact toSource_congr (map_untarget_of_resolve h)

/-- The tokens of an optimized source, merged, are a merged program with the optimized source as its text. -/
theorem shaped_unpaired (source : List Char) :
    Shaped (unpaired {} source) ∧ toSource (unpaired {} source) = Source.optimize source := by
  obtain ⟨ts, hts, htext⟩ := exists_shaped (fun _ => Source.isCommand_of_mem_optimize) (Source.reduced_cancelPairs _)
  have hmerged : unpaired {} source = (ts.map Token.integral).map Token.untarget := by
    rw [← compress_tokenize_toSource hts, htext]
    rfl
  rw [hmerged]
  constructor
  · rw [Shaped.map_iff Token.sameClass_untarget Token.isNormal_untarget,
      Shaped.map_iff Token.sameClass_integral Token.isNormal_integral]
    exact hts
  · rw [toSource_map sourceOf_untarget, toSource_map sourceOf_integral]
    exact htext

/-- The default compilation gives programs in normal form. -/
theorem normal_of_compile {source : List Char} {tokens : List Token} (h : compile {} source = .ok tokens) : Normal tokens := by
  rw [compile_eq_resolve] at h
  have huntarget := map_untarget_of_resolve h
  refine ⟨(shaped_unpaired source).1.congr huntarget, ?_⟩
  rw [resolve_congr huntarget.symm h]
  rfl

/-- A program in normal form is what its source is compiled to. -/
theorem compile_toSource {tokens : List Token} (h : Normal tokens) :
    compile {} (toSource tokens) = .ok (tokens.map Token.integral) := by
  have hlinked : resolve (tokens.map Token.integral) = .ok (tokens.map Token.integral) := by
    rw [resolve_map keepsLoops_integral, h.linked]
  have hunpaired : unpaired {} (toSource tokens) = (tokens.map Token.integral).map Token.untarget := by
    rw [← compress_tokenize_toSource h.toShaped]
    exact congrArg (compress <| tokenize ·) h.toShaped.optimize
  have huntarget : ∀ us : List Token, us.map Token.untarget = (us.map Token.untarget).map Token.untarget := by
    intro us
    rw [List.map_map]
    exact (List.map_congr_left fun t _ => Token.untarget_untarget t).symm
  rw [compile_eq_resolve, hunpaired]
  exact resolve_congr (huntarget _) hlinked

end Program

/-- Compiling loses nothing but what optimizing takes out. A balanced source that is not optimized and not merged is the source of
its program; by default the program has the optimized source, and it is in normal form. Every program in normal form is what its
source is compiled to, with its numbers as integers. So two balanced sources have the same program exactly if they are the same once
optimized. -/
theorem compile_lossless :
    (∀ source, Source.Balanced source →
      (∃ tokens, Program.compile ⟨false, false⟩ source = .ok tokens ∧ Program.toSource tokens = source) ∧
      ∃ tokens, Program.compile {} source = .ok tokens ∧ Program.toSource tokens = Source.optimize source ∧
        Program.Normal tokens) ∧
    (∀ tokens, Program.Normal tokens → Program.compile {} (Program.toSource tokens) = .ok (tokens.map Token.integral)) ∧
    ∀ source source', Source.Balanced source → Source.Balanced source' →
      (Program.compile {} source = Program.compile {} source' ↔ Source.optimize source = Source.optimize source') := by
  refine ⟨?_, fun _ => Program.compile_toSource, ?_⟩
  · intro source h
    obtain ⟨tokens, htokens⟩ := Program.exists_compile h ⟨false, false⟩
    obtain ⟨tokens', htokens'⟩ := Program.exists_compile h {}
    have htext : Program.toSource tokens = source :=
      (Program.toSource_of_compile htokens).trans (Program.toSource_tokenize source)
    have htext' : Program.toSource tokens' = Source.optimize source :=
      (Program.toSource_of_compile htokens').trans (Program.shaped_unpaired source).2
    exact ⟨⟨tokens, htokens, htext⟩, tokens', htokens', htext', Program.normal_of_compile htokens'⟩
  · intro source source' h h'
    constructor
    · intro heq
      obtain ⟨tokens, htokens⟩ := Program.exists_compile h {}
      have htext := Program.toSource_of_compile htokens
      rw [Program.toSource_of_compile (heq ▸ htokens), (Program.shaped_unpaired source).2,
        (Program.shaped_unpaired source').2] at htext
      exact htext.symm
    · intro heq
      exact congrArg Program.parseCompressed heq

/-- The source `+x+[-]` is kept with its comment if it is not optimized. By default it has the program of `++[+--]`, and that of a
normal form with a count that is written as a truth value. -/
theorem compile_lossless_clear :
    Source.Balanced ['+', 'x', '+', '[', '-', ']'] ∧ Source.Balanced ['+', '+', '[', '+', '-', '-', ']'] ∧
      Program.Normal [.increment (.nat 2), .loopStart (some (.nat 3)), .decrement (.truth true), .loopEnd (some (.truth true))] ∧
      (∃ tokens, Program.compile ⟨false, false⟩ ['+', 'x', '+', '[', '-', ']'] = .ok tokens ∧
        Program.toSource tokens = ['+', 'x', '+', '[', '-', ']']) ∧
      Program.compile {} ['+', 'x', '+', '[', '-', ']'] = Program.compile {} ['+', '+', '[', '+', '-', '-', ']'] ∧
      Program.compile {} ['+', '+', '[', '-', ']'] = .ok [.increment (.nat 2), .loopStart (some (.nat 3)), .decrement (.nat 1),
        .loopEnd (some (.nat 1))] := by
  have h : Source.Balanced ['+', 'x', '+', '[', '-', ']'] := by decide
  have h' : Source.Balanced ['+', '+', '[', '+', '-', '-', ']'] := by decide
  have hnormal : Program.Normal [.increment (.nat 2), .loopStart (some (.nat 3)), .decrement (.truth true),
      .loopEnd (some (.truth true))] := by
    refine ⟨⟨?_, ?_⟩, rfl⟩
    · simp [Token.IsNormal, Numeral.toNat]
    · simp [Token.Joins, Token.delta?, Token.shift?]
  obtain ⟨hread, hwrite, hsame⟩ := compile_lossless
  exact ⟨h, h', hnormal, (hread _ h).1, (hsame _ _ h h').mpr rfl, hwrite _ hnormal⟩

end Brainfuck
