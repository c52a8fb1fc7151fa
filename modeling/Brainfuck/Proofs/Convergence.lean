import Brainfuck.Proofs.Cancelling
import Brainfuck.Proofs.NormalForms

/-!
# What merging converges to

Merging is not done in one round: where a merged run comes to nothing, the runs on its two sides become neighbours, and the next round
merges these. A round takes tokens away until nothing is left to merge (`Merged`), and what is left is what the optimized text is
merged into in one round (`compress_converges`). The reason is that a round keeps what is left of the text of the tokens when pairs are
cancelled in it (`cancelPairs_toSource_compress`), and in the text of merged tokens there are no pairs.
-/

namespace Brainfuck

theorem Token.integral_integral (t : Token) : t.integral.integral = t.integral := by
  cases t with
  | loopStart target | loopEnd target => cases target <;> rfl
  | _ => rfl

namespace Program

/-- There is nothing to merge: no count is zero, and no two neighbours are both arithmetic or both moves. -/
structure Merged (ts : List Token) : Prop where
  counts : ∀ t ∈ ts, t.delta? ≠ some 0 ∧ t.shift? ≠ some 0
  apart : ts.IsChain fun t u => ¬ t.Joins u

/-- The tokens of a source without its comments after so many rounds of merging. -/
def rounds (source : List Char) : Nat → List Token
  | 0 => tokenize (Source.stripComments source)
  | k + 1 => compress (rounds source k)

/-! ## A round keeps what is left of the text -/

theorem toSource_append (ts us : List Token) : toSource (ts ++ us) = toSource ts ++ toSource us := List.flatMap_append

theorem toSource_arithmetic (delta : Int) : toSource (arithmetic delta) = Source.power '+' '-' delta := by
  cases delta with
  | ofNat n => cases n <;> simp [arithmetic, toSource, sourceOf, Numeral.toNat, Source.power]
  | negSucc n => simp [arithmetic, toSource, sourceOf, Numeral.toNat, Source.power]

theorem toSource_move (shift : Int) : toSource (move shift) = Source.power '>' '<' shift := by
  cases shift with
  | ofNat n => cases n <;> simp [move, toSource, sourceOf, Numeral.toNat, Source.power]
  | negSucc n => simp [move, toSource, sourceOf, Numeral.toNat, Source.power]

theorem sourceOf_of_delta? {t : Token} {d : Int} (h : t.delta? = some d) : sourceOf t = Source.power '+' '-' d := by
  cases t <;> simp only [Token.delta?, Option.some.injEq, reduceCtorEq] at h <;> subst h
  · rfl
  · rw [Source.power_neg]
    rfl

theorem sourceOf_of_shift? {t : Token} {s : Int} (h : t.shift? = some s) : sourceOf t = Source.power '>' '<' s := by
  cases t <;> simp only [Token.shift?, Option.some.injEq, reduceCtorEq] at h <;> subst h
  · rw [Source.power_neg]
    rfl
  · rfl

/-- The text of merged tokens cancels like the text of the tokens, behind that of the run that is pending. -/
theorem alike_compressFrom {delta shift : Int} (hpending : delta = 0 ∨ shift = 0) (ts : List Token) :
    Source.Alike (toSource (arithmetic delta) ++ (toSource (move shift) ++ toSource ts))
      (toSource (compressFrom delta shift ts)) := by
  induction ts generalizing delta shift with
  | nil =>
    rw [compressFrom, toSource_append, show toSource [] = [] from rfl, List.append_nil]
    exact .refl _
  | cons t ts ih =>
    rw [compressFrom, toSource_cons]
    cases hdelta : t.delta? with
    | some d =>
      have hrest := @ih (delta + d) 0 (Or.inr rfl)
      have hsum := @Source.alike_power_append '+' '-' rfl delta d
      rw [← toSource_arithmetic, ← sourceOf_of_delta? hdelta, ← toSource_arithmetic] at hsum
      -- one of the pending runs is empty, so the token may be taken to the other one
      have hjoin : Source.Alike (toSource (arithmetic delta) ++ (toSource (move shift) ++ sourceOf t))
          (toSource (move shift) ++ toSource (arithmetic (delta + d))) := by
        rcases hpending with rfl | rfl
        · exact (Source.Alike.refl (toSource (move shift))).append hsum
        · exact hsum
      rw [toSource_append]
      have h := (hjoin.append (.refl (toSource ts))).trans
        (by rw [List.append_assoc]; exact (Source.Alike.refl (toSource (move shift))).append hrest)
      simpa only [List.append_assoc] using h
    | none =>
      cases hshift : t.shift? with
      | some s =>
        have hrest := @ih 0 (shift + s) (Or.inl rfl)
        have hsum := @Source.alike_power_append '>' '<' rfl shift s
        rw [← toSource_move, ← sourceOf_of_shift? hshift, ← toSource_move] at hsum
        have h := (hsum.append (.refl (toSource ts))).trans hrest
        rw [toSource_append]
        refine (Source.Alike.refl (toSource (arithmetic delta))).append ?_
        rw [← List.append_assoc]
        exact h
      | none =>
        have hrest := @ih 0 0 (Or.inl rfl)
        rw [toSource_append, toSource_append, toSource_cons, List.append_assoc]
        exact (Source.Alike.refl _).append ((Source.Alike.refl _).append ((Source.Alike.refl _).append hrest))

/-- A round of merging keeps what is left of the text when pairs are cancelled. -/
theorem cancelPairs_toSource_compress (ts : List Token) :
    Source.cancelPairs (toSource (compress ts)) = Source.cancelPairs (toSource ts) :=
  (@alike_compressFrom 0 0 (Or.inl rfl) ts).cancelPairs_eq.symm

/-! ## Tokens with nothing to merge -/

theorem merged_cons_iff {t : Token} {ts : List Token} : Merged (t :: ts) ↔
    (t.delta? ≠ some 0 ∧ t.shift? ≠ some 0) ∧ (∀ u ∈ ts.head?, ¬ t.Joins u) ∧ Merged ts := by
  constructor
  · intro h
    have hcounts := List.forall_mem_cons.mp h.counts
    have hapart := List.isChain_cons.mp h.apart
    exact ⟨hcounts.1, hapart.1, hcounts.2, hapart.2⟩
  · rintro ⟨hcount, happart, h⟩
    exact ⟨List.forall_mem_cons.mpr ⟨hcount, h.counts⟩, List.isChain_cons.mpr ⟨happart, h.apart⟩⟩

/-- A token of arithmetic that adds something is the token of its sum, but for the way its count is written. -/
theorem arithmetic_of_delta? {t : Token} {d : Int} (h : t.delta? = some d) (hd : d ≠ 0) : arithmetic d = [t.integral] := by
  cases t <;> simp only [Token.delta?, Option.some.injEq, reduceCtorEq] at h <;> subst h
  · exact (arithmetic_natCast (by omega)).1
  · exact (arithmetic_natCast (by omega)).2

/-- A token that moves somewhere is the token of its distance, but for the way its count is written. -/
theorem move_of_shift? {t : Token} {s : Int} (h : t.shift? = some s) (hs : s ≠ 0) : move s = [t.integral] := by
  cases t <;> simp only [Token.shift?, Option.some.injEq, reduceCtorEq] at h <;> subst h
  · exact (move_natCast (by omega)).2
  · exact (move_natCast (by omega)).1

/-- A round leaves tokens with nothing to merge as they are, but for the way counts are written. -/
theorem map_compress_of_merged {α : Type} {f : Token → α} {ts : List Token} (h : Merged ts)
    (hf : ∀ t ∈ ts, t.isLoop = false → f t.integral = f t) : (compress ts).map f = ts.map f := by
  induction ts with
  | nil => rfl
  | cons t ts ih =>
    obtain ⟨⟨hdelta0, hshift0⟩, happart, hts⟩ := merged_cons_iff.mp h
    obtain ⟨hft, hfts⟩ := List.forall_mem_cons.mp hf
    cases hdelta : t.delta? with
    | some d =>
      have hmerge := compress_replicate_of_delta? hdelta happart 1
      have hd : d ≠ 0 := fun h0 => hdelta0 (hdelta.trans (congrArg some h0))
      have hquiet := (Token.isQuiet_of_delta? hdelta).1
      rw [Int.natCast_one, Int.one_mul, arithmetic_of_delta? hdelta hd] at hmerge
      rw [show t :: ts = List.replicate 1 t ++ ts from rfl, hmerge]
      simp only [List.singleton_append, List.map_cons, List.replicate_one, hft (Token.isLoop_of_isQuiet hquiet), ih hts hfts]
    | none =>
      cases hshift : t.shift? with
      | some s =>
        have hmerge := compress_replicate_of_shift? hshift happart 1
        have hs : s ≠ 0 := fun h0 => hshift0 (hshift.trans (congrArg some h0))
        have hquiet := (Token.isQuiet_of_shift? hshift).1
        rw [Int.natCast_one, Int.one_mul, move_of_shift? hshift hs] at hmerge
        rw [show t :: ts = List.replicate 1 t ++ ts from rfl, hmerge]
        simp only [List.singleton_append, List.map_cons, List.replicate_one, hft (Token.isLoop_of_isQuiet hquiet), ih hts hfts]
      | none =>
        have hmerge := compress_append_cons hdelta hshift [] ts
        rw [List.nil_append] at hmerge
        rw [hmerge, List.map_append, List.map_cons, ih hts hfts]
        rfl

/-! ## Rounds get shorter -/

theorem shift?_of_delta? {t : Token} {d : Int} (h : t.delta? = some d) : t.shift? = none := by
  cases t with
  | increment | decrement => rfl
  | _ => cases h

/-- The token of a sum that is not zero is arithmetic and adds the sum. -/
theorem exists_arithmetic {delta : Int} (h : delta ≠ 0) :
    ∃ t : Token, arithmetic delta = [t] ∧ t.delta? = some delta ∧ t.shift? = none := by
  obtain ⟨n, rfl | rfl⟩ := delta.eq_nat_or_neg
  · exact ⟨_, (arithmetic_natCast (by omega)).1, rfl, rfl⟩
  · exact ⟨_, (arithmetic_natCast (by omega)).2, rfl, rfl⟩

/-- The token of a distance that is not zero is a move by the distance. -/
theorem exists_move {shift : Int} (h : shift ≠ 0) :
    ∃ t : Token, move shift = [t] ∧ t.delta? = none ∧ t.shift? = some shift := by
  obtain ⟨n, rfl | rfl⟩ := shift.eq_nat_or_neg
  · exact ⟨_, (move_natCast (by omega)).1, rfl, rfl⟩
  · exact ⟨_, (move_natCast (by omega)).2, rfl, rfl⟩

theorem length_arithmetic (delta : Int) :
    (arithmetic delta).length = 0 ∧ delta = 0 ∨ (arithmetic delta).length = 1 ∧ delta ≠ 0 := by
  by_cases h : delta = 0
  · exact Or.inl ⟨by rw [h]; rfl, h⟩
  · obtain ⟨t, ht, -, -⟩ := exists_arithmetic h
    exact Or.inr ⟨by rw [ht]; rfl, h⟩

theorem length_move (shift : Int) : (move shift).length = 0 ∧ shift = 0 ∨ (move shift).length = 1 ∧ shift ≠ 0 := by
  by_cases h : shift = 0
  · exact Or.inl ⟨by rw [h]; rfl, h⟩
  · obtain ⟨t, ht, -, -⟩ := exists_move h
    exact Or.inr ⟨by rw [ht]; rfl, h⟩

/-- Merging makes no list longer, with the run that is pending in front of it. -/
theorem length_compressFrom_le (delta shift : Int) (ts : List Token) :
    (compressFrom delta shift ts).length ≤ (arithmetic delta).length + (move shift).length + ts.length := by
  have hzero : (arithmetic 0).length = 0 ∧ (move 0).length = 0 := ⟨rfl, rfl⟩
  induction ts generalizing delta shift with
  | nil => rw [compressFrom, List.length_append, List.length_nil, Nat.add_zero]
  | cons t ts ih =>
    rw [compressFrom, List.length_cons]
    cases t.delta? with
    | some d =>
      have hrest := ih (delta + d) 0
      have hsum := length_arithmetic (delta + d)
      rw [List.length_append]
      omega
    | none =>
      cases t.shift? with
      | some s =>
        have hrest := ih 0 (shift + s)
        have hsum := length_move (shift + s)
        rw [List.length_append]
        omega
      | none =>
        have hrest := ih 0 0
        rw [List.length_append, List.length_append, List.length_cons]
        omega

theorem merged_nil : Merged [] := ⟨fun _ h => absurd h List.not_mem_nil, List.isChain_nil⟩

/-- Arithmetic that is pending has nothing to merge with what is not arithmetic. -/
theorem Merged.arithmetic_append {us : List Token} (h : Merged us) (hus : ∀ u ∈ us.head?, u.delta? = none) (delta : Int) :
    Merged (arithmetic delta ++ us) := by
  by_cases hdelta : delta = 0
  · rw [hdelta]
    exact h
  · obtain ⟨t, ht, htdelta, htshift⟩ := exists_arithmetic hdelta
    rw [ht, List.singleton_append, merged_cons_iff, htdelta, htshift]
    refine ⟨⟨fun h0 => hdelta (Option.some.inj h0), nofun⟩, ?_, h⟩
    intro u hu
    simp [Token.Joins, hus u hu, htshift]

/-- Moves that are pending have nothing to merge with what does not move. -/
theorem Merged.move_append {us : List Token} (h : Merged us) (hus : ∀ u ∈ us.head?, u.shift? = none) (shift : Int) :
    Merged (move shift ++ us) := by
  by_cases hshift : shift = 0
  · rw [hshift]
    exact h
  · obtain ⟨t, ht, htdelta, htshift⟩ := exists_move hshift
    rw [ht, List.singleton_append, merged_cons_iff, htdelta, htshift]
    refine ⟨⟨nofun, fun h0 => hshift (Option.some.inj h0)⟩, ?_, h⟩
    intro u hu
    simp [Token.Joins, hus u hu, htdelta]

/-- What is pending has nothing to merge with a token that is neither arithmetic nor a move. -/
theorem Merged.pending_append {us : List Token} (h : Merged us) (hus : ∀ u ∈ us.head?, u.delta? = none ∧ u.shift? = none)
    (delta shift : Int) : Merged (arithmetic delta ++ (move shift ++ us)) := by
  refine (h.move_append (fun u hu => (hus u hu).2) shift).arithmetic_append ?_ delta
  intro u hu
  by_cases hshift : shift = 0
  · subst hshift
    exact (hus u hu).1
  · obtain ⟨t, ht, htdelta, -⟩ := exists_move hshift
    rw [ht] at hu
    exact Option.some.inj hu ▸ htdelta

theorem merged_cons_integral {t : Token} {ts : List Token} : Merged (t.integral :: ts) ↔ Merged (t :: ts) := by
  have hdelta : t.integral.delta? = t.delta? := by cases t <;> rfl
  have hshift : t.integral.shift? = t.shift? := by cases t <;> rfl
  rw [merged_cons_iff, merged_cons_iff, hdelta, hshift]
  simp only [(Token.sameClass_integral t).joins_iff_left]

/-- If merging takes no token away, with the run that is pending in front, there was nothing to merge. -/
theorem merged_of_length_le {delta shift : Int} {ts : List Token}
    (h : (arithmetic delta).length + (move shift).length + ts.length ≤ (compressFrom delta shift ts).length) :
    Merged (arithmetic delta ++ (move shift ++ ts)) := by
  have hzero : (arithmetic 0).length = 0 ∧ (move 0).length = 0 := ⟨rfl, rfl⟩
  induction ts generalizing delta shift with
  | nil => exact merged_nil.pending_append (by simp) delta shift
  | cons t ts ih =>
    rw [compressFrom, List.length_cons] at h
    cases hdelta : t.delta? with
    | some d =>
      -- arithmetic that was pending, or a sum that comes to nothing, would have cost a token
      rw [hdelta, List.length_append] at h
      have hle := length_compressFrom_le (delta + d) 0 ts
      have hpending := length_arithmetic delta
      have hsum := length_arithmetic (delta + d)
      obtain ⟨rfl, hd⟩ : delta = 0 ∧ d ≠ 0 := by omega
      have hts := @ih (0 + d) 0 (by omega)
      rw [Int.zero_add, arithmetic_of_delta? hdelta hd] at hts
      refine (merged_cons_integral.mp hts).move_append ?_ shift
      intro u hu
      obtain rfl : t = u := Option.some.inj hu
      exact shift?_of_delta? hdelta
    | none =>
      cases hshift : t.shift? with
      | some s =>
        rw [hdelta, hshift, List.length_append] at h
        have hle := length_compressFrom_le 0 (shift + s) ts
        have hpending := length_move shift
        have hsum := length_move (shift + s)
        obtain ⟨rfl, hs⟩ : shift = 0 ∧ s ≠ 0 := by omega
        have hts := @ih 0 (0 + s) (by omega)
        rw [Int.zero_add, move_of_shift? hshift hs] at hts
        refine (merged_cons_integral.mp hts).arithmetic_append ?_ delta
        intro u hu
        obtain rfl : t = u := Option.some.inj hu
        exact hdelta
      | none =>
        -- what is pending is let out as it is, and nothing joins the token
        rw [hdelta, hshift, List.length_append, List.length_append, List.length_cons] at h
        have hts : Merged ts := @ih 0 0 (by omega)
        refine Merged.pending_append (merged_cons_iff.mpr ⟨by simp [hdelta, hshift], ?_, hts⟩) ?_ delta shift
        · intro u _
          simp [Token.Joins, hdelta, hshift]
        · intro u hu
          obtain rfl : t = u := Option.some.inj hu
          exact ⟨hdelta, hshift⟩

/-- A round that leaves tokens with nothing to merge takes none away, and one that has something to merge does. -/
theorem merged_or_length_lt (ts : List Token) : Merged ts ∨ (compress ts).length < ts.length := by
  by_cases h : ts.length ≤ (compress ts).length
  · refine Or.inl (@merged_of_length_le 0 0 ts ?_)
    rw [show (arithmetic 0).length + (move 0).length = 0 from rfl, Nat.zero_add]
    exact h
  · exact Or.inr (by omega)

/-- A round changes nothing, but for the way counts are written, exactly if there is nothing to merge. -/
theorem map_compress_eq_iff {α : Type} {f : Token → α} {ts : List Token}
    (hf : ∀ t ∈ ts, t.isLoop = false → f t.integral = f t) : (compress ts).map f = ts.map f ↔ Merged ts := by
  refine ⟨?_, fun h => map_compress_of_merged h hf⟩
  intro h
  have hlength := congrArg List.length h
  rw [List.length_map, List.length_map] at hlength
  exact (merged_or_length_lt ts).resolve_right (by omega)

/-! ## The tokens of all rounds -/

/-- A round adds no tokens but those of arithmetic and moves with a count of at least one. -/
theorem forall_mem_compressFrom {P : Token → Prop}
    (hcount : ∀ n : Nat, 1 ≤ n →
      P (.increment (.nat n)) ∧ P (.decrement (.nat n)) ∧ P (.moveLeft (.nat n)) ∧ P (.moveRight (.nat n)))
    {ts : List Token} (hts : ∀ t ∈ ts, P t) (delta shift : Int) : ∀ t ∈ compressFrom delta shift ts, P t := by
  have harithmetic : ∀ d, ∀ t ∈ arithmetic d, P t := by
    intro d t ht
    unfold arithmetic at ht
    grind
  have hmove : ∀ s, ∀ t ∈ move s, P t := by
    intro s t ht
    unfold move at ht
    grind
  induction ts generalizing delta shift with
  | nil =>
    rw [compressFrom]
    exact List.forall_mem_append.mpr ⟨harithmetic delta, hmove shift⟩
  | cons t ts ih =>
    obtain ⟨ht, hts⟩ := List.forall_mem_cons.mp hts
    rw [compressFrom]
    cases t.delta? with
    | some d => exact List.forall_mem_append.mpr ⟨hmove shift, ih hts _ _⟩
    | none =>
      cases t.shift? with
      | some s => exact List.forall_mem_append.mpr ⟨harithmetic delta, ih hts _ _⟩
      | none =>
        exact List.forall_mem_append.mpr ⟨List.forall_mem_append.mpr ⟨harithmetic delta, hmove shift⟩,
          List.forall_mem_cons.mpr ⟨ht, ih hts _ _⟩⟩

/-- The tokens of all rounds are normal, with their counts as integers and without targets. -/
theorem of_mem_rounds {source : List Char} {k : Nat} {t : Token} (ht : t ∈ rounds source k) :
    t.IsNormal ∧ t.integral = t ∧ t.untarget = t := by
  induction k generalizing t with
  | zero =>
    obtain ⟨c, hc, rfl⟩ := List.mem_map.mp ht
    refine ⟨Token.isNormal_ofChar (List.of_mem_filter hc), ?_⟩
    unfold Token.ofChar
    split <;> exact ⟨rfl, rfl⟩
  | succ k ih =>
    refine forall_mem_compressFrom (P := fun t => t.IsNormal ∧ t.integral = t ∧ t.untarget = t) ?_ (fun _ => ih) 0 0 t ht
    intro n hn
    exact ⟨⟨hn, rfl, rfl⟩, ⟨hn, rfl, rfl⟩, ⟨hn, rfl, rfl⟩, ⟨hn, rfl, rfl⟩⟩

theorem cancelPairs_toSource_rounds (source : List Char) (k : Nat) :
    Source.cancelPairs (toSource (rounds source k)) = Source.optimize source := by
  induction k with
  | zero => rw [rounds, toSource_tokenize, Source.optimize]
  | succ k ih => rw [rounds, cancelPairs_toSource_compress, ih]

/-- A round of a source is left as it is exactly if it has nothing to merge. -/
theorem compress_rounds_eq_iff (source : List Char) (k : Nat) :
    compress (rounds source k) = rounds source k ↔ Merged (rounds source k) := by
  have h := @map_compress_eq_iff _ id (rounds source k) fun t ht _ => (of_mem_rounds ht).2.1
  rw [List.map_id, List.map_id] at h
  exact h

/-- The tokens of a round with nothing to merge are what the optimized source is merged into. -/
theorem rounds_eq_of_merged {source : List Char} {k : Nat} (h : Merged (rounds source k)) :
    rounds source k = compress (tokenize (Source.optimize source)) := by
  have hshaped : Shaped (rounds source k) := ⟨fun t ht => (of_mem_rounds ht).1, h.apart⟩
  have hintegral : (rounds source k).map Token.integral = (rounds source k).map id :=
    List.map_congr_left fun t ht => (of_mem_rounds ht).2.1
  have huntarget : (rounds source k).map Token.untarget = (rounds source k).map id :=
    List.map_congr_left fun t ht => (of_mem_rounds ht).2.2
  have htext : toSource (rounds source k) = Source.optimize source := by
    rw [← cancelPairs_toSource_rounds source k, Source.cancelPairs_of_reduced hshaped.reduced]
  rw [← htext, compress_tokenize_toSource hshaped, hintegral, List.map_id, huntarget, List.map_id]

/-- Some round of a source has nothing to merge, and no more rounds are needed for it than there are tokens at first. -/
theorem exists_merged_rounds (source : List Char) : ∃ k, k ≤ (rounds source 0).length ∧ Merged (rounds source k) := by
  -- as long as there is something to merge, each round takes a token away
  have hshorter : ∀ k, (∃ j, j ≤ k ∧ Merged (rounds source j)) ∨
      (rounds source k).length + k ≤ (rounds source 0).length := by
    intro k
    induction k with
    | zero => exact Or.inr (Nat.le_refl _)
    | succ k ih =>
      rcases ih with ⟨j, hj, hmerged⟩ | hlength
      · exact Or.inl ⟨j, Nat.le_succ_of_le hj, hmerged⟩
      · rcases merged_or_length_lt (rounds source k) with hmerged | hlt
        · exact Or.inl ⟨k, Nat.le_succ k, hmerged⟩
        · have hnext : rounds source (k + 1) = compress (rounds source k) := rfl
          rw [hnext]
          omega
  rcases hshorter (rounds source 0).length with hmerged | hlength
  · exact hmerged
  · have hempty : rounds source (rounds source 0).length = [] := List.eq_nil_of_length_eq_zero (by omega)
    exact ⟨_, Nat.le_refl _, hempty ▸ merged_nil⟩

/-- Merging converges, to what the optimized text is merged into. Each round takes tokens away until one changes nothing, which is the
case after at most as many rounds as there are tokens, and the tokens are then those that the optimized source is merged into. A round
changes nothing exactly if there is nothing to merge: no count is zero, and no two neighbours are both arithmetic or both moves. This
holds of all tokens, but for the way their numbers are written, and as it stands of those whose counts are written as integers. -/
theorem compress_converges :
    (∀ source,
      (∀ k, compress (rounds source k) ≠ rounds source k → (rounds source (k + 1)).length < (rounds source k).length) ∧
      (∃ k, k ≤ (rounds source 0).length ∧ compress (rounds source k) = rounds source k) ∧
      ∀ k, compress (rounds source k) = rounds source k → rounds source k = compress (tokenize (Source.optimize source))) ∧
    ∀ ts : List Token,
      ((compress ts).map Token.integral = ts.map Token.integral ↔ Merged ts) ∧
      ((∀ t ∈ ts, t.isLoop = false → t.integral = t) → (compress ts = ts ↔ Merged ts)) := by
  refine ⟨?_, ?_⟩
  · intro source
    refine ⟨?_, ?_, ?_⟩
    · intro k hk
      exact (merged_or_length_lt _).resolve_left fun h => hk ((compress_rounds_eq_iff source k).mpr h)
    · obtain ⟨k, hk, hmerged⟩ := exists_merged_rounds source
      exact ⟨k, hk, (compress_rounds_eq_iff source k).mpr hmerged⟩
    · intro k hk
      exact rounds_eq_of_merged ((compress_rounds_eq_iff source k).mp hk)
  · intro ts
    refine ⟨map_compress_eq_iff fun t _ _ => t.integral_integral, ?_⟩
    intro hts
    have h := @map_compress_eq_iff _ id ts hts
    rw [List.map_id, List.map_id] at h
    exact h

/-- The source `+<>+` takes two rounds: the moves have to go before the arithmetic on their two sides can be merged. -/
theorem compress_converges_nested :
    let source := ['+', '<', '>', '+']
    (rounds source 1).length = 2 ∧ (rounds source 2).length < (rounds source 1).length ∧
      compress (rounds source 2) = rounds source 2 ∧
      rounds source 2 = compress (tokenize (Source.optimize source)) ∧
      Merged [.increment (.nat 2)] := by
  intro source
  obtain ⟨hshorter, -, hfixed⟩ := compress_converges.1 source
  have hmerging : compress (rounds source 1) ≠ rounds source 1 :=
    fun h => absurd (congrArg List.length h) (by decide)
  have hcounts : ∀ t ∈ [Token.increment (.nat 2)], t.isLoop = false → t.integral = t := by simp [Token.integral, Numeral.toNat]
  exact ⟨rfl, hshorter 1 hmerging, rfl, hfixed 2 rfl, ((compress_converges.2 _).2 hcounts).mp rfl⟩

end Program

end Brainfuck
