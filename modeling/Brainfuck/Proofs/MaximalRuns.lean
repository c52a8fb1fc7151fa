import Mathlib
import Brainfuck.Proofs.Brevity

/-!
# Maximal runs

Merging told without a scan. A list of tokens is cut in one way into maximal runs, each of arithmetic, of moves, or of a single other
token (`MaximalRuns`), and merging replaces each run by the token of its net sum (`net`).

Merging itself is a scan that keeps two sums and lets them out as tokens of their own, made like any other token and refused like any
other (`Scan`). One of the two sums is zero all the time, no token is refused, and none says that it does nothing (`compress_eq_net`).
-/

namespace Brainfuck

/-- How often the command of a token is repeated, for arithmetic and moves. -/
def Token.count? : Token → Option Nat
  | .increment n | .decrement n | .moveLeft n | .moveRight n => some n.toNat
  | _ => none

namespace Program

/-! ## Runs -/

/-- A run: arithmetic, moves, or a single token that is neither. -/
inductive IsRun : List Token → Prop where
  | arithmetic {run : List Token} (hne : run ≠ []) (h : ∀ t ∈ run, t.delta?.isSome = true) : IsRun run
  | moves {run : List Token} (hne : run ≠ []) (h : ∀ t ∈ run, t.shift?.isSome = true) : IsRun run
  | other {t : Token} (hdelta : t.delta? = none) (hshift : t.shift? = none) : IsRun [t]

/-- A list of tokens cut into runs that are maximal: no two neighbours are a run together. -/
structure MaximalRuns (ts : List Token) (runs : List (List Token)) : Prop where
  flatten : runs.flatten = ts
  isRun : ∀ run ∈ runs, IsRun run
  apart : runs.IsChain fun run run' => ¬ IsRun (run ++ run')

/-- The token of a signed sum: of one kind for a sum above zero, of another with its magnitude for one below, and none for zero. -/
def signed (up down : Numeral → Token) : Int → List Token
  | .ofNat 0 => []
  | .ofNat (n + 1) => [up (.nat (n + 1))]
  | .negSucc n => [down (.nat (n + 1))]

/-- What a run comes to: the token of its net sum, and a token that is neither arithmetic nor a move as it stands. -/
def net (run : List Token) : List Token :=
  if run.all (·.delta?.isSome) then signed .increment .decrement (run.filterMap Token.delta?).sum
  else if run.all (·.shift?.isSome) then signed .moveRight .moveLeft (run.filterMap Token.shift?).sum
  else run

section Runs

variable {run us : List Token} {t : Token}

/-- No token is arithmetic and a move. -/
theorem not_isSome_shift? (h : t.delta?.isSome = true) : t.shift?.isSome = false := by
  obtain ⟨d, hd⟩ := Option.isSome_iff_exists.mp h
  rw [shift?_of_delta? hd, Option.isSome_none]

/-- The tokens of a run join one another, and that makes them a run. -/
theorem isRun_iff : IsRun run ↔ run ≠ [] ∧ run.IsChain Token.Joins := by
  constructor
  · intro h
    cases h with
    | arithmetic hne h =>
      exact ⟨hne, (List.pairwise_of_forall_mem_list fun t ht u hu => Or.inl ⟨h t ht, h u hu⟩).isChain⟩
    | moves hne h =>
      exact ⟨hne, (List.pairwise_of_forall_mem_list fun t ht u hu => Or.inr ⟨h t ht, h u hu⟩).isChain⟩
    | other => exact ⟨List.cons_ne_nil _ _, List.isChain_singleton _⟩
  · rintro ⟨hne, hchain⟩
    induction run with
    | nil => exact absurd rfl hne
    | cons t run ih =>
      cases run with
      | nil =>
        cases hdelta : t.delta? with
        | some d => exact .arithmetic hne (by simp [hdelta])
        | none =>
          cases hshift : t.shift? with
          | some s => exact .moves hne (by simp [hshift])
          | none => exact .other hdelta hshift
      | cons u run =>
        obtain ⟨hjoins, hrest⟩ := List.isChain_cons_cons.mp hchain
        cases ih (List.cons_ne_nil _ _) hrest with
        | arithmetic _ h =>
          have hu : u.delta?.isSome = true := h u List.mem_cons_self
          rcases hjoins with ⟨ht, -⟩ | ⟨-, hu'⟩
          · exact .arithmetic hne (List.forall_mem_cons.mpr ⟨ht, h⟩)
          · rw [not_isSome_shift? hu] at hu'
            cases hu'
        | moves _ h =>
          have hu : u.shift?.isSome = true := h u List.mem_cons_self
          rcases hjoins with ⟨-, hu'⟩ | ⟨ht, -⟩
          · rw [not_isSome_shift? hu'] at hu
            cases hu
          · exact .moves hne (List.forall_mem_cons.mpr ⟨ht, h⟩)
        | other hdelta hshift => simp [Token.Joins, hdelta, hshift] at hjoins

/-- Two runs are one run together if the last token of the one joins the first of the other. -/
theorem isRun_append_iff {run' : List Token} (h : IsRun run) (h' : IsRun run') :
    IsRun (run ++ run') ↔ ∀ t ∈ run.getLast?, ∀ u ∈ run'.head?, t.Joins u := by
  obtain ⟨hne, hchain⟩ := isRun_iff.mp h
  obtain ⟨-, hchain'⟩ := isRun_iff.mp h'
  rw [isRun_iff, List.isChain_append]
  simp [hne, hchain, hchain']

end Runs

/-! ## The one cut -/

section Cut

variable {ts : List Token} {runs : List (List Token)}

instance : DecidableRel Token.Joins := fun _ _ => inferInstanceAs (Decidable (_ ∨ _))

/-- Cutting a list wherever two neighbours do not join gives its maximal runs, and no other cut does. -/
theorem maximalRuns_iff : MaximalRuns ts runs ↔ ts.splitBy (fun t u => decide (t.Joins u)) = runs := by
  have hapart : ∀ run run' : List Token, IsRun run → IsRun run' →
      (¬ IsRun (run ++ run') ↔ ∃ hne hne', decide ((run.getLast hne).Joins (run'.head hne')) = false) := by
    intro run run' h h'
    have hne := (isRun_iff.mp h).1
    have hne' := (isRun_iff.mp h').1
    rw [isRun_append_iff h h', List.getLast?_eq_some_getLast hne, List.head?_eq_some_head hne']
    simp [hne, hne']
  rw [List.splitBy_eq_iff]
  constructor
  · rintro ⟨hflatten, hruns, hchain⟩
    refine ⟨hflatten.symm, fun hnil => (isRun_iff.mp (hruns [] hnil)).1 rfl, ?_, ?_⟩
    · intro run hrun
      simpa using (isRun_iff.mp (hruns run hrun)).2
    · exact hchain.imp_of_mem_imp fun run run' h h' => (hapart run run' (hruns run h) (hruns run' h')).mp
  · rintro ⟨hflatten, hnil, hjoins, hchain⟩
    have hruns : ∀ run ∈ runs, IsRun run := by
      intro run hrun
      refine isRun_iff.mpr ⟨fun h => hnil (h ▸ hrun), ?_⟩
      simpa using hjoins run hrun
    refine ⟨hflatten.symm, hruns, ?_⟩
    exact hchain.imp_of_mem_imp fun run run' h h' => (hapart run run' (hruns run h) (hruns run' h')).mpr

end Cut

/-! ## Merging a run -/

section Net

variable {run us : List Token} {t : Token}

theorem signed_increment (delta : Int) : signed .increment .decrement delta = arithmetic delta := by
  rcases delta with (_ | n) | n <;> simp [signed, arithmetic]

theorem signed_moveRight (shift : Int) : signed .moveRight .moveLeft shift = move shift := by
  rcases shift with (_ | n) | n <;> simp [signed, move]

/-- Arithmetic in front of other tokens adds to the sum that is pending. -/
theorem compressFrom_append_of_delta? (h : ∀ t ∈ run, t.delta?.isSome = true) (delta : Int) :
    compressFrom delta 0 (run ++ us) = compressFrom (delta + (run.filterMap Token.delta?).sum) 0 us := by
  induction run generalizing delta with
  | nil => simp
  | cons t run ih =>
    obtain ⟨ht, hrun⟩ := List.forall_mem_cons.mp h
    obtain ⟨d, hd⟩ := Option.isSome_iff_exists.mp ht
    rw [List.cons_append, compressFrom_cons_of_delta? hd, ih hrun, List.filterMap_cons_some hd, List.sum_cons, Int.add_assoc]

/-- Moves in front of other tokens add to the distance that is pending. -/
theorem compressFrom_append_of_shift? (h : ∀ t ∈ run, t.shift?.isSome = true) (shift : Int) :
    compressFrom 0 shift (run ++ us) = compressFrom 0 (shift + (run.filterMap Token.shift?).sum) us := by
  induction run generalizing shift with
  | nil => simp
  | cons t run ih =>
    obtain ⟨ht, hrun⟩ := List.forall_mem_cons.mp h
    obtain ⟨s, hs⟩ := Option.isSome_iff_exists.mp ht
    rw [List.cons_append, compressFrom_cons_of_shift? hs, ih hrun, List.filterMap_cons_some hs, List.sum_cons, Int.add_assoc]

/-- A run is merged into the token of its net sum, if what follows does not belong to it. -/
theorem compress_append_of_isRun (h : IsRun run) (hus : ∀ t ∈ run.getLast?, ∀ u ∈ us.head?, ¬ t.Joins u) :
    compress (run ++ us) = net run ++ compress us := by
  cases h with
  | arithmetic hne h =>
    have hlast := List.getLast?_eq_some_getLast hne
    have hout := @compressFrom_of_head (0 + (run.filterMap Token.delta?).sum) 0 us
      (fun u hu hu' => absurd (Or.inl ⟨h _ (List.getLast_mem hne), hu'⟩) (hus _ hlast u hu)) fun _ _ _ => rfl
    rw [compress, compressFrom_append_of_delta? h, hout, net, if_pos (List.all_eq_true.mpr h), signed_increment, Int.zero_add]
    exact congrArg (· ++ compress us) (List.append_nil _)
  | moves hne h =>
    have hlast := List.getLast?_eq_some_getLast hne
    have hout := @compressFrom_of_head 0 (0 + (run.filterMap Token.shift?).sum) us (fun _ _ _ => rfl)
      fun u hu hu' => absurd (Or.inr ⟨h _ (List.getLast_mem hne), hu'⟩) (hus _ hlast u hu)
    have hmixed : ¬ run.all (·.delta?.isSome) = true := by
      intro hall
      have hdelta := List.all_eq_true.mp hall _ (List.getLast_mem hne)
      have hshift := h _ (List.getLast_mem hne)
      rw [not_isSome_shift? hdelta] at hshift
      cases hshift
    rw [compress, compressFrom_append_of_shift? h, hout, net, if_neg hmixed, if_pos (List.all_eq_true.mpr h), signed_moveRight,
      Int.zero_add]
    rfl
  | @other t hdelta hshift =>
    have hmerge := compress_append_cons hdelta hshift [] us
    rw [List.nil_append] at hmerge
    rw [List.singleton_append, hmerge, net]
    simp [hdelta, hshift, compress, compressFrom, arithmetic, move]

end Net

/-- Merging replaces each maximal run by the token of its net sum. -/
theorem MaximalRuns.compress_eq {ts : List Token} {runs : List (List Token)} (h : MaximalRuns ts runs) :
    compress ts = runs.flatMap net := by
  obtain ⟨rfl, hruns, hapart⟩ := h
  induction runs with
  | nil => rfl
  | cons run runs ih =>
    obtain ⟨hrun, hruns⟩ := List.forall_mem_cons.mp hruns
    obtain ⟨hhead, hapart⟩ := List.isChain_cons.mp hapart
    rw [List.flatten_cons, List.flatMap_cons, ← ih hruns hapart]
    refine compress_append_of_isRun hrun ?_
    intro t ht u hu hjoins
    cases runs with
    | nil => cases hu
    | cons run' runs =>
      have hrun' := (List.forall_mem_cons.mp hruns).1
      have hne' := (isRun_iff.mp hrun').1
      rw [List.flatten_cons, List.head?_append_of_ne_nil _ hne'] at hu
      refine hhead run' rfl ((isRun_append_iff hrun hrun').mpr ?_)
      intro t' ht' u' hu'
      obtain rfl := Option.mem_unique ht ht'
      obtain rfl := Option.mem_unique hu hu'
      exact hjoins

/-! ## The scan -/

/-- A scan under way: the sum that is added and the distance that is moved so far in the run that is pending, and the tokens that were
let out. -/
structure Scan where
  delta : Int := 0
  shift : Int := 0
  out : List Token := []

namespace Scan

/-- The token of a pending sum, made as any token is made from its kind and its count; none for zero. -/
def letOut (up down : Kind) (sum : Int) : Except TokenError (List Token) :=
  if 0 < sum then (Token.make up (.integer sum)).map ([·])
  else if sum < 0 then (Token.make down (.integer (-sum))).map ([·])
  else .ok []

/-- The arithmetic that is pending is let out. -/
def flushDelta (s : Scan) : Except TokenError Scan :=
  (letOut .increment .decrement s.delta).map fun ts => { s with delta := 0, out := s.out ++ ts }

/-- The moves that are pending are let out. -/
def flushShift (s : Scan) : Except TokenError Scan :=
  (letOut .moveRight .moveLeft s.shift).map fun ts => { s with shift := 0, out := s.out ++ ts }

/-- One more token: it joins its own sum, and what else is pending is let out before it. -/
def read (s : Scan) (t : Token) : Except TokenError Scan :=
  match t.delta?, t.shift? with
  | some d, _ => s.flushShift.map fun s => { s with delta := s.delta + d }
  | none, some d => s.flushDelta.map fun s => { s with shift := s.shift + d }
  | none, none => (s.flushDelta.bind flushShift).map fun s => { s with out := s.out ++ [t] }

/-- The tokens when there is no more to read. -/
def finish (s : Scan) : Except TokenError (List Token) := (s.flushDelta.bind flushShift).map out

/-- What a scan keeps: one of the two sums is zero, and no token that was let out has a count of zero. -/
structure Tidy (s : Scan) : Prop where
  pending : s.delta = 0 ∨ s.shift = 0
  counts : ∀ t ∈ s.out, ∀ n ∈ t.count?, 1 ≤ n

/-- The token of a pending sum is not refused. -/
theorem letOut_eq {up down : Kind} {f g : Numeral → Token} (hup : ∀ n : Nat, Token.make up (.integer n) = .ok (f (.nat n)))
    (hdown : ∀ n : Nat, Token.make down (.integer n) = .ok (g (.nat n))) (sum : Int) :
    letOut up down sum = .ok (signed f g sum) := by
  rcases sum with (_ | n) | n
  · rfl
  · have hpos : 0 < Int.ofNat (n + 1) := Int.natCast_pos.mpr n.succ_pos
    rw [letOut, if_pos hpos, Int.ofNat_eq_natCast, hup]
    rfl
  · have hneg : Int.negSucc n < 0 := Int.negSucc_lt_zero n
    rw [letOut, if_neg (Int.not_lt.mpr (Int.le_of_lt hneg)), if_pos hneg, Int.neg_negSucc, hdown]
    rfl

theorem flushDelta_eq (s : Scan) : s.flushDelta = .ok { s with delta := 0, out := s.out ++ arithmetic s.delta } := by
  rw [flushDelta, letOut_eq (fun n => rfl) (fun n => rfl), signed_increment]
  rfl

theorem flushShift_eq (s : Scan) : s.flushShift = .ok { s with shift := 0, out := s.out ++ move s.shift } := by
  rw [flushShift, letOut_eq (fun n => rfl) (fun n => rfl), signed_moveRight]
  rfl

/-- All that is pending is let out, the arithmetic before the moves. -/
theorem flush_eq (s : Scan) :
    s.flushDelta.bind flushShift = .ok { out := s.out ++ (arithmetic s.delta ++ move s.shift) } := by
  rw [flushDelta_eq, Except.bind, flushShift_eq, List.append_assoc]

theorem finish_eq (s : Scan) : s.finish = .ok (s.out ++ (arithmetic s.delta ++ move s.shift)) := by
  rw [finish, flush_eq]
  rfl

/-- The scan after one more token. -/
def next (s : Scan) (t : Token) : Scan :=
  match t.delta?, t.shift? with
  | some d, _ => { delta := s.delta + d, out := s.out ++ move s.shift }
  | none, some d => { shift := s.shift + d, out := s.out ++ arithmetic s.delta }
  | none, none => { out := s.out ++ (arithmetic s.delta ++ move s.shift) ++ [t] }

theorem read_eq (s : Scan) (t : Token) : s.read t = .ok (s.next t) := by
  rw [read, next]
  cases t.delta? with
  | some d =>
    rw [flushShift_eq]
    rfl
  | none =>
    cases t.shift? with
    | some d =>
      rw [flushDelta_eq]
      rfl
    | none =>
      rw [flush_eq]
      rfl

/-- No token is refused on the way. -/
theorem foldlM_read (ts : List Token) (s : Scan) : ts.foldlM read s = .ok (ts.foldl next s) := by
  rw [show read = fun s t => pure (next s t) from funext fun s => funext (read_eq s)]
  exact List.foldlM_pure

/-- What a scan lets out in the end is what it has let out so far and the rest, merged with what is pending. -/
theorem finish_foldl_next (ts : List Token) (s : Scan) :
    (ts.foldl next s).finish = .ok (s.out ++ compressFrom s.delta s.shift ts) := by
  induction ts generalizing s with
  | nil => exact finish_eq s
  | cons t ts ih =>
    rw [List.foldl_cons, ih, next, compressFrom]
    cases t.delta? with
    | some d => rw [List.append_assoc]
    | none =>
      cases t.shift? with
      | some d => rw [List.append_assoc]
      | none => simp only [List.append_assoc, List.singleton_append]

end Scan

/-- No token of a sum has a count of zero. -/
theorem count_of_mem_arithmetic {delta : Int} {t : Token} (h : t ∈ arithmetic delta) : ∀ n ∈ t.count?, 1 ≤ n := by
  unfold arithmetic at h
  grind [Token.count?, Numeral.toNat]

theorem count_of_mem_move {shift : Int} {t : Token} (h : t ∈ move shift) : ∀ n ∈ t.count?, 1 ≤ n := by
  unfold move at h
  grind [Token.count?, Numeral.toNat]

theorem count?_eq_none {t : Token} (hdelta : t.delta? = none) (hshift : t.shift? = none) : t.count? = none := by
  cases t with
  | increment | decrement => cases hdelta
  | moveLeft | moveRight => cases hshift
  | _ => rfl

/-- One token keeps a scan tidy: it joins a sum when the other has been let out. -/
theorem Scan.Tidy.next {s : Scan} (hs : s.Tidy) (t : Token) : (s.next t).Tidy := by
  obtain ⟨-, hcounts⟩ := hs
  have harithmetic : ∀ u ∈ arithmetic s.delta, ∀ n ∈ u.count?, 1 ≤ n := fun u hu => count_of_mem_arithmetic hu
  have hmove : ∀ u ∈ move s.shift, ∀ n ∈ u.count?, 1 ≤ n := fun u hu => count_of_mem_move hu
  rw [Scan.next]
  cases hdelta : t.delta? with
  | some d => exact ⟨Or.inr rfl, List.forall_mem_append.mpr ⟨hcounts, hmove⟩⟩
  | none =>
    cases hshift : t.shift? with
    | some d => exact ⟨Or.inl rfl, List.forall_mem_append.mpr ⟨hcounts, harithmetic⟩⟩
    | none =>
      have ht : ∀ u ∈ [t], ∀ n ∈ u.count?, 1 ≤ n := by simp [count?_eq_none hdelta hshift]
      have hpending := List.forall_mem_append.mpr ⟨hcounts, List.forall_mem_append.mpr ⟨harithmetic, hmove⟩⟩
      exact ⟨Or.inl rfl, List.forall_mem_append.mpr ⟨hpending, ht⟩⟩

/-- A scan is tidy after any number of tokens. -/
theorem Scan.Tidy.foldl_next {s : Scan} (hs : s.Tidy) (ts : List Token) : (ts.foldl Scan.next s).Tidy := by
  induction ts generalizing s with
  | nil => exact hs
  | cons t ts ih => exact ih (hs.next t)

/-- What a tidy scan lets out in the end has no counts of zero. -/
theorem Scan.Tidy.finish {s : Scan} (hs : s.Tidy) {us : List Token} (h : s.finish = .ok us) : ∀ t ∈ us, ∀ n ∈ t.count?, 1 ≤ n := by
  rw [Scan.finish_eq] at h
  obtain rfl := Except.ok.inj h
  exact List.forall_mem_append.mpr ⟨hs.counts, List.forall_mem_append.mpr
    ⟨fun _ ht => count_of_mem_arithmetic ht, fun _ ht => count_of_mem_move ht⟩⟩

/-- Merging tells run by run what a scan does token by token. Every list of tokens is cut into maximal runs in one way, and merging
replaces each of them by the token of its net sum. The scan that does it refuses no token; after each number of tokens one of its two
sums is zero, and what it has let out says at least once what it says. The tokens at the end are those of the merged list, which has
no counts of zero and is no longer than the list. -/
theorem compress_eq_net (ts : List Token) :
    (∃! runs, MaximalRuns ts runs) ∧ (∀ runs, MaximalRuns ts runs → compress ts = runs.flatMap net) ∧
      (∀ k, ∃ s, (ts.take k).foldlM Scan.read {} = .ok s ∧ s.Tidy) ∧
      (ts.foldlM Scan.read {}).bind Scan.finish = .ok (compress ts) ∧
      (∀ t ∈ compress ts, ∀ n ∈ t.count?, 1 ≤ n) ∧ (compress ts).length ≤ ts.length := by
  have hstart : Scan.Tidy {} := ⟨Or.inl rfl, nofun⟩
  have hfinish : (ts.foldl Scan.next {}).finish = .ok (compress ts) := Scan.finish_foldl_next ts {}
  refine ⟨⟨_, maximalRuns_iff.mpr rfl, fun runs h => (maximalRuns_iff.mp h).symm⟩, fun runs h => h.compress_eq, ?_, ?_, ?_,
    length_compress_le ts⟩
  · intro k
    exact ⟨_, Scan.foldlM_read _ _, hstart.foldl_next _⟩
  · rw [Scan.foldlM_read, Except.bind, hfinish]
  · exact (hstart.foldl_next ts).finish hfinish

/-- In this list the moves of the second run come to nothing and leave two runs of arithmetic beside each other, which stay two tokens;
the moves behind the no-op are one. -/
theorem compress_eq_net_nothing :
    let ts : List Token := [.increment (.nat 1), .moveRight (.nat 2), .moveLeft (.nat 2), .increment (.truth true), .noOp .null,
      .moveLeft (.nat 3), .moveLeft (.nat 4)]
    let runs : List (List Token) := [[.increment (.nat 1)], [.moveRight (.nat 2), .moveLeft (.nat 2)], [.increment (.truth true)],
      [.noOp .null], [.moveLeft (.nat 3), .moveLeft (.nat 4)]]
    MaximalRuns ts runs ∧ compress ts = runs.flatMap net ∧
      compress ts = [.increment (.nat 1), .increment (.nat 1), .noOp .null, .moveLeft (.nat 7)] := by
  intro ts runs
  have hruns : MaximalRuns ts runs := maximalRuns_iff.mpr rfl
  exact ⟨hruns, (compress_eq_net ts).2.1 runs hruns, rfl⟩

end Program

end Brainfuck
