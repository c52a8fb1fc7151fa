import Brainfuck.Proofs.Options

/-!
# Batches

Sources that are run one after another on one machine, up to the first that fails, do together what one run of their concatenation
does (`runBatch_iff_runSource`). The seams do not show: brackets that are balanced in each of two texts pair up within each, so
that the tokens of the two, one behind the other, read as the block of the first continued by the block of the second
(`Block.read_append_of_read`), and what such a block shows is what the two show in turn (`Block.shows_append_ended_iff`). That
the compilation of the concatenation also merges and cancels across the seams makes no difference either, since the options of a
compilation never do.
-/

namespace Brainfuck

/-- A source to be run, with the options that it is compiled with. -/
structure Job where
  options : Program.Options
  source : List Char

/-- The sources of a batch, one behind the other. -/
def Job.concat (batch : List Job) : List Char := batch.flatMap Job.source

namespace Machine

/-- The end of a batch: its jobs are run in order on one machine, each with at most `steps` tokens, up to the first that fails. -/
def runBatch (steps : Nat) : List Job → Machine → Option (Machine × Except RunError Unit)
  | [], m => some (m, .ok ())
  | job :: rest, m =>
    match m.runSource steps job.options job.source with
    | none => none
    | some (m', .error e) => some (m', .error e)
    | some (m', .ok _) => runBatch steps rest m'

/-- A batch gets stuck: it comes to a job whose run never stops. -/
inductive GetsStuck : List Job → Machine → Prop
  | here {job : Job} {rest : List Job} {m : Machine} (h : ∀ steps, m.runSource steps job.options job.source = none) :
      GetsStuck (job :: rest) m
  | later {job : Job} {rest : List Job} {m m' : Machine} {steps count : Nat}
      (hrun : m.runSource steps job.options job.source = some (m', .ok count)) (h : GetsStuck rest m') :
      GetsStuck (job :: rest) m

/-- A batch comes to an end with a machine and an outcome. -/
def BatchEnds (batch : List Job) (m m' : Machine) : Outcome → Prop
  | .finished => ∃ steps, m.runBatch steps batch = some (m', .ok ())
  | .failed cause => ∃ steps, m.runBatch steps batch = some (m', .error (.runtime cause))

end Machine

/-! ## One text behind another -/

namespace Block

/-- A token that opens or extends some blocks does the same to these blocks when their last one is continued by another. -/
theorem extend_append {t : Token} {waiting inner outer : List Block} {last b c : Block}
    (h : extend t (waiting ++ [last]) = some (inner ++ [b])) :
    extend t (waiting ++ last.append c :: outer) = some (inner ++ b.append c :: outer) := by
  by_cases ht : t.isLoop = true
  · cases t with
    | loopStart target =>
      rcases waiting with _ | ⟨body, _ | ⟨rest, more⟩⟩
      · simp [extend] at h
      · have h' : [] ++ [Block.loop body last] = inner ++ [b] := Option.some.inj h
        obtain ⟨rfl, hb⟩ := List.append_inj' h' rfl
        obtain rfl := List.singleton_inj.mp hb
        rfl
      · have h' : Block.loop body rest :: more ++ [last] = inner ++ [b] := Option.some.inj h
        obtain ⟨rfl, hb⟩ := List.append_inj' h' rfl
        obtain rfl := List.singleton_inj.mp hb
        rfl
    | loopEnd target =>
      have h' : Block.done :: waiting ++ [last] = inner ++ [b] := Option.some.inj h
      obtain ⟨rfl, hb⟩ := List.append_inj' h' rfl
      obtain rfl := List.singleton_inj.mp hb
      rfl
    | _ => simp [Token.isLoop, Token.kind] at ht
  · rw [Bool.not_eq_true] at ht
    rcases waiting with _ | ⟨first, more⟩
    · rw [List.nil_append, extend_of_not_isLoop ht] at h
      have h' : [] ++ [Block.simple t last] = inner ++ [b] := Option.some.inj h
      obtain ⟨rfl, hb⟩ := List.append_inj' h' rfl
      obtain rfl := List.singleton_inj.mp hb
      exact extend_of_not_isLoop ht _ _
    · rw [List.cons_append, extend_of_not_isLoop ht] at h
      have h' : Block.simple t first :: more ++ [last] = inner ++ [b] := Option.some.inj h
      obtain ⟨rfl, hb⟩ := List.append_inj' h' rfl
      obtain rfl := List.singleton_inj.mp hb
      exact extend_of_not_isLoop ht _ _

/-- Tokens in front of others are continued by the first block that the others read as. -/
theorem read_append_of_read {ts us : List Token} {inner outer : List Block} {b c : Block}
    (hts : read ts = some (inner ++ [b])) (hus : read us = some (c :: outer)) :
    read (ts ++ us) = some (inner ++ b.append c :: outer) := by
  induction ts generalizing inner b with
  | nil =>
    have h' : [] ++ [Block.done] = inner ++ [b] := Option.some.inj hts
    obtain ⟨rfl, hb⟩ := List.append_inj' h' rfl
    obtain rfl := List.singleton_inj.mp hb
    exact hus
  | cons t ts ih =>
    rw [read_cons, Option.bind_eq_some_iff] at hts
    obtain ⟨blocks, hread, hextend⟩ := hts
    have hne : blocks ≠ [] := fun h => read_ne_nil (h ▸ hread)
    rw [← List.dropLast_concat_getLast hne] at hread hextend
    rw [List.cons_append, read_cons, ih hread, Option.bind_some]
    exact extend_append hextend

/-- A run of a block that is continued comes to the continuation where the block ends, or it fails within the block. -/
theorem ended_of_shows_append {b c : Block} {m m' : Machine} {o : Outcome} (h : Shows (b.append c) m (.ended m' o)) :
    (∃ m₁, Shows b m (.ended m₁ .finished) ∧ Shows c m₁ (.ended m' o)) ∨ (o ≠ .finished ∧ Shows b m (.ended m' o)) := by
  induction b generalizing m with
  | done => exact Or.inl ⟨m, .done m, h⟩
  | simple t rest ih =>
    cases h with
    | next hexec hrest =>
      rcases ih hrest with ⟨m₁, hend, hc⟩ | ⟨ho, hend⟩
      · exact Or.inl ⟨m₁, .next hexec hend, hc⟩
      · exact Or.inr ⟨ho, .next hexec hend⟩
    | fails hexec => exact Or.inr ⟨nofun, .fails hexec⟩
  | loop body rest _ ihr =>
    -- the rounds of a loop are counted by the derivation and not by the block
    rw [append] at h
    generalize hs : Sight.ended m' o = s at h
    induction h using Shows.loop_induction with
    | now => cases hs
    | skip hcell hrest =>
      subst hs
      rcases ihr hrest with ⟨m₁, hend, hc⟩ | ⟨ho, hend⟩
      · exact Or.inl ⟨m₁, .skip hcell hend, hc⟩
      · exact Or.inr ⟨ho, .skip hcell hend⟩
    | inside hcell hbody hne =>
      subst hs
      refine Or.inr ⟨?_, .inside hcell hbody hne⟩
      rintro rfl
      exact hne _ rfl
    | again hcell hbody _ ih =>
      rcases ih hs with ⟨m₁, hend, hc⟩ | ⟨ho, hend⟩
      · exact Or.inl ⟨m₁, .again hcell hbody hend, hc⟩
      · exact Or.inr ⟨ho, .again hcell hbody hend⟩

/-- A block that is continued ends as the two blocks do in turn. -/
theorem shows_append_ended_iff {b c : Block} {m m' : Machine} {o : Outcome} :
    Shows (b.append c) m (.ended m' o) ↔
      (∃ m₁, Shows b m (.ended m₁ .finished) ∧ Shows c m₁ (.ended m' o)) ∨ (o ≠ .finished ∧ Shows b m (.ended m' o)) := by
  constructor
  · exact ended_of_shows_append
  · rintro (⟨m₁, hb, hc⟩ | ⟨ho, hb⟩)
    · exact hb.append hc
    · refine hb.append_left ?_
      rintro m₁ ⟨⟩
      exact ho rfl

end Block

namespace Program

/-- Sources that read as blocks read, one behind the other, as the first block continued by the second. -/
theorem read_tokenize_append {source source' : List Char} {b c : Block} (h : Block.read (tokenize source) = some [b])
    (h' : Block.read (tokenize source') = some [c]) :
    Block.read (tokenize (source ++ source')) = some [b.append c] := by
  rw [tokenize_append]
  exact @Block.read_append_of_read _ _ [] [] b c h h'

end Program

/-! ## The end of a batch -/

namespace Machine

variable {m m' : Machine} {o : Outcome} {options : Program.Options} {source : List Char} {b : Block} {job : Job}
  {batch rest : List Job} {steps steps' : Nat}

/-- A source ends as the block does that it reads as, whatever options it is compiled with. -/
theorem sourceEnds_iff_shows (h : Block.read (Program.tokenize source) = some [b]) (hm : m.tape.InRange) :
    m.SourceEnds options source m' o ↔ b.Shows m (.ended m' o) := by
  have hsame := Program.same_unpaired options source
  have hlinked := Block.resolve_of_read h
  obtain ⟨tokens, htokens⟩ := hsame.exists_resolve hlinked
  obtain ⟨hends, -⟩ := hsame.runsAlike hlinked htokens hm
  rw [← Program.compile_eq_resolve] at htokens
  rw [sourceEnds_iff htokens, ← hends, Block.exists_run_link_iff_shows (Block.plain_of_read h b (by simp)) hm]

/-- A balanced source is not refused. -/
theorem runSource_ne_unmatched (h : Source.Balanced source) {loop : UnmatchedLoop} :
    m.runSource steps options source ≠ some (m', .error (.unmatched loop)) := by
  intro hrun
  obtain ⟨tokens, htokens⟩ := Program.exists_compile h options
  obtain ⟨hrefused, -⟩ := runSource_eq_some_iff.mp hrun
  cases htokens.symm.trans hrefused

/-- A batch ends with a number of steps if its first job fails, or if that ends well and the others end from there. -/
theorem runBatch_cons_eq_some_iff {result : Except RunError Unit} :
    m.runBatch steps (job :: rest) = some (m', result) ↔
      (∃ m₁ count, m.runSource steps job.options job.source = some (m₁, .ok count) ∧
          m₁.runBatch steps rest = some (m', result)) ∨
        ∃ e, result = .error e ∧ m.runSource steps job.options job.source = some (m', .error e) := by
  rw [runBatch]
  rcases m.runSource steps job.options job.source with _ | ⟨m₁, e | count⟩
  · simp
  · simp [eq_comm, and_comm]
  · simp

/-- Of a batch of balanced sources none is refused. -/
theorem runBatch_ne_unmatched (h : ∀ job ∈ batch, Source.Balanced job.source) {loop : UnmatchedLoop} :
    m.runBatch steps batch ≠ some (m', .error (.unmatched loop)) := by
  induction batch generalizing m with
  | nil => simp [runBatch]
  | cons job rest ih =>
    intro hbatch
    rcases runBatch_cons_eq_some_iff.mp hbatch with ⟨m₁, count, -, hrest⟩ | ⟨e, he, hrun⟩
    · exact ih (fun job hjob => h job (List.mem_cons_of_mem _ hjob)) hrest
    · cases he
      exact runSource_ne_unmatched (h job List.mem_cons_self) hrun

/-- A batch that has come to its end with some steps for each job comes to the same end with more. -/
theorem runBatch_of_le {r : Machine × Except RunError Unit} (hle : steps ≤ steps') (h : m.runBatch steps batch = some r) :
    m.runBatch steps' batch = some r := by
  induction batch generalizing m with
  | nil => exact h
  | cons job rest ih =>
    obtain ⟨m', result⟩ := r
    rw [runBatch_cons_eq_some_iff] at h ⊢
    rcases h with ⟨m₁, count, hrun, hrest⟩ | ⟨e, he, hrun⟩
    · exact Or.inl ⟨m₁, count, runSource_of_le hle hrun, ih hrest⟩
    · exact Or.inr ⟨e, he, runSource_of_le hle hrun⟩

/-- A batch ends as its first job does if that fails, and otherwise as the others do from where the first one ends. -/
theorem batchEnds_cons_iff :
    BatchEnds (job :: rest) m m' o ↔
      (∃ m₁, m.SourceEnds job.options job.source m₁ .finished ∧ BatchEnds rest m₁ m' o) ∨
        (o ≠ .finished ∧ m.SourceEnds job.options job.source m' o) := by
  have hjoin : ∀ {m₁ : Machine} {steps₁ steps₂ count : Nat} {result : Except RunError Unit},
      m.runSource steps₁ job.options job.source = some (m₁, .ok count) → m₁.runBatch steps₂ rest = some (m', result) →
        m.runBatch (max steps₁ steps₂) (job :: rest) = some (m', result) :=
    fun hrun hrest => runBatch_cons_eq_some_iff.mpr <|
      Or.inl ⟨_, _, runSource_of_le (Nat.le_max_left ..) hrun, runBatch_of_le (Nat.le_max_right ..) hrest⟩
  cases o with
  | finished =>
    constructor
    · rintro ⟨steps, h⟩
      rcases runBatch_cons_eq_some_iff.mp h with ⟨m₁, count, hrun, hrest⟩ | ⟨e, he, -⟩
      · exact Or.inl ⟨m₁, ⟨steps, count, hrun⟩, steps, hrest⟩
      · cases he
    · rintro (⟨m₁, ⟨steps₁, count, hrun⟩, steps₂, hrest⟩ | ⟨hne, -⟩)
      · exact ⟨_, hjoin hrun hrest⟩
      · exact absurd rfl hne
  | failed cause =>
    constructor
    · rintro ⟨steps, h⟩
      rcases runBatch_cons_eq_some_iff.mp h with ⟨m₁, count, hrun, hrest⟩ | ⟨e, he, hrun⟩
      · exact Or.inl ⟨m₁, ⟨steps, count, hrun⟩, steps, hrest⟩
      · cases he
        exact Or.inr ⟨nofun, steps, hrun⟩
    · rintro (⟨m₁, ⟨steps₁, count, hrun⟩, steps₂, hrest⟩ | ⟨-, steps, hrun⟩)
      · exact ⟨_, hjoin hrun hrest⟩
      · exact ⟨steps, runBatch_cons_eq_some_iff.mpr (Or.inr ⟨_, rfl, hrun⟩)⟩

/-- A batch that gets stuck comes to no end. -/
theorem GetsStuck.runBatch_eq_none (h : GetsStuck batch m) (steps : Nat) : m.runBatch steps batch = none := by
  rw [Option.eq_none_iff_forall_ne_some]
  rintro ⟨m', result⟩ hbatch
  induction h with
  | here hnever =>
    rcases runBatch_cons_eq_some_iff.mp hbatch with ⟨m₁, count, hrun, -⟩ | ⟨e, -, hrun⟩
    · simp [hnever] at hrun
    · simp [hnever] at hrun
  | later hended _ ih =>
    rcases runBatch_cons_eq_some_iff.mp hbatch with ⟨m₁, count, hrun, hrest⟩ | ⟨e, -, hrun⟩
    · cases runSource_det hended hrun
      exact ih hrest
    · cases runSource_det hended hrun

/-- A run that is asked for with all numbers of steps never answers if and only if nothing is its answer. -/
theorem forall_eq_none_iff {α : Type} {answer : Nat → Option α} :
    (∀ steps, answer steps = none) ↔ ∀ r, ¬∃ steps, answer steps = some r := by
  simp only [Option.eq_none_iff_forall_ne_some, not_exists]
  exact forall_comm

/-- A batch gets stuck if and only if it never comes to an end. -/
theorem getsStuck_iff : GetsStuck batch m ↔ ∀ steps, m.runBatch steps batch = none := by
  refine ⟨GetsStuck.runBatch_eq_none, fun h => ?_⟩
  induction batch generalizing m with
  | nil => simp [runBatch] at h
  | cons job rest ih =>
    by_cases hnever : ∀ steps, m.runSource steps job.options job.source = none
    · exact .here hnever
    · obtain ⟨steps, hsome⟩ := not_forall.mp hnever
      obtain ⟨⟨m₁, e | count⟩, hrun⟩ := Option.ne_none_iff_exists'.mp hsome
      · have hbatch : m.runBatch steps (job :: rest) = some (m₁, .error e) :=
          runBatch_cons_eq_some_iff.mpr (Or.inr ⟨e, rfl, hrun⟩)
        cases (h steps).symm.trans hbatch
      · refine .later hrun (ih fun steps' => ?_)
        -- An end of the others with other steps would be an end of the batch with the greater number.
        rw [Option.eq_none_iff_forall_ne_some]
        intro ended hrest
        have hbatch := runBatch_cons_eq_some_iff.mpr <| Or.inl
          ⟨m₁, count, runSource_of_le (Nat.le_max_left steps steps') hrun, runBatch_of_le (Nat.le_max_right ..) hrest⟩
        cases (h _).symm.trans hbatch

/-- A batch of balanced sources ends as the block does that their concatenation reads as. -/
theorem exists_batchEnds_iff_shows (h : ∀ job ∈ batch, Source.Balanced job.source) :
    ∃ b, Block.read (Program.tokenize (Job.concat batch)) = some [b] ∧
      ∀ m m' o, m.tape.InRange → (BatchEnds batch m m' o ↔ b.Shows m (.ended m' o)) := by
  induction batch with
  | nil =>
    refine ⟨.done, rfl, fun m m' o _ => ?_⟩
    constructor
    · intro hends
      cases o with
      | finished =>
        obtain ⟨_, ⟨⟩⟩ := hends
        exact .done m
      | failed cause => obtain ⟨_, ⟨⟩⟩ := hends
    · rintro ⟨⟩
      exact ⟨0, rfl⟩
  | cons job rest ih =>
    obtain ⟨b, hb⟩ := Program.exists_read (h job List.mem_cons_self)
    obtain ⟨c, hc, hrest⟩ := ih fun job hjob => h job (List.mem_cons_of_mem _ hjob)
    refine ⟨b.append c, Program.read_tokenize_append hb hc, fun m m' o hm => ?_⟩
    rw [batchEnds_cons_iff, Block.shows_append_ended_iff, sourceEnds_iff_shows hb hm]
    refine or_congr (exists_congr fun m₁ => ?_) Iff.rfl
    rw [sourceEnds_iff_shows hb hm]
    exact and_congr_right fun hends => hrest m₁ m' o (hends.inRange hm)

end Machine

/-- A batch of balanced sources does what one run of their concatenation does, whatever options each of them and the
concatenation are compiled with: it gets stuck in a job if and only if the one run never stops, it ends well with a machine if and
only if that does, and it fails with a machine and an error if and only if that does. -/
theorem runBatch_iff_runSource {batch : List Job} (h : ∀ job ∈ batch, Source.Balanced job.source)
    (options : Program.Options) {m : Machine} (hm : m.tape.InRange) :
    (Machine.GetsStuck batch m ↔ ∀ steps, m.runSource steps options (Job.concat batch) = none) ∧
      (∀ m', (∃ steps, m.runBatch steps batch = some (m', .ok ())) ↔
        ∃ steps count, m.runSource steps options (Job.concat batch) = some (m', .ok count)) ∧
      ∀ m' e, (∃ steps, m.runBatch steps batch = some (m', .error e)) ↔
        ∃ steps, m.runSource steps options (Job.concat batch) = some (m', .error e) := by
  obtain ⟨b, hread, hbatch⟩ := Machine.exists_batchEnds_iff_shows h
  have hbalanced : Source.Balanced (Job.concat batch) :=
    balanced_tokenize_iff.mp (Block.balanced_iff_read.mpr ⟨b, hread⟩)
  have hends : ∀ m' o, Machine.BatchEnds batch m m' o ↔ m.SourceEnds options (Job.concat batch) m' o := fun m' o => by
    rw [hbatch m m' o hm, Machine.sourceEnds_iff_shows hread hm]
  have hfinished : ∀ m', (∃ steps, m.runBatch steps batch = some (m', .ok ())) ↔
      ∃ steps count, m.runSource steps options (Job.concat batch) = some (m', .ok count) :=
    fun m' => hends m' .finished
  have herror : ∀ m' e, (∃ steps, m.runBatch steps batch = some (m', .error e)) ↔
      ∃ steps, m.runSource steps options (Job.concat batch) = some (m', .error e) := by
    rintro m' (loop | cause)
    · refine iff_of_false ?_ ?_
      · rintro ⟨steps, hrun⟩
        exact Machine.runBatch_ne_unmatched h hrun
      · rintro ⟨steps, hrun⟩
        exact Machine.runSource_ne_unmatched hbalanced hrun
    · exact hends m' (.failed cause)
  refine ⟨?_, hfinished, herror⟩
  -- Neither of the two comes to an end if and only if both have the same ends, that is none.
  rw [Machine.getsStuck_iff, Machine.forall_eq_none_iff, Machine.forall_eq_none_iff]
  constructor
  · rintro hstuck ⟨m', e | count⟩ hrun
    · exact hstuck _ ((herror m' e).mpr hrun)
    · obtain ⟨steps, hrun⟩ := hrun
      exact hstuck _ ((hfinished m').mpr ⟨steps, count, hrun⟩)
  · rintro hstuck ⟨m', e | ⟨⟩⟩ hrun
    · exact hstuck _ ((herror m' e).mp hrun)
    · obtain ⟨steps, count, hrun⟩ := (hfinished m').mp hrun
      exact hstuck _ ⟨steps, hrun⟩

/-- The sources `+>-` and `+<,.,.` undo each other where they meet. On the input 7 both the batch of the two and one run of
`+>-+<,.,.` write 7 and fail at the second read, where no byte is left. -/
theorem runBatch_iff_runSource_seam :
    ∃ batch m m', batch = [⟨{}, ['+', '>', '-']⟩, ⟨⟨false, true⟩, ['+', '<', ',', '.', ',', '.']⟩] ∧
      m = Machine.feed ⟨2, .blank 2, {}, {}⟩ [7] ∧ (∀ job ∈ batch, Source.Balanced job.source) ∧ m.tape.InRange ∧
        m'.output.written = #[7] ∧
        (∃ steps, m.runBatch steps batch = some (m', .error (.runtime .inputExhausted))) ∧
        ∃ steps, m.runSource steps ⟨true, false⟩ (Job.concat batch) = some (m', .error (.runtime .inputExhausted)) := by
  have hbalanced : ∀ job ∈ ([⟨{}, ['+', '>', '-']⟩, ⟨⟨false, true⟩, ['+', '<', ',', '.', ',', '.']⟩] : List Job),
      Source.Balanced job.source := by decide
  have hm : (Machine.feed ⟨2, .blank 2, {}, {}⟩ [7]).tape.InRange := by decide
  obtain ⟨-, -, herror⟩ := runBatch_iff_runSource hbalanced ⟨true, false⟩ hm
  have hrun : ∃ steps, (Machine.feed ⟨2, .blank 2, {}, {}⟩ [7]).runBatch steps
      [⟨{}, ['+', '>', '-']⟩, ⟨⟨false, true⟩, ['+', '<', ',', '.', ',', '.']⟩] =
        some (_, .error (.runtime .inputExhausted)) := ⟨9, rfl⟩
  exact ⟨_, _, _, rfl, rfl, hbalanced, hm, rfl, hrun, (herror _ _).mp hrun⟩

end Brainfuck
