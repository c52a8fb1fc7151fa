import Brainfuck.Command.Run
import Brainfuck.Proofs.Answers

/-!
# The command and the service

A source may be run by the command or by a request to the service that brings it along. Both compile it with the same options and
run it on a new machine of the same size with the same input, so both come to the same end (`Command.run_eq`,
`Service.handle_eq`), and each tells this end in its own way: the command by its exit code and what stands on its two outputs,
the service by the status and the body of its reply (`Agree`).
-/

namespace Brainfuck

/-! ## Command lines -/

/-- The digits of a number are in grouped form. -/
theorem groupedDigits?_of_isDigit {chars : List Char} (hne : chars ≠ []) (h : ∀ c ∈ chars, c.isDigit = true) :
    groupedDigits? decimalDigit? chars = some (chars.map (fun c => c.toNat - '0'.toNat)) := by
  induction chars with
  | nil => exact absurd rfl hne
  | cons c chars ih =>
    obtain ⟨hc, hchars⟩ := List.forall_mem_cons.mp h
    match chars with
    | [] => simp [groupedDigits?, decimalDigit?_of_isDigit hc]
    | d :: chars =>
      have hd : d ≠ '_' := by
        rintro rfl
        exact absurd (hchars '_' List.mem_cons_self) (by decide)
      rw [groupedDigits?, decimalDigit?_of_isDigit hc, ih (List.cons_ne_nil _ _) hchars]
      · rfl
      · exact nofun
      · rintro rest ⟨⟩
        exact hd rfl

/-- A digit is not blank. -/
theorem isBlank_of_isDigit {c : Char} (hc : c.isDigit = true) : isBlank c = false := by
  have hrange : 48 ≤ c.toNat ∧ c.toNat ≤ 57 := by simpa [Char.isDigit, UInt32.le_iff_toNat_le] using hc
  simp only [isBlank, Bool.or_eq_false_iff, Bool.and_eq_false_iff, decide_eq_false_iff_not, beq_eq_false_iff_ne]
  omega

/-- A text without blanks has none at its ends. -/
theorem trimBlanks_of_forall {chars : List Char} (h : ∀ c ∈ chars, isBlank c = false) : trimBlanks chars = chars := by
  have hdrop : ∀ text : List Char, (∀ c ∈ text, isBlank c = false) → text.dropWhile isBlank = text := by
    intro text htext
    cases text with
    | nil => rfl
    | cons c text => simp [htext c List.mem_cons_self]
  rw [trimBlanks, hdrop chars h, hdrop chars.reverse (by simpa using h), List.reverse_reverse]

/-- A number is read back from its digits. -/
theorem groupedInteger?_toString {n : Nat} (hlength : (Nat.toDigits 10 n).length ≤ maxGroupedDigits) :
    groupedInteger? (toString n) = some (n : Int) := by
  have htext := Json.toList_toString n
  have hall : ∀ c ∈ Nat.toDigits 10 n, c.isDigit = true := fun c hc => Json.isDigit_of_mem_toDigits hc
  have hblank : ∀ c ∈ Nat.toDigits 10 n, isBlank c = false := fun c hc => isBlank_of_isDigit (hall c hc)
  obtain ⟨c, chars, hchars, hc⟩ := Json.exists_toDigits_cons n
  have hsign : splitSign (Nat.toDigits 10 n) = (false, Nat.toDigits 10 n) := by
    rw [hchars, splitSign]
    · rintro rest ⟨⟩
      simp at hc
    · rintro rest ⟨⟩
      simp at hc
  simp only [groupedInteger?, htext, trimBlanks_of_forall hblank, hsign, groupedDigits?_of_isDigit Nat.toDigits_ne_nil hall,
    Option.bind_some, List.length_map, if_pos hlength, Json.ofDigits_toDigits]
  rfl

/-- A number of cells that the service may give to a machine has seven digits at most. -/
theorem length_toDigits_le {capacity : Nat} (hmax : (capacity : Int) ≤ Service.maxCapacity) :
    (Nat.toDigits 10 capacity).length ≤ 7 := by
  have hlt : capacity < 10 ^ 7 := by
    unfold Service.maxCapacity at hmax
    omega
  exact (Nat.length_toDigits_le_iff (by decide) (by decide)).mpr hlt

namespace Command

/-- The words that have a source run with some options on a tape of some size. -/
def runWords (size source : String) (options : Program.Options) : List String :=
  ["--tape-size", size] ++ (if options.optimize then [] else ["--no-optimize"]) ++
    (if options.compress then [] else ["--no-compress"]) ++ ["--", source]

/-- These words, sorted. -/
def sortedRunWords (size source : String) (options : Program.Options) : List (Word RunSettings) :=
  [.option ⟨runInterface.choices[2], "--tape-size".toList, none⟩, .plain size] ++
    (if options.optimize then [] else [.option ⟨runInterface.choices[3], "--no-optimize".toList, none⟩]) ++
    (if options.compress then [] else [.option ⟨runInterface.choices[4], "--no-compress".toList, none⟩]) ++
    [.marker, .plain source]

section RunWords

variable {size : String} (hdash : size.toList.head? ≠ some '-') (source : String) (options : Program.Options)
include hdash

/-- A word that does not begin with a dash is plain. -/
theorem sortWord_of_head? {σ : Type} (i : Interface σ) : i.sortWord size = .ok (.plain size) := by
  rw [Interface.sortWord]
  exact if_pos hdash

theorem sort_runWords : runInterface.sort (runWords size source options) = .ok (sortedRunWords size source options) := by
  have hmarker : size ≠ "--" := by
    rintro rfl
    exact hdash (by decide)
  have hsize := sortWord_of_head? hdash runInterface
  have hoption : runInterface.sortWord "--tape-size" = .ok (.option ⟨runInterface.choices[2], "--tape-size".toList, none⟩) := by
    cbv
  have hoptimize :
      runInterface.sortWord "--no-optimize" = .ok (.option ⟨runInterface.choices[3], "--no-optimize".toList, none⟩) := by
    cbv
  have hcompress :
      runInterface.sortWord "--no-compress" = .ok (.option ⟨runInterface.choices[4], "--no-compress".toList, none⟩) := by
    cbv
  rcases options with ⟨_ | _, _ | _⟩ <;>
    simp [runWords, sortedRunWords, Interface.sort, hoption, hoptimize, hcompress, hsize, hmarker, bind, Except.bind, pure,
      Except.pure]

theorem apply_sortedRunWords {capacity : Int} (hsize : tapeSizeOf size = .ok capacity) :
    runInterface.apply runInterface.operand [] {} (sortedRunWords size source options) =
      .ok (.settings { source, tapeSize := some capacity, optimize := options.optimize, compress := options.compress }) := by
  have hvalue : Interface.valueOf size.toList = some size := by
    rw [Interface.valueOf, if_neg, String.ofList_toList]
    intro h
    exact hdash (by rw [h]; rfl)
  have hread : (some size).mapM tapeSizeOf = .ok (some capacity) := by
    simp only [Option.mapM, hsize]
    rfl
  rcases options with ⟨_ | _, _ | _⟩ <;>
    simp [sortedRunWords, Interface.apply, runInterface, Interface.expand, Interface.wantsWord, Interface.giveLast,
      Interface.applyAll, hvalue, hread, Except.map]

/-- The command understands these words. -/
theorem readRunArguments_runWords {capacity : Int} (hsize : tapeSizeOf size = .ok capacity) :
    readRunArguments (runWords size source options) =
      .ok { source, tapeSize := some capacity, optimize := options.optimize, compress := options.compress } := by
  simp only [readRunArguments, Interface.parse, sort_runWords hdash, apply_sortedRunWords hdash source options hsize]

end RunWords

/-- Arguments that have a source run with some options on a tape of some size, and nothing told on the way. -/
def Asks (arguments : List String) (source : String) (options : Program.Options) (capacity : Int) : Prop :=
  ∃ force, readRunArguments arguments = .ok ⟨source, force, some capacity, options.optimize, options.compress, false⟩

/-- There are arguments for every source, all options and every size of a tape. -/
theorem asks_runWords (source : String) (options : Program.Options) {capacity : Nat} (hpos : 0 < capacity)
    (hmax : (capacity : Int) ≤ Service.maxCapacity) :
    Asks (runWords (toString capacity) source options) source options capacity := by
  have hdigits : (Nat.toDigits 10 capacity).length ≤ maxGroupedDigits := (length_toDigits_le hmax).trans (by decide)
  have htext := Json.toList_toString capacity
  have hdash : (toString capacity).toList.head? ≠ some '-' := by
    obtain ⟨c, chars, hchars, hc⟩ := Json.exists_toDigits_cons capacity
    rw [htext, hchars]
    rintro ⟨⟩
    simp at hc
  have hsize : tapeSizeOf (toString capacity) = .ok (capacity : Int) := by
    have hnot : ¬(capacity : Int) < 1 := by omega
    simp only [tapeSizeOf, groupedInteger?_toString hdigits, if_neg hnot]
  exact ⟨false, readRunArguments_runWords hdash source options hsize⟩

/-- The end of the command by the end of its source. -/
def Exit.ofEnd : Machine × Except RunError Nat → Exit
  | (m, .ok _) => { code := 0, stdout := m.output.written.toList }
  | (_, .error (.unmatched loop)) => { code := 1, stderr := "Parse error: " ++ loop.message ++ "\n" }
  | (m, .error (.runtime cause)) =>
    { code := 1, stdout := m.output.written.toList, stderr := "Runtime error: " ++ cause.message ++ "\n" }

/-- The end of the command is that by the end of its source. -/
theorem run_eq {arguments : List String} {source : String} {options : Program.Options} {capacity : Int} {files : FileTree}
    {bytes : List UInt8} {text : List Char} {fresh : Machine} (hasks : Asks arguments source options capacity)
    (hextension : knownExtension source = true) (hfile : files.find (Path.ofText source) = .file bytes)
    (hdecode : Utf8.decode bytes = .ok text) (hcreate : Machine.create capacity = .ok fresh) (steps : Nat) (stdin : List UInt8) :
    run steps arguments files stdin = ((fresh.feed stdin).runSource steps options (normalizeLines text)).map Exit.ofEnd := by
  obtain ⟨force, hsettings⟩ := hasks
  simp only [run, hsettings, runEntry, readSource, hextension, Bool.not_true, Bool.and_false, Bool.false_eq_true, if_false, hfile,
    sourceText, hdecode, runText, Machine.runSource]
  cases Program.compile options (normalizeLines text) with
  | error loop => rfl
  | ok tokens =>
    simp only [logLine, Bool.false_eq_true, if_false, runTokens, hcreate, Option.map_map]
    congr 1
    funext ended
    obtain ⟨m, outcome⟩ := ended
    cases outcome with
    | finished => rfl
    | failed cause => rfl

end Command

namespace Service

/-- The fields of a request to run a source with some input and options on a tape of some size. -/
def runFields (source : List Char) (input : List UInt8) (options : Program.Options) (capacity : Nat) : List (String × Json) :=
  [("code", .string (String.ofList source)), ("input", .string (textOfBytes input)), ("optimize", .bool options.optimize),
    ("compress", .bool options.compress), ("tape_size", .integer capacity)]

/-- The request to run a source with some input and options on a tape of some size. -/
def runRequest (source : List Char) (input : List UInt8) (options : Program.Options) (capacity : Nat) : Request :=
  ⟨"POST", "/api/run", Json.write (.object (runFields source input options capacity))⟩

/-- A request that has a source run with some input and options on a tape of some size. -/
def Request.Asks (request : Request) (source : List Char) (input : List UInt8) (options : Program.Options) (capacity : Int) :
    Prop :=
  ∃ window, request.call = .ok (.runOnce ⟨source, input, options, window⟩ capacity)

/-- Lists of bytes that are told alike are the same. -/
theorem bytesJson_injective : Function.Injective bytesJson := by
  intro bytes bytes' h
  have hinj : Function.Injective fun b : UInt8 => Json.integer b.toNat := by
    intro a b hab
    exact UInt8.toNat_inj.mp (Int.ofNat.inj (Json.integer.inj hab))
  exact List.map_injective_iff.mpr hinj (Json.array.inj h)

/-- The reply by the end of a source. -/
def Reply.ofEnd (window : Nat) : Machine × Except RunError Nat → Reply
  | (m, .ok count) => .ran m.output.written.toList count (State.ofMachine window none 1 m)
  | (_, .error (.unmatched loop)) => .uncompilable loop
  | (_, .error (.runtime cause)) => .failed cause

/-- The fields of such a request hold the number of cells. -/
theorem readTapeSize_runFields (source : List Char) (input : List UInt8) (options : Program.Options) {capacity : Nat}
    (hpos : 0 < capacity) (hmax : (capacity : Int) ≤ maxCapacity) :
    readTapeSize (.object (runFields source input options capacity)) = .ok (capacity : Int) := by
  refine mapError_eq_ok_iff.mpr (field_eq_ok_iff.mpr (Or.inr ⟨_, rfl, ?_⟩))
  have hsome : ¬(capacity : Int) < 1 := by omega
  have hfew : ¬maxCapacity < (capacity : Int) := by omega
  simp only [readCapacity, readInteger, if_neg hsome, if_neg hfew]

/-- The fields of such a request hold the program and the number of cells. -/
theorem readRun_runFields (source : List Char) (input : List UInt8) (options : Program.Options) {capacity : Nat}
    (hpos : 0 < capacity) (hmax : (capacity : Int) ≤ maxCapacity) :
    readRun (.object (runFields source input options capacity)) = .ok (⟨source, input, options, defaultWindow⟩, capacity) := by
  have hsource : field (.object (runFields source input options capacity)) "code" "" readText = .ok (String.ofList source) :=
    field_eq_ok_iff.mpr (Or.inr ⟨_, rfl, rfl⟩)
  have hinput : field (.object (runFields source input options capacity)) "input" [] readBytes = .ok input := by
    refine field_eq_ok_iff.mpr (Or.inr ⟨_, rfl, ?_⟩)
    rw [readBytes, bytesOfText?_textOfBytes]
  have hoptimize : field (.object (runFields source input options capacity)) "optimize" true readSwitch = .ok options.optimize :=
    field_eq_ok_iff.mpr (Or.inr ⟨_, rfl, rfl⟩)
  have hcompress : field (.object (runFields source input options capacity)) "compress" true readSwitch = .ok options.compress :=
    field_eq_ok_iff.mpr (Or.inr ⟨_, rfl, rfl⟩)
  have hwindow : field (.object (runFields source input options capacity)) "tape_window" defaultWindow readNatural =
      .ok defaultWindow := field_eq_ok_iff.mpr (Or.inl ⟨rfl, rfl⟩)
  refine readRun_eq_ok_iff.mpr ⟨?_, readTapeSize_runFields source input options hpos hmax⟩
  simp only [readProgram, hsource, hinput, hoptimize, hcompress, hwindow, String.toList_ofList]

/-- The body of the request writes its fields. -/
theorem ofText_runRequest (source : List Char) (input : List UInt8) (options : Program.Options) {capacity : Nat}
    (hpos : 0 < capacity) (hmax : (capacity : Int) ≤ maxCapacity) :
    Json.ofText (runRequest source input options capacity).body = .ok (.object (runFields source input options capacity)) := by
  have hdigits : (Nat.toDigits 10 capacity).length ≤ Json.maxDigits := (length_toDigits_le hmax).trans (by decide)
  have hplain : ∀ item ∈ runFields source input options capacity, Json.Plain item.2 := by
    simp only [runFields, List.forall_mem_cons, List.not_mem_nil, false_implies, implies_true, and_true]
    exact ⟨.string _, .string _, .bool _, .bool _, .integer capacity hpos hdigits⟩
  exact Json.ofText_write_object (List.cons_ne_nil _ _) hplain

theorem runsOnce_runRequest (source : List Char) (input : List UInt8) (options : Program.Options) (capacity : Nat) :
    (runRequest source input options capacity).RunsOnce := by
  have hmethod : Method.ofText "POST" = .post := by decide +kernel
  have hplace : resourceAt (Address.ofText "/api/run".toList).place = .ok .run := by cbv
  exact ⟨hmethod, hplace⟩

/-- The request asks for what it says. -/
theorem asks_runRequest (source : List Char) (input : List UInt8) (options : Program.Options) {capacity : Nat}
    (hpos : 0 < capacity) (hmax : (capacity : Int) ≤ maxCapacity) :
    (runRequest source input options capacity).Asks source input options capacity := by
  have hobject := bodyObject_spec (runRequest source input options capacity).body
  simp only [ofText_runRequest source input options hpos hmax] at hobject
  refine ⟨defaultWindow, ?_⟩
  rw [call_of_runsOnce (runsOnce_runRequest source input options capacity), readBody, hobject.1 trivial, Except.bind,
    readRun_runFields source input options hpos hmax]
  rfl

/-- The reply to a request that has a source run is that by the end of the source, and the store is left alone. -/
theorem handle_eq {request : Request} {source : List Char} {input : List UInt8} {options : Program.Options} {capacity : Int}
    {fresh : Machine} (hasks : request.Asks source input options capacity) (hcreate : Machine.create capacity = .ok fresh) :
    ∃ window, ∀ steps s, handle steps s request =
      ((fresh.feed input).runSource steps options source).map fun ended => (Reply.ofEnd window ended, s) := by
  obtain ⟨window, hcall⟩ := hasks
  refine ⟨window, fun steps s => ?_⟩
  simp only [handle, hcall, answer, runOnce, hcreate, execute, unchanged, Machine.runSource]
  cases Program.compile options source with
  | error loop => rfl
  | ok tokens =>
    simp only [Option.map_map]
    congr 1
    funext ended
    obtain ⟨m, outcome⟩ := ended
    cases outcome with
    | finished => rfl
    | failed cause => rfl

end Service

/-! ## Agreement -/

/-- An end of the command and a reply of the service that tell the same end of a source. -/
structure Agree (exit : Command.Exit) (reply : Service.Reply) : Prop where
  finished : exit.code = 0 ↔ reply.status = 200
  output : exit.code = 0 → reply.body.field? "output_bytes" = some (Service.bytesJson exit.stdout) ∧ exit.stderr = ""
  uncompilable : ∀ message, exit.code = 1 ∧ exit.stderr = "Parse error: " ++ message ++ "\n" ∧ exit.stdout = [] ↔
    reply.status = 422 ∧ ∃ detail, reply.body.field? "detail" = some detail ∧ detail.field? "message" = some (.string message)
  failed : ∀ message, exit.code = 1 ∧ exit.stderr = "Runtime error: " ++ message ++ "\n" ↔
    reply.status = 409 ∧ reply.body.field? "detail" = some (.string message)

/-- Of the messages of the command that begin alike, each has its own text. -/
theorem message_inj {start a b : String} : start ++ a ++ "\n" = start ++ b ++ "\n" ↔ a = b := by
  rw [← String.toList_inj, ← String.toList_inj]
  simp

/-- The command tells a program that cannot be compiled from one that fails. -/
theorem parse_ne_runtime (a b : String) : "Parse error: " ++ a ++ "\n" ≠ "Runtime error: " ++ b ++ "\n" := by
  intro h
  have hlist := congrArg String.toList h
  simp at hlist

/-- What the command and the service make of the same end agrees. -/
theorem agree_ofEnd (window : Nat) (ended : Machine × Except RunError Nat) :
    Agree (Command.Exit.ofEnd ended) (Service.Reply.ofEnd window ended) := by
  obtain ⟨m, (loop | cause) | count⟩ := ended
  · refine ⟨iff_of_false nofun nofun, nofun, fun message => ?_, fun message => iff_of_false ?_ nofun⟩
    · constructor
      · rintro ⟨-, hstderr, -⟩
        exact ⟨rfl, _, rfl, congrArg (some ∘ Json.string) (message_inj.mp hstderr)⟩
      · rintro ⟨-, detail, hdetail, hmessage⟩
        cases hdetail
        cases hmessage
        exact ⟨rfl, rfl, rfl⟩
    · rintro ⟨-, hstderr⟩
      exact parse_ne_runtime _ _ hstderr
  · refine ⟨iff_of_false nofun nofun, nofun, fun message => iff_of_false ?_ nofun, fun message => ?_⟩
    · rintro ⟨-, hstderr, -⟩
      exact parse_ne_runtime _ _ hstderr.symm
    · constructor
      · rintro ⟨-, hstderr⟩
        exact ⟨rfl, congrArg (some ∘ Json.string) (message_inj.mp hstderr)⟩
      · rintro ⟨-, hdetail⟩
        cases hdetail
        exact ⟨rfl, rfl⟩
  · exact ⟨iff_of_true rfl rfl, fun _ => ⟨rfl, rfl⟩, fun message => iff_of_false nofun nofun,
      fun message => iff_of_false nofun nofun⟩

/-- The command and the service agree on every source that stands in a file with a known extension. Whatever arguments and
whatever request have it run with the same options, with the same input and on a tape of the same size: both come to an end
exactly if the source does or cannot be compiled, and what they tell of this end agrees. There are such arguments and there is
such a request. -/
theorem command_agrees {source : String} {files : FileTree} {bytes : List UInt8} {text : List Char} {capacity : Nat}
    (hextension : Command.knownExtension source = true) (hfile : files.find (Path.ofText source) = .file bytes)
    (hdecode : Utf8.decode bytes = .ok text) (hpos : 0 < capacity) (hmax : (capacity : Int) ≤ Service.maxCapacity)
    (stdin : List UInt8) (options : Program.Options) :
    Command.Asks (Command.runWords (toString capacity) source options) source options capacity ∧
      (Service.runRequest (Command.normalizeLines text) stdin options capacity).Asks (Command.normalizeLines text) stdin options
        capacity ∧
      ∃ fresh, Machine.create capacity = .ok fresh ∧
        ∀ arguments request, Command.Asks arguments source options capacity →
          request.Asks (Command.normalizeLines text) stdin options capacity → ∀ s : Store,
          (∀ steps, (Command.run steps arguments files stdin = none ↔
              (fresh.feed stdin).runSource steps options (Command.normalizeLines text) = none) ∧
            (Service.handle steps s request = none ↔
              (fresh.feed stdin).runSource steps options (Command.normalizeLines text) = none)) ∧
          ∀ steps steps' exit reply s', Command.run steps arguments files stdin = some exit →
            Service.handle steps' s request = some (reply, s') → Agree exit reply := by
  have hcreate : Machine.create capacity = .ok ⟨capacity, .blank capacity, {}, {}⟩ :=
    Machine.create_eq_ok_iff.mpr ⟨by omega, rfl⟩
  refine ⟨Command.asks_runWords source options hpos hmax, Service.asks_runRequest _ stdin options hpos hmax, _, hcreate, ?_⟩
  intro arguments request harguments hrequest s
  have hrun := Command.run_eq harguments hextension hfile hdecode hcreate
  obtain ⟨window, hhandle⟩ := Service.handle_eq hrequest hcreate
  refine ⟨fun steps => ⟨by rw [hrun, Option.map_eq_none_iff], by rw [hhandle, Option.map_eq_none_iff]⟩, ?_⟩
  intro steps steps' exit reply s' hexit hreply
  rw [hrun, Option.map_eq_some_iff] at hexit
  rw [hhandle, Option.map_eq_some_iff] at hreply
  obtain ⟨ended, hended, rfl⟩ := hexit
  obtain ⟨ended', hended', heq⟩ := hreply
  cases heq
  -- however many steps show it, the source has one end
  cases Machine.runSource_det hended hended'
  exact agree_ofEnd window ended

/-- A file with the program `,+.` and a line end of two characters. On the input `a` the service answers with the byte of `b`, and
so that is what the command writes. -/
theorem command_agrees_echo :
    let files : FileTree := ⟨[(["a.bf"], [0x2C, 0x2B, 0x2E, 0x0D, 0x0A])], []⟩
    let request : Service.Request := ⟨"POST", "/api/run", "\x7b\"code\":\",+.\\n\",\"input\":\"a\",\"tape_size\":2\x7d"⟩
    ∃ exit reply, Command.run 9 ["--tape-size", "2", "--", "a.bf"] files [0x61] = some exit ∧
      Service.handle 9 {} request = some (reply, {}) ∧ Agree exit reply ∧ exit = ⟨0, [0x62], ""⟩ := by
  intro files request
  have hextension : Command.knownExtension "a.bf" = true := by decide +kernel
  have hfile : files.find (Path.ofText "a.bf") = .file [0x2C, 0x2B, 0x2E, 0x0D, 0x0A] := by cbv
  have hdecode : Utf8.decode [0x2C, 0x2B, 0x2E, 0x0D, 0x0A] = .ok [',', '+', '.', '\r', '\n'] := by decide +kernel
  have hpos : 0 < 2 := by decide
  have hmax : ((2 : Nat) : Int) ≤ Service.maxCapacity := by decide
  have hrequest : request.Asks [',', '+', '.', '\n'] [0x61] ⟨true, true⟩ 2 := ⟨10, by decide +kernel⟩
  have hanswer : Service.handle 9 {} request = some (.ran [0x62] 3 ⟨none, 2, 0, 0, [0x62, 0], 1⟩, {}) := by decide +kernel
  obtain ⟨harguments, -, fresh, -, hagree⟩ := command_agrees hextension hfile hdecode hpos hmax [0x61] ⟨true, true⟩
  have hwords : Command.runWords (toString 2) "a.bf" ⟨true, true⟩ = ["--tape-size", "2", "--", "a.bf"] := by decide +kernel
  rw [hwords] at harguments
  obtain ⟨hends, hagree⟩ := hagree _ request harguments hrequest {}
  have hrun : Command.run 9 ["--tape-size", "2", "--", "a.bf"] files [0x61] ≠ none := by
    rw [ne_eq, (hends 9).1, ← (hends 9).2, hanswer]
    exact Option.some_ne_none _
  obtain ⟨⟨code, stdout, stderr⟩, hexit⟩ := Option.ne_none_iff_exists'.mp hrun
  have h := hagree 9 9 _ _ {} hexit hanswer
  obtain rfl : code = 0 := h.finished.mpr rfl
  obtain ⟨hstdout, rfl : stderr = ""⟩ := h.output rfl
  obtain rfl : [0x62] = stdout := Service.bytesJson_injective (Option.some.inj hstdout)
  exact ⟨_, _, hexit, hanswer, h, rfl⟩

end Brainfuck
