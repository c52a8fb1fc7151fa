import Mathlib
import Brainfuck.Service.Request

/-!
# Bodies

What a body that brings a program may hold, said field by field and not by the readers of the fields (`Accepts`). A body is read
exactly if it is an object each of whose fields holds what it may hold. Otherwise it is refused, in one of three ways: it cannot
be read at all, its faults are reported, or they cannot be reported because one of the values at fault cannot be quoted
(`bodyEnd_readBody`).
-/

namespace Brainfuck

namespace Json

/-- A value is an object. -/
def IsObject : Json → Prop
  | .object _ | .raggedObject _ => True
  | _ => False

/-- An empty text writes no value. -/
theorem ofText_empty : ofText "" = .error .malformed := by cbv

end Json

/-- A text stands for bytes if it has no character above U+00FF. -/
theorem exists_bytesOfText?_iff {text : String} :
    (∃ bytes, bytesOfText? text = some bytes) ↔ ∀ c ∈ text.toList, c.toNat ≤ 0xFF := by
  unfold bytesOfText?
  generalize text.toList = chars
  induction chars with
  | nil => simp
  | cons c chars ih =>
    rw [List.forall_mem_cons, ← ih, List.mapM_cons, byteOfChar?]
    by_cases hc : c.toNat < 256
    · have hle : c.toNat ≤ 0xFF := by omega
      cases chars.mapM byteOfChar? <;> simp [hc, hle]
    · have hnot : ¬c.toNat ≤ 0xFF := by omega
      simp [hc, hnot]

namespace Service

/-- A field of a program body may hold a value: the code any text, the input a text without characters above U+00FF, the two
switches what can be read as a switch, and the window what can be read as an integer that is not negative. Fields of other names
do not matter. -/
structure Accepts (name : String) (value : Json) : Prop where
  code : name = "code" → ∃ text, value = .string text ∨ value = .ragged text
  input : name = "input" → ∃ text, value = .string text ∧ ∀ c ∈ text.toList, c.toNat ≤ 0xFF
  switch : name = "optimize" ∨ name = "compress" → ∃ b, readSwitch value = .ok b
  window : name = "tape_window" → ∃ n, readInteger value = .ok n ∧ 0 ≤ n

/-- The fields of an object hold what they may hold. -/
def ValidProgram (object : Json) : Prop := ∀ name value, object.field? name = some value → Accepts name value

/-- A body is an object with the fields of a program. -/
def ValidBody (body : String) : Prop := ∃ object, Json.ofText body = .ok object ∧ object.IsObject ∧ ValidProgram object

/-- A value of a body is at fault: it is the whole body and no object, or it is in a field that may not hold it. -/
inductive Fault (body : String) : Json → Prop
  | whole {value : Json} (hread : Json.ofText body = .ok value) (hnot : ¬value.IsObject) : Fault body value
  | inField {object value : Json} {name : String} (hread : Json.ofText body = .ok object) (hobject : object.IsObject)
      (hfield : object.field? name = some value) (hnot : ¬Accepts name value) : Fault body value

/-! ## Results -/

section Results

variable {ε ε' α β : Type} {result : Except ε α} {a : α} {b : β} {e : ε} {e' : ε'}

theorem map_eq_ok_iff {f : α → β} : result.map f = .ok b ↔ ∃ a, result = .ok a ∧ f a = b := by
  cases result <;> simp [Except.map]

theorem mapError_eq_ok_iff {f : ε → ε'} : result.mapError f = .ok a ↔ result = .ok a := by
  cases result <;> simp [Except.mapError]

end Results

/-! ## Readers -/

/-- The complaint of a reader, if it has one. -/
def complaint? {α : Type} : Except Complaint α → Option Complaint
  | .ok _ => none
  | .error c => some c

/-- The complaint about the value of a field of a program, by the name of the field. -/
def refusal? (name : String) (value : Json) : Option Complaint :=
  match name with
  | "code" => complaint? (readText value)
  | "input" => complaint? (readBytes value)
  | "optimize" | "compress" => complaint? (readSwitch value)
  | "tape_window" => complaint? (readNatural value)
  | _ => none

section Readers

variable {α : Type} {name : String} {value : Json}

theorem complaint?_eq_none_iff {result : Except Complaint α} : complaint? result = none ↔ ∃ a, result = .ok a := by
  cases result <;> simp [complaint?]

theorem exists_readText_iff : (∃ text, readText value = .ok text) ↔ ∃ text, value = .string text ∨ value = .ragged text := by
  cases value <;> simp [readText]

theorem exists_readBytes_iff :
    (∃ bytes, readBytes value = .ok bytes) ↔ ∃ text, value = .string text ∧ ∀ c ∈ text.toList, c.toNat ≤ 0xFF := by
  cases value with
  | string text =>
    simp only [readBytes, Json.string.injEq, exists_eq_left', ← exists_bytesOfText?_iff]
    cases bytesOfText? text <;> simp
  | _ => simp [readBytes]

theorem exists_readNatural_iff : (∃ n, readNatural value = .ok n) ↔ ∃ n, readInteger value = .ok n ∧ 0 ≤ n := by
  unfold readNatural
  cases readInteger value with
  | error e => simp
  | ok n =>
    by_cases hn : n < 0
    · have hnot : ¬0 ≤ n := by omega
      simp [hn, hnot]
    · have hle : 0 ≤ n := by omega
      simp [hn, hle]

/-- A field may hold a value if its reader does not complain about it. -/
theorem accepts_iff : Accepts name value ↔ refusal? name value = none := by
  unfold refusal?
  split
  · rw [complaint?_eq_none_iff, exists_readText_iff]
    exact ⟨fun h => h.code rfl, fun h => ⟨fun _ => h, by simp, by simp, by simp⟩⟩
  · rw [complaint?_eq_none_iff, exists_readBytes_iff]
    exact ⟨fun h => h.input rfl, fun h => ⟨by simp, fun _ => h, by simp, by simp⟩⟩
  · rw [complaint?_eq_none_iff]
    exact ⟨fun h => h.switch (Or.inl rfl), fun h => ⟨by simp, by simp, fun _ => h, by simp⟩⟩
  · rw [complaint?_eq_none_iff]
    exact ⟨fun h => h.switch (Or.inr rfl), fun h => ⟨by simp, by simp, fun _ => h, by simp⟩⟩
  · rw [complaint?_eq_none_iff, exists_readNatural_iff]
    exact ⟨fun h => h.window rfl, fun h => ⟨by simp, by simp, by simp, fun _ => h⟩⟩
  · rename_i hcode hinput hoptimize hcompress hwindow
    refine iff_of_true ⟨?_, ?_, ?_, ?_⟩ rfl
    · exact fun h => absurd h hcode
    · exact fun h => absurd h hinput
    · rintro (h | h)
      · exact absurd h hoptimize
      · exact absurd h hcompress
    · exact fun h => absurd h hwindow

end Readers

/-! ## Objects -/

/-- The names of the fields of a program, in the order in which they are reported. -/
def programFields : List String := ["code", "input", "optimize", "compress", "tape_window"]

/-- The problem of a field of an object, if it has one. -/
def problemIn? (object : Json) (name : String) : Option Problem :=
  (object.field? name).bind fun value => (refusal? name value).map fun c => ⟨["body", name], c, value.quotable⟩

section Objects

variable {object : Json} {program : ProgramBody} {ps : List Problem}

/-- The value of a field: that of its reader, or the one for a field that is not there. -/
theorem field_eq_ok_iff {α : Type} {name : String} {absent a : α} {reader : Reader α} :
    field object name absent reader = .ok a ↔
      (object.field? name = none ∧ a = absent) ∨ ∃ value, object.field? name = some value ∧ reader value = .ok a := by
  unfold field
  cases object.field? name with
  | none => simp [eq_comm]
  | some value => simp [mapError_eq_ok_iff]

theorem problem?_field {α : Type} {name : String} {absent : α} {reader : Reader α}
    (hreader : ∀ value, complaint? (reader value) = refusal? name value) :
    problem? (field object name absent reader) = problemIn? object name := by
  unfold field problemIn?
  cases object.field? name with
  | none => rfl
  | some value =>
    rw [Option.bind_some, ← hreader]
    dsimp only
    cases reader value <;> rfl

/-- A program is read from an object if none of its fields has a problem. Otherwise the problems are those of the fields. -/
theorem readProgram_spec (object : Json) :
    match readProgram object with
    | .ok _ => programFields.filterMap (problemIn? object) = []
    | .error ps => ps ≠ [] ∧ ps = programFields.filterMap (problemIn? object) := by
  have hlist : programFields.filterMap (problemIn? object) =
      [problem? (field object "code" "" readText), problem? (field object "input" [] readBytes),
        problem? (field object "optimize" true readSwitch), problem? (field object "compress" true readSwitch),
        problem? (field object "tape_window" defaultWindow readNatural)].filterMap id := by
    rw [problem?_field fun _ => rfl, problem?_field fun _ => rfl, problem?_field fun _ => rfl, problem?_field fun _ => rfl,
      problem?_field fun _ => rfl]
    rfl
  rw [hlist, readProgram]
  rcases field object "code" "" readText with p | source
  · simp [problem?]
  rcases field object "input" [] readBytes with p | input
  · simp [problem?]
  rcases field object "optimize" true readSwitch with p | optimize
  · simp [problem?]
  rcases field object "compress" true readSwitch with p | compress
  · simp [problem?]
  rcases field object "tape_window" defaultWindow readNatural with p | window
  · simp [problem?]
  · rfl

/-- The problems of an object are about the values that its fields may not hold. -/
theorem mem_problems_iff {p : Problem} :
    p ∈ programFields.filterMap (problemIn? object) ↔
      ∃ name value c, object.field? name = some value ∧ refusal? name value = some c ∧
        p = ⟨["body", name], c, value.quotable⟩ := by
  have hname : ∀ name value c, refusal? name value = some c → name ∈ programFields := by
    intro name value c h
    unfold refusal? at h
    split at h
    case h_6 => cases h
    all_goals simp [programFields]
  simp only [List.mem_filterMap, problemIn?, Option.bind_eq_some_iff, Option.map_eq_some_iff]
  constructor
  · rintro ⟨name, -, value, hfield, c, hc, rfl⟩
    exact ⟨name, value, c, hfield, hc, rfl⟩
  · rintro ⟨name, value, c, hfield, hc, rfl⟩
    exact ⟨name, hname name value c hc, value, hfield, c, hc, rfl⟩

/-- An object is a program if and only if no field has a problem. -/
theorem validProgram_iff : ValidProgram object ↔ programFields.filterMap (problemIn? object) = [] := by
  rw [List.eq_nil_iff_forall_not_mem]
  constructor
  · intro h p hp
    obtain ⟨name, value, c, hfield, hc, -⟩ := mem_problems_iff.mp hp
    rw [accepts_iff.mp (h name value hfield)] at hc
    cases hc
  · intro h name value hfield
    rw [accepts_iff, Option.eq_none_iff_forall_ne_some]
    intro c hc
    exact h _ (mem_problems_iff.mpr ⟨name, value, c, hfield, hc, rfl⟩)

/-- All problems of an object can be reported if every value that a field may not hold can be quoted. -/
theorem all_quotable_iff :
    (programFields.filterMap (problemIn? object)).all (·.quotable) = true ↔
      ∀ name value, object.field? name = some value → ¬Accepts name value → value.quotable = true := by
  rw [List.all_eq_true]
  constructor
  · intro h name value hfield hnot
    rw [accepts_iff] at hnot
    obtain ⟨c, hc⟩ := Option.ne_none_iff_exists'.mp hnot
    exact h _ (mem_problems_iff.mpr ⟨name, value, c, hfield, hc, rfl⟩)
  · intro h p hp
    obtain ⟨name, value, c, hfield, hc, rfl⟩ := mem_problems_iff.mp hp
    refine h name value hfield ?_
    rw [accepts_iff, hc]
    nofun

end Objects

/-! ## Bodies -/

section Bodies

variable {body : String}

/-- What is made of a body, by what its text writes. -/
theorem bodyObject_spec (body : String) :
    match Json.ofText body with
    | .ok value => (value.IsObject → bodyObject body = .ok value) ∧
        (¬value.IsObject → bodyObject body = .error (.ofProblems [⟨["body"], .notAnObject, value.quotable⟩]))
    | .error .refused => bodyObject body = .error .unreadableBody
    | .error .malformed => ∃ p, p.quotable = true ∧ bodyObject body = .error (.ofProblems [p]) := by
  unfold bodyObject
  by_cases hempty : body.isEmpty = true
  · obtain rfl : body = "" := String.isEmpty_iff.mp hempty
    rw [Json.ofText_empty]
    exact ⟨_, rfl, rfl⟩
  · rw [if_neg hempty]
    rcases Json.ofText body with (_ | _) | value
    · exact ⟨_, rfl, rfl⟩
    · rfl
    · cases value <;> simp [Json.IsObject]

/-- A valid body is not refused while it is read, and nothing in it is at fault. -/
theorem ValidBody.not_fault (h : ValidBody body) : Json.ofText body ≠ .error .refused ∧ ∀ value, ¬Fault body value := by
  obtain ⟨object, hread, hobject, hvalid⟩ := h
  refine ⟨by simp [hread], ?_⟩
  rintro value (⟨hread', hnot⟩ | ⟨hread', -, hfield, hnot⟩)
  · cases hread.symm.trans hread'
    exact hnot hobject
  · cases hread.symm.trans hread'
    exact hnot (hvalid _ _ hfield)

/-- A body with a value at fault is not refused while it is read. -/
theorem Fault.readable {value : Json} (h : Fault body value) : Json.ofText body ≠ .error .refused := by
  cases h with
  | whole hread | inField hread => simp [hread]

theorem fault_iff_of_isObject {object value : Json} (hread : Json.ofText body = .ok object) (hobject : object.IsObject) :
    Fault body value ↔ ∃ name, object.field? name = some value ∧ ¬Accepts name value := by
  constructor
  · rintro (⟨hread', hnot⟩ | ⟨hread', -, hfield, hnot⟩)
    · cases hread.symm.trans hread'
      exact absurd hobject hnot
    · cases hread.symm.trans hread'
      exact ⟨_, hfield, hnot⟩
  · rintro ⟨name, hfield, hnot⟩
    exact .inField hread hobject hfield hnot

theorem fault_iff_of_not_isObject {whole value : Json} (hread : Json.ofText body = .ok whole) (hnot : ¬whole.IsObject) :
    Fault body value ↔ value = whole := by
  constructor
  · rintro (⟨hread', -⟩ | ⟨hread', hobject, -, -⟩)
    · cases hread.symm.trans hread'
      rfl
    · cases hread.symm.trans hread'
      exact absurd hobject hnot
  · rintro rfl
    exact .whole hread hnot

/-- What a body with a program comes to: it is read, it is refused while it is read, it is reported, or it cannot be reported. -/
inductive BodyEnd (body : String) : Except Reply ProgramBody → Prop
  | read {program : ProgramBody} (hvalid : ValidBody body) : BodyEnd body (.ok program)
  | unreadable (hrefused : Json.ofText body = .error .refused) : BodyEnd body (.error .unreadableBody)
  | reported {ps : List Problem} (hreadable : Json.ofText body ≠ .error .refused) (hnot : ¬ValidBody body)
      (hall : ∀ value, Fault body value → value.quotable = true) : BodyEnd body (.error (.invalid ps))
  | unreportable {value : Json} (hfault : Fault body value) (hunquotable : value.quotable = false) :
      BodyEnd body (.error .internalError)

/-- Problems are reported unless one of them is about a value that cannot be quoted. -/
theorem bodyEnd_ofProblems {ps : List Problem} (hreadable : Json.ofText body ≠ .error .refused) (hnot : ¬ValidBody body)
    (hquotable : ps.all (·.quotable) = true ↔ ∀ value, Fault body value → value.quotable = true) :
    BodyEnd body (.error (.ofProblems ps)) := by
  unfold Reply.ofProblems
  split
  · rename_i hall
    exact .reported hreadable hnot (hquotable.mp hall)
  · rename_i hall
    rw [hquotable] at hall
    obtain ⟨value, h⟩ := Classical.not_forall.mp hall
    obtain ⟨hfault, hunquotable⟩ := Classical.not_imp.mp h
    exact .unreportable hfault (Bool.eq_false_of_not_eq_true hunquotable)

/-- A body that is an object is read if its fields are, and otherwise their problems are reported. -/
theorem bodyEnd_of_isObject {object : Json} (hread : Json.ofText body = .ok object) (hobject : object.IsObject) :
    BodyEnd body ((readProgram object).mapError .ofProblems) := by
  have hspec := readProgram_spec object
  have hvalid : ValidBody body ↔ ValidProgram object := by
    constructor
    · rintro ⟨object', hread', -, h⟩
      cases hread.symm.trans hread'
      exact h
    · intro h
      exact ⟨object, hread, hobject, h⟩
  rw [validProgram_iff] at hvalid
  cases hprogram : readProgram object with
  | ok program =>
    rw [hprogram] at hspec
    exact .read (hvalid.mpr hspec)
  | error ps =>
    rw [hprogram] at hspec
    obtain ⟨hne, rfl⟩ := hspec
    refine bodyEnd_ofProblems (by simp [hread]) (fun h => hne (hvalid.mp h)) ?_
    simp only [all_quotable_iff, fault_iff_of_isObject hread hobject]
    constructor
    · rintro h value ⟨name, hfield, hnot⟩
      exact h name value hfield hnot
    · intro h name value hfield hnot
      exact h value ⟨name, hfield, hnot⟩

/-- A body that is another value is at fault as a whole. -/
theorem bodyEnd_of_not_isObject {value : Json} (hread : Json.ofText body = .ok value) (hnot : ¬value.IsObject) :
    BodyEnd body (.error (.ofProblems [⟨["body"], .notAnObject, value.quotable⟩])) := by
  refine bodyEnd_ofProblems (by simp [hread]) ?_ ?_
  · rintro ⟨object, hread', hobject, -⟩
    cases hread.symm.trans hread'
    exact hnot hobject
  · simp only [fault_iff_of_not_isObject hread hnot, forall_eq]
    simp

/-- A body that is not JSON has nothing in it that could not be quoted. -/
theorem bodyEnd_of_malformed {p : Problem} (hread : Json.ofText body = .error .malformed) (hquotable : p.quotable = true) :
    BodyEnd body (.error (.ofProblems [p])) := by
  refine bodyEnd_ofProblems (by simp [hread]) ?_ (iff_of_true (by simp [hquotable]) ?_)
  · rintro ⟨object, hread', -⟩
    cases hread.symm.trans hread'
  · rintro value (⟨hread', -⟩ | ⟨hread', -, -, -⟩) <;> cases hread.symm.trans hread'

theorem bodyEnd_readBody (body : String) : BodyEnd body (readBody body readProgram) := by
  have hspec := bodyObject_spec body
  unfold readBody
  rcases hread : Json.ofText body with (_ | _) | value
  · simp only [hread] at hspec
    obtain ⟨p, hquotable, hbody⟩ := hspec
    rw [hbody]
    exact bodyEnd_of_malformed hread hquotable
  · simp only [hread] at hspec
    rw [hspec]
    exact .unreadable hread
  · simp only [hread] at hspec
    by_cases hobject : value.IsObject
    · rw [hspec.1 hobject]
      exact bodyEnd_of_isObject hread hobject
    · rw [hspec.2 hobject]
      exact bodyEnd_of_not_isObject hread hobject

end Bodies

end Service

end Brainfuck
