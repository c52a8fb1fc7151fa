import Brainfuck.Text.Digit
import Brainfuck.Text.Quoted

/-!
# Command-line arguments

A general reader of command lines. An interface lists its options and may take one operand. The reader first sorts the words of
the command line (`Interface.sort`): a word is plain, it is the marker `--` after which all words are plain, or it is written as
an option. Then it goes through them from the left and applies each to the settings (`Interface.apply`).

A long option may be cut short as long as one name only begins with what is left, and it takes a value from the next word or
after an equals sign. A value that is attached as `--` counts as none: the option is given, but without a value. Short options
without a value may stand together behind one dash. A word with a dash in front that is not an option is plain if it looks like a
negative number or has a blank in it, and otherwise it is an option that nobody knows.
-/

namespace Brainfuck.Command

/-- What an option does to settings of type `σ`. An option that takes a value may be given without one; applying a value may fail
with the wording of what is wrong with it. -/
inductive Action (σ : Type) where
  | switch (apply : σ → σ)
  | value (apply : Option String → σ → Except String σ)
  | help

/-- An option: the names that it goes by, dashes included, and what it does. -/
structure Choice (σ : Type) where
  names : List String
  action : Action σ

/-- A word that is to be there and is not an option: its name, and what it does to the settings. -/
structure Operand (σ : Type) where
  name : String
  apply : String → σ → σ

/-- The options of a command, in the order of its help, and its operand if it takes one. -/
structure Interface (σ : Type) where
  choices : List (Choice σ)
  operand : Option (Operand σ)

/-- What can be wrong with a command line. Options are given by all their names. -/
inductive ArgumentError where
  | ambiguous (word : String) (candidates : List String)
  | valueMissing (names : List String)
  | valueUnwanted (names : List String) (value : String)
  | badValue (names : List String) (wording : String)
  | operandMissing (name : String)
  | unrecognized (words : List String)
  deriving DecidableEq, Repr

/-- A complaint about one option. -/
def aboutOption (names : List String) (wording : String) : String :=
  "argument " ++ "/".intercalate names ++ ": " ++ wording

/-- The wording of what is wrong with a command line. -/
def ArgumentError.message : ArgumentError → String
  | .ambiguous word candidates => "ambiguous option: " ++ word ++ " could match " ++ ", ".intercalate candidates
  | .valueMissing names => aboutOption names "expected one argument"
  | .valueUnwanted names value => aboutOption names ("ignored explicit argument " ++ quoted value)
  | .badValue names wording => aboutOption names wording
  | .operandMissing name => "the following arguments are required: " ++ name
  | .unrecognized words => "unrecognized arguments: " ++ " ".intercalate words

/-- An option as it is written: which option, under which name, and the value that is attached to it, if any. -/
structure Written (σ : Type) where
  choice : Choice σ
  name : List Char
  attached : Option (List Char)

/-- A word of a command line after sorting. -/
inductive Word (σ : Type) where
  | plain (text : String)
  | marker
  | option (written : Written σ)
  | unknown (text : String)

/-- What a command line comes to: help is asked for, or settings. -/
inductive Parsed (σ : Type) where
  | help
  | settings (s : σ)

/-! ## Sorting the words -/

/-- Digits only, and at least one. -/
def allDigits (text : List Char) : Bool := !text.isEmpty && text.all (fun c => (decimalDigit? c).isSome)

/-- A dash and a number, with or without a point. A line feed at the end does not count. -/
def looksNegative (word : List Char) : Bool :=
  match word with
  | '-' :: rest =>
    let body := if rest.getLast? = some '\n' then rest.dropLast else rest
    allDigits body ||
      ((body.takeWhile (· ≠ '.')).all (fun c => (decimalDigit? c).isSome) &&
        allDigits ((body.dropWhile (· ≠ '.')).drop 1))
  | _ => false

/-- A word cut at its first equals sign, and none if it has none. -/
def splitEquals? (word : List Char) : Option (List Char × List Char) :=
  if word.contains '=' then
    let name := word.takeWhile (· ≠ '=')
    some (name, word.drop (name.length + 1))
  else none

namespace Interface

variable {σ : Type}

/-- All options with each of their names, in order. -/
def names (i : Interface σ) : List (Choice σ × List Char) :=
  i.choices.flatMap (fun c => c.names.map (fun n => (c, n.toList)))

/-- The option of a name that is written out. -/
def named? (i : Interface σ) (name : List Char) : Option (Choice σ) :=
  (i.names.find? (fun n => n.2 == name)).map (·.1)

/-- The options that a word may mean if no name is written out in it: for two dashes those whose names begin with what stands
before the equals sign, and for one dash the one of the first letter, to which the other letters are attached. -/
def candidates (i : Interface σ) (word : List Char) : List (Written σ) :=
  match word with
  | '-' :: '-' :: _ =>
    let (start, attached) := match splitEquals? word with
      | some (start, value) => (start, some value)
      | none => (word, none)
    i.names.filterMap fun (c, name) => if start.isPrefixOf name then some ⟨c, name, attached⟩ else none
  | dash :: letter :: rest =>
    i.names.filterMap fun (c, name) =>
      if name = [dash, letter] then some ⟨c, name, some rest⟩
      else if word.isPrefixOf name then some ⟨c, name, none⟩
      else none
  | _ => []

/-- What a word that is not behind the marker is. -/
def sortWord (i : Interface σ) (text : String) : Except ArgumentError (Word σ) :=
  let word := text.toList
  let other : Except ArgumentError (Word σ) :=
    match i.candidates word with
    | [written] => .ok (.option written)
    | [] => .ok (if looksNegative word || word.contains ' ' then .plain text else .unknown text)
    | several => .error (.ambiguous text (several.map (fun w => String.ofList w.name)))
  if word.head? ≠ some '-' then .ok (.plain text)
  else
    match i.named? word with
    | some c => .ok (.option ⟨c, word, none⟩)
    | none =>
      if word = ['-'] then .ok (.plain text)
      else
        match splitEquals? word with
        | some (name, value) =>
          match i.named? name with
          | some c => .ok (.option ⟨c, name, some value⟩)
          | none => other
        | none => other

/-- The words of a command line, sorted. -/
def sort (i : Interface σ) : List String → Except ArgumentError (List (Word σ))
  | [] => .ok []
  | text :: rest =>
    if text = "--" then .ok (.marker :: rest.map .plain)
    else do
      let word ← i.sortWord text
      let words ← i.sort rest
      return word :: words

/-! ## Applying them -/

/-- The options behind one dash, given the first and what is attached to it: those without a value, and the last one that wants
its value from what is attached or, if nothing is, from the next word. -/
def unbundle (i : Interface σ) (c : Choice σ) : List Char → Except ArgumentError (List (Choice σ × Option (List Char)))
  | [] => .ok [(c, none)]
  | letter :: rest =>
    match c.action with
    | .value _ => .ok [(c, some (letter :: rest))]
    | _ =>
      match i.named? ['-', letter] with
      | some next => (i.unbundle next rest).map ((c, none) :: ·)
      | none => .error (.valueUnwanted c.names (String.ofList (letter :: rest)))

/-- The options that a written option stands for, each with the value attached to it, if any. -/
def expand (i : Interface σ) (w : Written σ) : Except ArgumentError (List (Choice σ × Option (List Char))) :=
  match w.attached, w.choice.action with
  | none, _ => .ok [(w.choice, none)]
  | some value, .value _ => .ok [(w.choice, some value)]
  | some value, _ =>
    if value.isEmpty || w.name.take 2 = ['-', '-'] then
      .error (.valueUnwanted w.choice.names (String.ofList value))
    else i.unbundle w.choice value

/-- The value that a text gives to an option. -/
def valueOf (text : List Char) : Option String := if text = ['-', '-'] then none else some (String.ofList text)

/-- The settings after options that have all they need, from the left, or help as soon as one asks for it. -/
def applyAll : List (Choice σ × Option (List Char)) → σ → Except ArgumentError (Parsed σ)
  | [], s => .ok (.settings s)
  | (c, value) :: rest, s =>
    match c.action, value with
    | .help, _ => .ok .help
    | .switch f, _ => applyAll rest (f s)
    | .value f, some text =>
      match f (valueOf text) s with
      | .ok s => applyAll rest s
      | .error wording => .error (.badValue c.names wording)
    | .value _, none => .error (.valueMissing c.names)

/-- Whether the last of some options wants its value from the next word. -/
def wantsWord (options : List (Choice σ × Option (List Char))) : Bool :=
  match options.getLast? with
  | some (c, none) => match c.action with
    | .value _ => true
    | _ => false
  | _ => false

/-- The options with a value given to the last one. -/
def giveLast (options : List (Choice σ × Option (List Char))) (value : String) :
    List (Choice σ × Option (List Char)) :=
  match options.getLast? with
  | some (c, _) => options.dropLast ++ [(c, some value.toList)]
  | none => []

/-- The settings after the words, given the operand if it is still to come, and the words that nothing could be done with so
far. -/
def apply (i : Interface σ) (operand : Option (Operand σ)) (extra : List String) (s : σ) :
    List (Word σ) → Except ArgumentError (Parsed σ)
  | [] =>
    match operand with
    | some o => .error (.operandMissing o.name)
    | none => if extra.isEmpty then .ok (.settings s) else .error (.unrecognized extra)
  | .plain text :: rest =>
    match operand with
    | some o =>
      match rest with
      | .marker :: rest => i.apply none extra (o.apply text s) rest
      | rest => i.apply none extra (o.apply text s) rest
    | none => i.apply none (extra ++ [text]) s rest
  | .marker :: rest =>
    match operand, rest with
    | some o, .plain text :: rest => i.apply none extra (o.apply text s) rest
    | operand, rest => i.apply operand (extra ++ ["--"]) s rest
  | .unknown text :: rest => i.apply operand (extra ++ [text]) s rest
  | .option written :: rest =>
    match i.expand written with
    | .error e => .error e
    | .ok options =>
      if wantsWord options then
        match rest with
        | .plain text :: rest =>
          match applyAll (giveLast options text) s with
          | .ok (.settings s) => i.apply operand extra s rest
          | stopped => stopped
        | _ => .error (.valueMissing ((options.getLast?.map (·.1.names)).getD []))
      else
        match applyAll options s with
        | .ok (.settings s) => i.apply operand extra s rest
        | stopped => stopped

/-- What a command line comes to, from the settings that hold if it is empty. -/
def parse (i : Interface σ) (initial : σ) (arguments : List String) : Except ArgumentError (Parsed σ) :=
  match i.sort arguments with
  | .error e => .error e
  | .ok words => i.apply i.operand [] initial words

end Interface

/-! ## Ends of a command -/

/-- The end of a command: its exit code, the bytes on its output, and the text on its error output. -/
structure Exit where
  code : Nat
  stdout : List UInt8 := []
  stderr : String := ""
  deriving DecidableEq, Repr

/-- The end of a command that was asked for help. -/
def Exit.help (text : String) : Exit := { code := 0, stdout := text.toUTF8.toList }

/-- The end of a command whose arguments are wrong. -/
def Exit.usage (usage : String) (e : ArgumentError) : Exit :=
  { code := 2, stderr := usage ++ "tapebf: error: " ++ e.message ++ "\n" }

end Brainfuck.Command
