import Brainfuck.Source
import Brainfuck.Token

/-!
# Programs

From a source to a list of tokens: one token for each character (`tokenize`), runs of arithmetic and of moves merged if asked
for (`compress`), and each loop token pointed at its partner (`resolve`). Only the last step can fail, where a loop token has no
partner.
-/

namespace Brainfuck

/-- A loop token without a partner, by its index: an end that no start is open for, or the innermost start left open. -/
structure UnmatchedLoop where
  index : Nat
  deriving DecidableEq, Repr

namespace Program

/-- One token for each character. -/
def tokenize (source : List Char) : List Token := source.map Token.ofChar

/-! ## Merging runs -/

/-- The token that adds a number to the cell, and no token for zero. -/
def arithmetic (delta : Int) : List Token :=
  if 0 < delta then [.increment (.nat delta.toNat)]
  else if delta < 0 then [.decrement (.nat (-delta).toNat)]
  else []

/-- The token that moves by a number of cells to the right, and no token for zero. -/
def move (shift : Int) : List Token :=
  if 0 < shift then [.moveRight (.nat shift.toNat)]
  else if shift < 0 then [.moveLeft (.nat (-shift).toNat)]
  else []

/-- The merged tokens of a list that follows on a run which so far adds `delta` and moves by `shift`. A token of arithmetic ends
a run of moves and the other way round; any other token ends both and stands as it is. -/
def compressFrom (delta shift : Int) : List Token → List Token
  | [] => arithmetic delta ++ move shift
  | t :: rest =>
    match t.delta?, t.shift? with
    | some d, _ => move shift ++ compressFrom (delta + d) 0 rest
    | none, some s => arithmetic delta ++ compressFrom 0 (shift + s) rest
    | none, none => arithmetic delta ++ move shift ++ t :: compressFrom 0 0 rest

/-- The list with each run of arithmetic tokens and each run of move tokens merged into one token of the sum. -/
def compress (tokens : List Token) : List Token := compressFrom 0 0 tokens

/-! ## Pairing loop tokens -/

/-- The tokens `done` followed by the rest with its loop tokens paired. `starts` holds the indices of the starts in `done` that
are open, the innermost first. -/
def resolveFrom (starts : List Nat) (done : Array Token) : List Token → Except UnmatchedLoop (Array Token)
  | [] =>
    match starts with
    | [] => .ok done
    | innermost :: _ => .error ⟨innermost⟩
  | .loopStart target :: rest => resolveFrom (done.size :: starts) (done.push (.loopStart target)) rest
  | .loopEnd target :: rest =>
    let here := done.size
    match starts with
    | [] => .error ⟨here⟩
    | start :: outer =>
      resolveFrom outer ((done.modify start (Token.aim here)).push (Token.aim start (.loopEnd target))) rest
  | t :: rest => resolveFrom starts (done.push t) rest

/-- The tokens with each loop token pointed at its partner, or the loop token to blame. Targets that are there already do not
matter. -/
def resolve (tokens : List Token) : Except UnmatchedLoop (List Token) :=
  (resolveFrom [] #[] tokens).map Array.toList

/-! ## Compiling -/

/-- The tokens of a source, one for each character, paired. -/
def parse (source : List Char) : Except UnmatchedLoop (List Token) := resolve (tokenize source)

/-- The tokens of a source, merged and paired. -/
def parseCompressed (source : List Char) : Except UnmatchedLoop (List Token) := resolve (compress (tokenize source))

/-- How a source is compiled: whether the text is optimized first, and whether runs are merged. -/
structure Options where
  optimize : Bool := true
  compress : Bool := true
  deriving DecidableEq, Repr

/-- The program of a source. -/
def compile (options : Options) (source : List Char) : Except UnmatchedLoop (List Token) :=
  let source := if options.optimize then Source.optimize source else source
  if options.compress then parseCompressed source else parse source

/-! ## Writing a program as a source -/

/-- The source of a token: its command as often as the count says, or the text that a no-op stands for. -/
def sourceOf : Token → List Char
  | .increment n => List.replicate n.toNat '+'
  | .decrement n => List.replicate n.toNat '-'
  | .moveLeft n => List.replicate n.toNat '<'
  | .moveRight n => List.replicate n.toNat '>'
  | .loopStart _ => ['[']
  | .loopEnd _ => [']']
  | .output _ => ['.']
  | .input _ => [',']
  | .noOp (.string text) => text.toList
  | .noOp _ => []

/-- The source of a program. -/
def toSource (tokens : List Token) : List Char := tokens.flatMap sourceOf

end Program

end Brainfuck
