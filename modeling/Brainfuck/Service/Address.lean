import Brainfuck.Text.Cut
import Brainfuck.Text.Percent

/-!
# Addresses

Where a request goes. An address is written as a scheme, a host, a path, a query and a fragment, in this order, and most of them
may be missing; as a rule a request names a path, or a path and a query. The fragment is not part of what is asked for.

The path of an address is walked from the root, whether it begins with a slash or not, and its parts of one or two dots are steps
of that walk and not names (`Address.walk`). They are such steps only where they are written as dots. After that the path is
percent-decoded, and what that gives is percent-decoded once more (`Address.place`).
-/

namespace Brainfuck.Service

/-- The parts of an address that count. What is missing is empty. -/
structure Address where
  scheme : List Char
  host : List Char
  path : List Char
  query : List Char
  deriving DecidableEq, Repr

/-- What stands in front of the first occurrence of a character, and what stands behind it. -/
def splitAtFirst (c : Char) (text : List Char) : List Char × List Char :=
  (text.takeWhile (· ≠ c), (text.dropWhile (· ≠ c)).drop 1)

/-- A character that a scheme may have behind its first one. -/
def isSchemeChar (c : Char) : Bool := c.isAlphanum || c == '+' || c == '.' || c == '-'

/-- A scheme in front of a text with the colon that ends it, and the rest. -/
def splitScheme (text : List Char) : List Char × List Char :=
  let scheme := text.takeWhile (· ≠ ':')
  if text.contains ':' && scheme.all isSchemeChar && scheme.head?.all Char.isAlpha then
    (scheme, text.drop (scheme.length + 1))
  else ([], text)

/-- A host in front of a text with the two slashes that begin it, and the rest. -/
def splitHost : List Char → List Char × List Char
  | '/' :: '/' :: rest => (rest.takeWhile (· ≠ '/'), rest.dropWhile (· ≠ '/'))
  | text => ([], text)

namespace Address

/-- The address that a text writes. -/
def ofText (text : List Char) : Address :=
  let (front, query) := splitAtFirst '?' (splitAtFirst '#' text).1
  let (scheme, rest) := splitScheme front
  let (host, path) := splitHost rest
  ⟨scheme, host, path, query⟩

/-- The path from the root. The path of an address with a scheme and a host is one; the slashes in front of any other count as
one slash, which may be missing. -/
def rooted (a : Address) : List Char :=
  if a.scheme ≠ [] && a.host ≠ [] then a.path else '/' :: a.path.dropWhile (· = '/')

/-- One step along a path, from the parts that it has come by, the last one first. Two dots step back, but not beyond the
root. -/
def step (done : List (List Char)) (part : List Char) : List (List Char) :=
  if part = ['.'] then done
  else if part = ['.', '.'] then (if done = [[]] then done else done.drop 1)
  else part :: done

/-- The path without the parts that are dots. -/
def walk (a : Address) : List Char :=
  ['/'].intercalate ((cut '/' a.rooted).foldl step []).reverse

/-- The path as it is meant: walked, and percent-decoded twice. -/
def place (a : Address) : List Char := Percent.decode (Percent.decode a.walk)

end Address

end Brainfuck.Service
