/-!
# Finding and replacing

Texts are searched from the left, and matches do not overlap: the search goes on behind the last
match, and what was put in for a match is not searched again.

- `splitAt sep s`: the parts of `s` between the separators, at least one.
- `replaceAll pattern replacement s`: `s` with every match replaced.
- `splitOnce? sep s`: what stands before and after the first separator.
- `dropEndWhile`: the text without the characters at its end that satisfy a condition.
- `stripStart? start s`: what stands behind `start`, if the text starts with it.
-/

namespace DeployManifest.Text

/-- The parts of `s` between the characters `sep`. -/
def splitAt (sep : Char) : List Char → List (List Char)
  | [] => [[]]
  | c :: rest =>
    if c = sep then [] :: splitAt sep rest
    else match splitAt sep rest with
      | [] => [[c]]
      | part :: parts => (c :: part) :: parts

/-- What stands before and after the first `sep`. -/
def splitOnce? (sep : Char) : List Char → Option (List Char × List Char)
  | [] => none
  | c :: rest =>
    if c = sep then some ([], rest)
    else (splitOnce? sep rest).map fun (before, after) => (c :: before, after)

/-- `replaceAll` within a match: `skip` characters of it are still to come. -/
def replaceFrom (pattern replacement : List Char) : Nat → List Char → List Char
  | _, [] => []
  | skip + 1, _ :: rest => replaceFrom pattern replacement skip rest
  | 0, c :: rest =>
    if pattern.isPrefixOf (c :: rest) then
      replacement ++ replaceFrom pattern replacement (pattern.length - 1) rest
    else c :: replaceFrom pattern replacement 0 rest

/-- `s` with every match of the non-empty `pattern` replaced. -/
def replaceAll (pattern replacement : List Char) (s : List Char) : List Char :=
  replaceFrom pattern replacement 0 s

/-- `s` without the characters at its end that satisfy `p`. -/
def dropEndWhile (p : Char → Bool) (s : List Char) : List Char :=
  (s.reverse.dropWhile p).reverse

/-- `s` without `start`, if it starts with it. -/
def stripStart? (start s : List Char) : Option (List Char) :=
  if start.isPrefixOf s then some (s.drop start.length) else none

end DeployManifest.Text
