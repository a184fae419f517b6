import DeployManifest.Digest.Sha256
import DeployManifest.Text.Search

/-!
# Names of secrets

The value of a variable is kept in a secret.  Names of secrets consist of lower case letters, digits,
dashes and dots, start and end with a letter or digit, and have at most `maxLength` characters.
`ofVariable` makes such a name from any variable name.  A name that has to be shortened ends in the
first digits of a digest, so that it stays distinct.

- `clean`: what becomes of one character.
- `trim`: a text without the characters that a name must not start or end with.
- `ofText`: a name from any text, shortened if need be.
- `ofVariable`: the name for a variable, which starts like all of them.
-/

namespace DeployManifest.SecretName

/-- What the names of all secrets of variables start with. -/
def start : List Char := ['v', 'a', 'r', '-']

/-- The most characters a name can have. -/
def maxLength : Nat := 253

/-- How many digits of a digest a shortened name ends in. -/
def digestLength : Nat := 8

/-- The characters that a name may start and end with. -/
def isLetterOrDigit (c : Char) : Bool := ('a' ≤ c && c ≤ 'z') || ('0' ≤ c && c ≤ '9')

/-- The character that stands for `c` in a name; all that are not allowed become dashes. -/
def clean (c : Char) : Char :=
  let c := c.toLower
  if isLetterOrDigit c || c = '-' || c = '.' then c else '-'

/-- A text without characters at its end that are no letters or digits. -/
def trimEnd (name : List Char) : List Char :=
  Text.dropEndWhile (fun c => !isLetterOrDigit c) name

/-- A text without characters at its ends that are no letters or digits. -/
def trim (name : List Char) : List Char := trimEnd (name.dropWhile fun c => !isLetterOrDigit c)

/-- A name that is allowed. -/
def ofText (text : List Char) : List Char :=
  let name := trim (text.map clean)
  if name.length ≤ maxLength then name
  else
    trimEnd (name.take (maxLength - digestLength - 1)) ++
      '-' :: (Digest.ofText (String.ofList text)).toList.take digestLength

/-- The name of the secret that holds the value of a variable. -/
def ofVariable (name : String) : String :=
  let name := name.toList
  String.ofList (ofText (start ++ (Text.stripStart? start name).getD name))

end DeployManifest.SecretName
