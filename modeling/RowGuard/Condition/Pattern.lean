import RowGuard.Text.Folding

/-! # LIKE patterns

In a pattern `%` stands for any text without a line feed, `_` for any one character but a line feed,
and every other character for itself.  `Covers` says which texts a pattern covers, by cutting the
text into one piece per character of the pattern; `covers` decides it, one row of suffixes at a
time.
-/
namespace RowGuard.Pattern

/-- Whether a wildcard may stand for a character. -/
def isFree (c : Char) : Bool := c != '\n'

/-- Whether a piece of text may stand for a character of a pattern; `alike` compares characters. -/
def PieceOf (alike : Char → Char → Bool) (p : Char) (piece : List Char) : Prop :=
  if p = '%' then ∀ c ∈ piece, isFree c = true
  else if p = '_' then ∃ c, piece = [c] ∧ isFree c = true
  else ∃ c, piece = [c] ∧ alike p c = true

/-- A text covered by a pattern: it is cut into pieces, one for each character of the pattern. -/
inductive Covers (alike : Char → Char → Bool) : List Char → List Char → Prop
  | nil : Covers alike [] []
  | cons {p : Char} {ps piece rest : List Char} :
      PieceOf alike p piece → Covers alike ps rest → Covers alike (p :: ps) (piece ++ rest)

/-- For each suffix of a text, the longest first, whether it is empty. -/
def endRow : List Char → List Bool
  | [] => [true]
  | _ :: t => false :: endRow t

/-- From the suffixes that the rest of a pattern covers, those that it covers after one character
that passes a test. -/
def stepRow (test : Char → Bool) : List Char → List Bool → List Bool
  | c :: t, _ :: bs => (test c && bs.headD false) :: stepRow test t bs
  | _, _ => [false]

/-- From the suffixes that the rest of a pattern covers, those that it covers after free
characters. -/
def freeRow : List Char → List Bool → List Bool
  | c :: t, b :: bs =>
    let row := freeRow t bs
    (b || (isFree c && row.headD false)) :: row
  | _, bs => [bs.headD false]

/-- For each suffix of a text, the longest first, whether a pattern covers it. -/
def coverRow (alike : Char → Char → Bool) (text : List Char) : List Char → List Bool
  | [] => endRow text
  | p :: ps =>
    let row := coverRow alike text ps
    if p = '%' then freeRow text row
    else if p = '_' then stepRow isFree text row
    else stepRow (alike p) text row

def covers (alike : Char → Char → Bool) (pattern text : List Char) : Bool :=
  (coverRow alike text pattern).headD false

/-- Equality of characters, or equality up to case. -/
def alike (ignoreCase : Bool) (a b : Char) : Bool :=
  if ignoreCase then Text.sameLetter a b else a == b

/-- The characters that a regular expression escapes to mean themselves. -/
def isSpecial (c : Char) : Bool :=
  "\\.+*?()|[]\x7b\x7d^$#&-~".toList.contains c

/-- A pattern as an anchored regular expression. -/
def toRegex (pattern : String) : String :=
  let piece (c : Char) : List Char :=
    if c = '%' then ['.', '*']
    else if c = '_' then ['.']
    else if isSpecial c then ['\\', c]
    else [c]
  String.ofList ('^' :: pattern.toList.flatMap piece ++ ['$'])

end RowGuard.Pattern
