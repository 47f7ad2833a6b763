import SippyB2bua.Lib.Text

/-!
# Words, lines and longer separators

The splits of Python strings that `Lib.Text` leaves out: at runs of white space, at line
boundaries and at a separator of several characters.
-/

namespace SippyB2bua.Lib.Text

/-- `s.lower()` of a text whose letters outside of ASCII have no upper case. -/
def lower (s : Text) : Text := s.map Char.toLower

/-- A word read from right to left, unless it is empty. -/
def closeWord (word : Text) : List Text := if word = [] then [] else [word.reverse]

def wordsFrom (word : Text) : Text → List Text
  | [] => closeWord word
  | c :: cs =>
    if isSpace c then closeWord word ++ wordsFrom [] cs else wordsFrom (c :: word) cs

/-- `s.split()`. -/
def words (s : Text) : List Text := wordsFrom [] s

/-- `s.split(None, n)`. -/
def wordsMax : ℕ → Text → List Text
  | 0, s => if lstrip s = [] then [] else [lstrip s]
  | n + 1, s =>
    match splitSpace1 s with
    | none => []
    | some (w, none) => [w]
    | some (w, some rest) => w :: wordsMax n rest

/-- The pieces of a text; `skip` characters of a separator are still to be passed over. -/
def piecesFrom (sep : Text) (skip : ℕ) (piece : Text) : Text → List Text
  | [] => [piece.reverse]
  | c :: cs =>
    match skip with
    | n + 1 => piecesFrom sep n piece cs
    | 0 =>
      if startsWith (c :: cs) sep then piece.reverse :: piecesFrom sep (sep.length - 1) [] cs
      else piecesFrom sep 0 (c :: piece) cs

/-- `s.split(sep)` at a separator of one or more characters. -/
def pieces (sep s : Text) : List Text := piecesFrom sep 0 [] s

/-- `s.split(sep, 1)` at a separator of one or more characters. -/
def pieces1 (sep s : Text) : Text × Option Text :=
  match pieces sep s with
  | [] => ([], none)
  | [t] => (t, none)
  | t :: ts => (t, some (sep.intercalate ts))

/-- The characters that `str.splitlines` cuts at. -/
def isLineEnd (c : Char) : Bool :=
  let n := c.toNat
  (10 ≤ n && n ≤ 13) || (28 ≤ n && n ≤ 30) || n == 133 || n == 8232 || n == 8233

def linesFrom (line : Text) : Text → List Text
  | [] => closeWord line
  | '\r' :: '\n' :: cs => line.reverse :: linesFrom [] cs
  | c :: cs => if isLineEnd c then line.reverse :: linesFrom [] cs else linesFrom (c :: line) cs

def splitlines (s : Text) : List Text := linesFrom [] s

/-- `str(n)` of an integer. -/
def ofInt : ℤ → Text
  | .ofNat n => str n
  | .negSucc n => '-' :: str (n + 1)

example : words " a  bc\td ".toList = ["a".toList, "bc".toList, "d".toList] := by decide

end SippyB2bua.Lib.Text
