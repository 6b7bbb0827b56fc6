import Denotation.Text.Basic
import Denotation.Text.Blank

/-!
# Words

White space at the ends of a text and between its words, by characters: the bytes that are kept are
kept as they are.
-/

namespace Denotation.Text

/-- Whether the piece is white space. -/
def Piece.isBlank (p : Piece) : Bool := Text.isBlank p.char

/-- The text without white space at its ends. -/
def trim (t : Text) : Text :=
  ofPieces ((t.pieces.dropWhile Piece.isBlank).reverse.dropWhile Piece.isBlank).reverse

/-- The maximal runs of pieces that are no white space; `word` is the run being read. -/
def wordsFrom : Text → List Piece → List Text
  | word, [] => if word.isEmpty then [] else [word]
  | word, p :: rest =>
    if p.isBlank then
      if word.isEmpty then wordsFrom [] rest else word :: wordsFrom [] rest
    else wordsFrom (word ++ p.bytes) rest

/-- The words of a text: its maximal runs without white space. -/
def words (t : Text) : List Text := wordsFrom [] t.pieces

end Denotation.Text
