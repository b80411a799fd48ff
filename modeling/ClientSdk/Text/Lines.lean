/-!
# Pieces and lines

Cutting a text at a separator, putting pieces together again, and the
indentation of a block of lines.  Cutting loses nothing: joining the pieces
with the separator gives the text back (`join_pieces`).
-/

namespace ClientSdk.Text

/-- The pieces of a text, where `piece` holds, reversed, what has been read of
the current one. -/
def piecesFrom (sep : Char) (piece : List Char) : List Char → List (List Char)
  | [] => [piece.reverse]
  | c :: cs =>
      if c = sep then piece.reverse :: piecesFrom sep [] cs
      else piecesFrom sep (c :: piece) cs

/-- The pieces between the separators, empty ones included. -/
def pieces (sep : Char) (cs : List Char) : List (List Char) :=
  piecesFrom sep [] cs

/-- The pieces with the separator between neighbours. -/
def join (sep : Char) : List (List Char) → List Char
  | [] => []
  | [p] => p
  | p :: q :: ps => p ++ sep :: join sep (q :: ps)

theorem piecesFrom_ne_nil (sep : Char) (piece cs : List Char) :
    piecesFrom sep piece cs ≠ [] := by
  induction cs generalizing piece with
  | nil => simp [piecesFrom]
  | cons c cs ih =>
    unfold piecesFrom
    split
    · simp
    · exact ih (c :: piece)

theorem join_cons {sep : Char} {p : List Char} {ps : List (List Char)}
    (h : ps ≠ []) : join sep (p :: ps) = p ++ sep :: join sep ps := by
  cases ps with
  | nil => exact absurd rfl h
  | cons q qs => rfl

theorem join_piecesFrom (sep : Char) (piece cs : List Char) :
    join sep (piecesFrom sep piece cs) = piece.reverse ++ cs := by
  induction cs generalizing piece with
  | nil => simp [piecesFrom, join]
  | cons c cs ih =>
    unfold piecesFrom
    split
    · next h => rw [join_cons (piecesFrom_ne_nil sep [] cs), ih [], h]; simp
    · rw [ih (c :: piece)]; simp

/-- Joining the pieces of a text gives it back. -/
@[simp]
theorem join_pieces (sep : Char) (cs : List Char) :
    join sep (pieces sep cs) = cs := by
  simp [pieces, join_piecesFrom]

/-- The texts between the separators, empty ones included. -/
def splitAt (sep : Char) (s : String) : List String :=
  (pieces sep s.toList).map String.ofList

/-- The lines of a text; only `\n` ends a line. -/
def lines (s : String) : List String :=
  splitAt '\n' s

def unlines (ls : List String) : String :=
  "\n".intercalate ls

/-- One line of an indented block; an empty line stays empty. -/
def indentLine (margin line : String) : String :=
  if line.isEmpty then line else margin ++ line

/-- The block with `margin` in front of every line that is not empty. -/
def indentBy (margin s : String) : String :=
  unlines ((lines s).map (indentLine margin))

/-- The block moved in by two blanks. -/
def indent (s : String) : String :=
  indentBy "  " s

/-- The block with every line but the first moved in by two blanks. A line
break that ends the text right after its first line is dropped. -/
def hang (s : String) : String :=
  match lines s with
  | [] => ""
  | [first] => first
  | [first, ""] => first
  | first :: rest => first ++ "\n" ++ unlines (rest.map (indentLine "  "))

end ClientSdk.Text
