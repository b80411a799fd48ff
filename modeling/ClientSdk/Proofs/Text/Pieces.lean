import ClientSdk.Text.Lines
import Mathlib.Data.List.Basic

/-!
# Cutting and joining

`join_pieces` says that cutting loses nothing; here is the other half.  Pieces that
do not hold the separator are found again when they were joined
(`pieces_join`, `splitAt_intercalate`), and cutting at a separator cuts both sides
on their own (`pieces_append`, `splitAt_append`).
-/

namespace ClientSdk.Text

variable {sep : Char}

/-! ## Lists of characters -/

theorem piecesFrom_append (piece as bs : List Char) :
    piecesFrom sep piece (as ++ sep :: bs) =
      piecesFrom sep piece as ++ pieces sep bs := by
  induction as generalizing piece with
  | nil => simp [piecesFrom, pieces]
  | cons c cs ih =>
      by_cases hc : c = sep
      · simp [piecesFrom, hc, ih]
      · simp [piecesFrom, hc, ih]

theorem pieces_append (as bs : List Char) :
    pieces sep (as ++ sep :: bs) = pieces sep as ++ pieces sep bs :=
  piecesFrom_append [] as bs

theorem piecesFrom_of_not_mem {cs : List Char} (h : sep ∉ cs) (piece : List Char) :
    piecesFrom sep piece cs = [piece.reverse ++ cs] := by
  induction cs generalizing piece with
  | nil => simp [piecesFrom]
  | cons c cs ih =>
      obtain ⟨hc, hcs⟩ := List.ne_and_not_mem_of_not_mem_cons h
      simp [piecesFrom, hc.symm, ih hcs]

theorem pieces_of_not_mem {cs : List Char} (h : sep ∉ cs) :
    pieces sep cs = [cs] :=
  piecesFrom_of_not_mem h []

theorem not_mem_of_mem_piecesFrom {piece cs p : List Char} (h : sep ∉ piece)
    (hp : p ∈ piecesFrom sep piece cs) : sep ∉ p := by
  induction cs generalizing piece with
  | nil =>
      rw [piecesFrom, List.mem_singleton] at hp
      simpa [hp] using h
  | cons c cs ih =>
      by_cases hc : c = sep
      · rw [piecesFrom, if_pos hc] at hp
        rcases List.mem_cons.mp hp with rfl | hp
        · simpa using h
        · exact ih List.not_mem_nil hp
      · rw [piecesFrom, if_neg hc] at hp
        exact ih (List.not_mem_cons_of_ne_of_not_mem (Ne.symm hc) h) hp

theorem not_mem_of_mem_pieces {cs p : List Char} (hp : p ∈ pieces sep cs) :
    sep ∉ p :=
  not_mem_of_mem_piecesFrom List.not_mem_nil hp

theorem pieces_join {ps : List (List Char)} (hne : ps ≠ [])
    (h : ∀ p ∈ ps, sep ∉ p) : pieces sep (join sep ps) = ps := by
  induction ps with
  | nil => exact absurd rfl hne
  | cons p rest ih =>
      cases rest with
      | nil => exact pieces_of_not_mem (h p List.mem_cons_self)
      | cons q qs =>
          have hrest := ih (by simp) fun r hr => h r (List.mem_cons_of_mem _ hr)
          rw [join, pieces_append, pieces_of_not_mem (h p List.mem_cons_self), hrest]
          rfl

theorem join_eq_intercalate (ps : List (List Char)) :
    join sep ps = [sep].intercalate ps := by
  induction ps with
  | nil => rfl
  | cons p rest ih =>
      cases rest with
      | nil => simp [join]
      | cons q qs => rw [join, ih]; simp [List.intercalate]

theorem join_concat {ps : List (List Char)} (hne : ps ≠ []) (p : List Char) :
    join sep (ps ++ [p]) = join sep ps ++ sep :: p := by
  induction ps with
  | nil => exact absurd rfl hne
  | cons q qs ih =>
      cases qs with
      | nil => rfl
      | cons r rs =>
          have hrest : r :: rs ≠ [] := List.cons_ne_nil r rs
          rw [List.cons_append, join_cons (by simp), ih hrest, join_cons hrest]
          simp

/-! ## Texts -/

section Texts

variable {glue : String}

theorem toList_intercalate_eq_join (hg : glue.toList = [sep]) (ps : List String) :
    (glue.intercalate ps).toList = join sep (ps.map String.toList) := by
  rw [String.toList_intercalate, hg, join_eq_intercalate]

theorem splitAt_append (hg : glue.toList = [sep]) (s t : String) :
    splitAt sep (s ++ glue ++ t) = splitAt sep s ++ splitAt sep t := by
  simp only [splitAt, String.toList_append, hg, List.append_assoc,
    List.cons_append, List.nil_append, pieces_append, List.map_append]

theorem not_mem_of_mem_splitAt {s p : String} (hp : p ∈ splitAt sep s) :
    sep ∉ p.toList := by
  obtain ⟨cs, hcs, rfl⟩ := List.mem_map.mp hp
  simpa using not_mem_of_mem_pieces hcs

/-- Texts that were joined are found again. -/
theorem splitAt_intercalate (hg : glue.toList = [sep]) {ps : List String}
    (hne : ps ≠ []) (h : ∀ p ∈ ps, sep ∉ p.toList) :
    splitAt sep (glue.intercalate ps) = ps := by
  have hpieces : pieces sep (join sep (ps.map String.toList)) =
      ps.map String.toList := by
    refine pieces_join (by simpa using hne) ?_
    intro cs hcs
    obtain ⟨p, hp, rfl⟩ := List.mem_map.mp hcs
    exact h p hp
  rw [splitAt, toList_intercalate_eq_join hg, hpieces, List.map_map]
  simp

theorem unlines_lines (s : String) : unlines (lines s) = s := by
  have hbreak : "\n".toList = ['\n'] := rfl
  rw [← String.toList_inj, unlines, toList_intercalate_eq_join hbreak, lines, splitAt,
    List.map_map]
  simp [Function.comp_def]

end Texts

end ClientSdk.Text
