import ClientSdk.Proofs.Text.Occurs

/-!
# Texts that were moved in

A text of several lines that is put into another one is moved in on the way: there comes a
margin in front of every line but the first.  It still stands there line by line
(`StandsIn`), and this is kept by whatever is done to the outer text, also if that is moved
in again (`StandsIn.trans`, `standsIn_indent`).  What holds no line break stands there as it
is (`StandsIn.occurs`).
-/

namespace ClientSdk.Text

/-- What comes in front of a line of an indented block: nothing if the line is empty. -/
def front (margin : List Char) : List Char → List Char
  | [] => []
  | c :: _ => if c = '\n' then [] else margin

/-- The text with the margin in front of every line but the first. -/
def moved (margin : List Char) : List Char → List Char
  | [] => []
  | c :: cs => if c = '\n' then c :: (front margin cs ++ moved margin cs) else c :: moved margin cs

variable {margin cs : List Char}

theorem moved_cons_of_ne {c : Char} (h : c ≠ '\n') :
    moved margin (c :: cs) = c :: moved margin cs := by
  rw [moved, if_neg h]

@[simp] theorem moved_break :
    moved margin ('\n' :: cs) = '\n' :: (front margin cs ++ moved margin cs) := by
  rw [moved, if_pos rfl]

theorem moved_append_of_not_mem (h : '\n' ∉ cs) (bs : List Char) :
    moved margin (cs ++ bs) = cs ++ moved margin bs := by
  induction cs with
  | nil => rfl
  | cons c cs ih =>
      obtain ⟨hc, hcs⟩ := List.ne_and_not_mem_of_not_mem_cons h
      rw [List.cons_append, moved_cons_of_ne hc.symm, ih hcs, List.cons_append]

theorem moved_of_not_mem (h : '\n' ∉ cs) : moved margin cs = cs := by
  have hend : moved margin (cs ++ []) = cs ++ moved margin [] := moved_append_of_not_mem h []
  rwa [List.append_nil, moved, List.append_nil] at hend

theorem moved_nil (cs : List Char) : moved [] cs = cs := by
  have hfront : ∀ cs : List Char, front [] cs = [] := by
    intro cs
    cases cs <;> simp [front]
  induction cs with
  | nil => rfl
  | cons c cs ih => simp [moved, hfront, ih]

theorem head?_moved (cs : List Char) : (moved margin cs).head? = cs.head? := by
  cases cs with
  | nil => rfl
  | cons c cs =>
      rw [moved]
      split <;> rfl

theorem moved_eq_nil_iff : moved margin cs = [] ↔ cs = [] := by
  cases cs with
  | nil => simp [moved]
  | cons c cs =>
      rw [moved]
      split <;> simp

theorem moved_moved {margin' : List Char} (h : '\n' ∉ margin') (cs : List Char) :
    moved margin (moved margin' cs) = moved (margin ++ margin') cs := by
  have hfront : ∀ cs : List Char,
      front margin (front margin' cs ++ moved margin' cs) ++ front margin' cs =
        front (margin ++ margin') cs := by
    intro cs
    cases cs with
    | nil => rfl
    | cons c cs =>
        by_cases hc : c = '\n'
        · simp [hc, front]
        · cases margin' with
          | nil => simp [front, hc, moved]
          | cons d ds =>
              have hd : d ≠ '\n' := fun hd => h (hd ▸ List.mem_cons_self)
              simp [front, hc, hd]
  have hnone : ∀ cs : List Char, '\n' ∉ front margin' cs := by
    intro cs
    cases cs with
    | nil => exact List.not_mem_nil
    | cons c cs =>
        rw [front]
        split
        · exact List.not_mem_nil
        · exact h
  induction cs with
  | nil => rfl
  | cons c cs ih =>
      by_cases hc : c = '\n'
      · subst hc
        rw [moved_break, moved_break, moved_append_of_not_mem (hnone cs), ih, moved_break,
          ← hfront, List.append_assoc]
      · rw [moved_cons_of_ne hc, moved_cons_of_ne hc, moved_cons_of_ne hc, ih]

/-! ## Parts of what is moved in -/

theorem isSuffix_moved (as bs : List Char) : moved margin bs <:+ moved margin (as ++ bs) := by
  induction as with
  | nil => exact List.suffix_refl _
  | cons a as ih =>
      rw [List.cons_append, moved]
      split
      · exact (ih.trans (List.suffix_append _ _)).trans (List.suffix_cons _ _)
      · exact ih.trans (List.suffix_cons _ _)

theorem isPrefix_moved (as bs : List Char) : moved margin as <+: moved margin (as ++ bs) := by
  induction as with
  | nil => exact List.nil_prefix
  | cons a as ih =>
      rw [List.cons_append, moved, moved]
      split
      · refine List.cons_prefix_cons.mpr ⟨rfl, ?_⟩
        cases as with
        | nil => exact List.nil_prefix
        | cons b as => exact (List.prefix_append_right_inj _).mpr ih
      · exact List.cons_prefix_cons.mpr ⟨rfl, ih⟩

theorem isInfix_moved {as bs : List Char} (h : as <:+: bs) :
    moved margin as <:+: moved margin bs := by
  obtain ⟨before, after, rfl⟩ := h
  rw [List.append_assoc]
  exact (isPrefix_moved as after).isInfix.trans (isSuffix_moved before _).isInfix

/-! ## Texts that go on -/

/-- What a text becomes when it is moved in and does not go on with an empty line: there
comes a margin also behind a line break at its end. -/
def movedIn (margin : List Char) : List Char → List Char
  | [] => []
  | c :: cs =>
      if c = '\n' ∧ cs.head? ≠ some '\n' then c :: (margin ++ movedIn margin cs)
      else c :: movedIn margin cs

theorem moved_append {c : Char} (hc : c ≠ '\n') (as bs : List Char) :
    moved margin (as ++ c :: bs) = movedIn margin as ++ moved margin (c :: bs) := by
  induction as with
  | nil => rfl
  | cons a as ih =>
      rw [List.cons_append, moved, movedIn, ih]
      by_cases ha : a = '\n'
      · rw [if_pos ha]
        cases as with
        | nil => simp [ha, front, hc, movedIn]
        | cons d as => by_cases hd : d = '\n' <;> simp [ha, front, hd]
      · simp [ha]

/-- What ends inside a line is moved in on its own. -/
theorem moved_append_of_getLast? {as : List Char} (h : as.getLast? ≠ some '\n')
    (bs : List Char) : moved margin (as ++ bs) = moved margin as ++ moved margin bs := by
  induction as with
  | nil => rfl
  | cons a as ih =>
      cases as with
      | nil =>
          have ha : a ≠ '\n' := fun ha => h (by simp [ha])
          simp [moved, ha]
      | cons d as =>
          have hrest := ih (by simpa using h)
          rw [List.cons_append, moved, moved, hrest]
          split <;> simp [front]

theorem head?_movedIn (cs : List Char) : (movedIn margin cs).head? = cs.head? := by
  cases cs with
  | nil => rfl
  | cons c cs => rw [movedIn]; split <;> rfl

theorem movedIn_nil (cs : List Char) : movedIn [] cs = cs := by
  induction cs with
  | nil => rfl
  | cons c cs ih => simp [movedIn, ih]

theorem movedIn_of_not_mem (h : '\n' ∉ cs) : movedIn margin cs = cs := by
  induction cs with
  | nil => rfl
  | cons c cs ih =>
      obtain ⟨hc, hcs⟩ := List.ne_and_not_mem_of_not_mem_cons h
      rw [movedIn, if_neg fun hbreak => hc hbreak.1.symm, ih hcs]

theorem length_le_movedIn (cs : List Char) : cs.length ≤ (movedIn margin cs).length := by
  induction cs with
  | nil => exact le_rfl
  | cons c cs ih =>
      rw [movedIn]
      split <;> simp only [List.length_cons, List.length_append] <;> omega

theorem length_lt_movedIn (hmargin : margin ≠ []) (h : '\n' ∈ cs) :
    cs.length < (movedIn margin cs).length := by
  have hpos := List.length_pos_iff.mpr hmargin
  induction cs with
  | nil => exact absurd h List.not_mem_nil
  | cons c cs ih =>
      have hle := @length_le_movedIn margin cs
      rw [movedIn]
      split
      · simp only [List.length_cons, List.length_append]
        omega
      · next hgoes =>
        have hcs : '\n' ∈ cs := by
          rcases List.mem_cons.mp h with rfl | hcs
          · exact List.mem_of_head? (Classical.not_not.mp fun hhead => hgoes ⟨rfl, hhead⟩)
          · exact hcs
        have hlt := ih hcs
        simp only [List.length_cons]
        omega

theorem movedIn_eq_self_iff : movedIn margin cs = cs ↔ margin = [] ∨ '\n' ∉ cs := by
  constructor
  · intro hself
    by_contra hnone
    obtain ⟨hmargin, hbreak⟩ := not_or.mp hnone
    have hlt := length_lt_movedIn hmargin (Classical.not_not.mp hbreak)
    rw [hself] at hlt
    exact lt_irrefl _ hlt
  · rintro (rfl | hbreak)
    · exact movedIn_nil cs
    · exact movedIn_of_not_mem hbreak

/-! ## Indentation -/

theorem toList_indentLine {indentation line : String} (h : '\n' ∉ line.toList) :
    (indentLine indentation line).toList = front indentation.toList line.toList ++ line.toList := by
  unfold indentLine
  by_cases hline : line = ""
  · simp [hline, front]
  · have hne : ¬ line.isEmpty = true := by rwa [String.isEmpty_iff]
    rw [if_neg hne, String.toList_append]
    cases hcs : line.toList with
    | nil => exact absurd (String.toList_eq_nil_iff.mp hcs) hline
    | cons c cs =>
        have hc : c ≠ '\n' := fun hc => h (hcs ▸ hc ▸ List.mem_cons_self)
        rw [front, if_neg hc]

theorem front_append_break (p cs : List Char) (h : '\n' ∉ p) :
    front margin (p ++ '\n' :: cs) = front margin p := by
  cases p with
  | nil => simp [front]
  | cons c p => rfl

theorem join_front {ps : List (List Char)} (h : ∀ p ∈ ps, '\n' ∉ p) :
    join '\n' (ps.map fun p => front margin p ++ p) =
      front margin (join '\n' ps) ++ moved margin (join '\n' ps) := by
  induction ps with
  | nil => rfl
  | cons p rest ih =>
      have hp := h p List.mem_cons_self
      cases rest with
      | nil => simp [join, moved_of_not_mem hp]
      | cons q qs =>
          have hrest := ih fun p' hp' => h p' (List.mem_cons_of_mem _ hp')
          rw [List.map_cons, join_cons (by simp), hrest, join_cons (List.cons_ne_nil q qs),
            front_append_break p _ hp, moved_append_of_not_mem hp, moved_break]
          simp

/-- A block that is indented is moved in, with the margin in front. -/
theorem toList_indentBy (indentation s : String) : (indentBy indentation s).toList =
    front indentation.toList s.toList ++ moved indentation.toList s.toList := by
  have hbreak : "\n".toList = ['\n'] := rfl
  have hlines : (lines s).map (fun line => (indentLine indentation line).toList) =
      (pieces '\n' s.toList).map fun p => front indentation.toList p ++ p := by
    rw [lines, splitAt, List.map_map]
    refine List.map_congr_left fun p hp => ?_
    have hbreak : '\n' ∉ (String.ofList p).toList := by simpa using not_mem_of_mem_pieces hp
    have hline : (indentLine indentation (String.ofList p)).toList = _ :=
      toList_indentLine hbreak
    simpa using hline
  rw [indentBy, unlines, toList_intercalate_eq_join hbreak, List.map_map]
  change join '\n' ((lines s).map fun line => (indentLine indentation line).toList) = _
  rw [hlines, join_front fun p hp => not_mem_of_mem_pieces hp, join_pieces]

theorem isSuffix_moved_indentBy (indentation s : String) :
    moved indentation.toList s.toList <:+ (indentBy indentation s).toList := by
  rw [toList_indentBy]
  exact List.suffix_append _ _

/-! ## Standing in a text -/

/-- A text stands in another one line by line, moved in by any number of blanks. -/
inductive StandsIn (part s : String) : Prop
  | intro (n : Nat) : moved (List.replicate n ' ') part.toList <:+: s.toList → StandsIn part s

theorem not_mem_blanks (n : Nat) : '\n' ∉ List.replicate n ' ' := by
  simp

variable {part s t : String}

theorem Occurs.standsIn (h : Occurs part s) : StandsIn part s :=
  ⟨0, by rwa [List.replicate_zero, moved_nil]⟩

theorem StandsIn.refl (s : String) : StandsIn s s :=
  (Occurs.refl s).standsIn

theorem StandsIn.trans (h : StandsIn part s) (h' : StandsIn s t) : StandsIn part t := by
  obtain ⟨n, hn⟩ := h
  obtain ⟨m, hm⟩ := h'
  refine ⟨m + n, ?_⟩
  rw [← List.replicate_append_replicate, ← moved_moved (not_mem_blanks n)]
  exact (isInfix_moved hn).trans hm

theorem StandsIn.append_left (h : StandsIn part s) (t : String) : StandsIn part (t ++ s) :=
  h.trans ((Occurs.refl s).append_left t).standsIn

theorem StandsIn.append_right (h : StandsIn part s) (t : String) : StandsIn part (s ++ t) :=
  h.trans ((Occurs.refl s).append_right t).standsIn

theorem StandsIn.of_mem {sep : String} {texts : List String} (h : s ∈ texts) :
    StandsIn s (sep.intercalate texts) :=
  (occurs_intercalate h).standsIn

theorem StandsIn.of_mem_lines {ls : List String} (h : s ∈ ls) : StandsIn s (unlines ls) :=
  .of_mem h

theorem standsIn_indent (s : String) : StandsIn s (indent s) :=
  ⟨2, (isSuffix_moved_indentBy "  " s).isInfix⟩

/-- What holds no line break stands as it is in what it stands in, moved in or not. -/
theorem StandsIn.occurs (h : StandsIn s t) (hbreak : '\n' ∉ part.toList) (hpart : Occurs part s) :
    Occurs part t := by
  obtain ⟨n, hn⟩ := h
  have hmoved : moved (List.replicate n ' ') part.toList <:+:
      moved (List.replicate n ' ') s.toList :=
    isInfix_moved hpart
  rw [moved_of_not_mem hbreak] at hmoved
  exact hmoved.trans hn

end ClientSdk.Text
