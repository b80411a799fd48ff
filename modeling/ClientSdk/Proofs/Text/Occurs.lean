import ClientSdk.Proofs.Text.Pieces
import Mathlib.Data.List.Basic
import Mathlib.Data.List.Infix

/-!
# Texts inside texts

A text inside another one stays there when the other is put between more text.  If it
holds no line break, it also stays when the other is indented (`occurs_indent`), since it
is inside one of the lines.
-/

namespace ClientSdk.Text

/-- Whether the text `part` stands somewhere in the text `s`. -/
def Occurs (part s : String) : Prop :=
  part.toList <:+: s.toList

variable {part s : String}

theorem Occurs.refl (s : String) : Occurs s s :=
  List.infix_refl _

theorem Occurs.trans {t : String} (h : Occurs part s) (h' : Occurs s t) : Occurs part t :=
  List.IsInfix.trans h h'

theorem Occurs.append_left (h : Occurs part s) (t : String) : Occurs part (t ++ s) := by
  rw [Occurs, String.toList_append]
  exact List.IsInfix.trans h (List.suffix_append _ _).isInfix

theorem Occurs.append_right (h : Occurs part s) (t : String) : Occurs part (s ++ t) := by
  rw [Occurs, String.toList_append]
  exact List.IsInfix.trans h (List.prefix_append _ _).isInfix

theorem infix_intercalate {α : Type} {sep l : List α} {ls : List (List α)} (h : l ∈ ls) :
    l <:+: sep.intercalate ls := by
  induction ls with
  | nil => exact absurd h List.not_mem_nil
  | cons l' rest ih =>
      cases rest with
      | nil =>
          rw [List.mem_singleton.mp h, List.intercalate_singleton]
      | cons l'' rest =>
          rw [List.intercalate_cons_cons]
          rcases List.mem_cons.mp h with rfl | h
          · rw [List.append_assoc]
            exact (List.prefix_append _ _).isInfix
          · exact (ih h).trans (List.suffix_append _ _).isInfix

theorem occurs_intercalate {sep : String} {texts : List String} (h : s ∈ texts) :
    Occurs s (sep.intercalate texts) := by
  rw [Occurs, String.toList_intercalate]
  exact infix_intercalate (List.mem_map_of_mem h)

theorem occurs_join {texts : List String} (h : s ∈ texts) : Occurs s (String.join texts) := by
  rw [Occurs, String.toList_join]
  exact List.infix_of_mem_flatten (List.mem_map_of_mem h)

/-! ## Lines -/

theorem infix_of_infix_append_cons {sep : Char} {cs as bs : List Char} (hsep : sep ∉ cs)
    (h : cs <:+: as ++ sep :: bs) : cs <:+: as ∨ cs <:+: bs := by
  obtain ⟨before, after, hsplit⟩ := h
  rcases List.append_eq_append_iff.mp hsplit with ⟨more, has, -⟩ | ⟨more, hmore, hrest⟩
  · exact .inl ⟨before, more, has.symm⟩
  · rcases List.append_eq_append_iff.mp hmore with ⟨head, has, hcs⟩ | ⟨gap, -, hgap⟩
    · cases more with
      | nil =>
          rw [List.append_nil] at hcs
          exact .inl (hcs ▸ has ▸ (List.suffix_append before head).isInfix)
      | cons c more =>
          have hc : sep = c := (List.cons.inj hrest).1
          exact absurd (hcs ▸ hc ▸ List.mem_append_right head List.mem_cons_self) hsep
    · subst hgap
      cases gap with
      | nil =>
          cases cs with
          | nil => exact .inl (List.nil_infix)
          | cons c cs => exact absurd ((List.cons.inj hrest).1 ▸ List.mem_cons_self) hsep
      | cons c gap =>
          have hbs : bs = gap ++ cs ++ after := (List.cons.inj hrest).2
          exact .inr ⟨gap, after, hbs.symm⟩

theorem exists_infix_of_join {sep : Char} {cs : List Char} {ps : List (List Char)}
    (hne : ps ≠ []) (hsep : sep ∉ cs) (h : cs <:+: join sep ps) : ∃ p ∈ ps, cs <:+: p := by
  induction ps with
  | nil => exact absurd rfl hne
  | cons p rest ih =>
      cases rest with
      | nil => exact ⟨p, List.mem_cons_self, h⟩
      | cons q qs =>
          rcases infix_of_infix_append_cons hsep h with h | h
          · exact ⟨p, List.mem_cons_self, h⟩
          · obtain ⟨p', hp', h⟩ := ih (List.cons_ne_nil q qs) h
            exact ⟨p', List.mem_cons_of_mem _ hp', h⟩

theorem exists_line_of_occurs (hbreak : '\n' ∉ part.toList) (h : Occurs part s) :
    ∃ line ∈ lines s, Occurs part line := by
  rw [Occurs, ← join_pieces '\n' s.toList] at h
  obtain ⟨piece, hpiece, h⟩ := exists_infix_of_join (piecesFrom_ne_nil _ _ _) hbreak h
  exact ⟨String.ofList piece, List.mem_map_of_mem hpiece, by simpa [Occurs] using h⟩

theorem occurs_indentLine (margin : String) (h : Occurs part s) :
    Occurs part (indentLine margin s) := by
  unfold indentLine
  split
  · exact h
  · exact h.append_left _

theorem occurs_indent (hbreak : '\n' ∉ part.toList) (h : Occurs part s) :
    Occurs part (indent s) := by
  obtain ⟨line, hline, h⟩ := exists_line_of_occurs hbreak h
  exact (occurs_indentLine _ h).trans (occurs_intercalate (List.mem_map_of_mem hline))

theorem occurs_hang (hbreak : '\n' ∉ part.toList) (h : Occurs part s) :
    Occurs part (hang s) := by
  obtain ⟨line, hline, hoccurs⟩ := exists_line_of_occurs hbreak h
  unfold hang
  split
  · next hnone =>
      rw [hnone] at hline
      exact absurd hline List.not_mem_nil
  · next first hone =>
      rw [hone, List.mem_singleton] at hline
      exact hline ▸ hoccurs
  · next first hlast =>
      -- The line that is dropped is empty, and so is what occurs in it.
      rw [hlast] at hline
      rcases List.mem_cons.mp hline with rfl | hline
      · exact hoccurs
      · rw [List.mem_singleton.mp hline] at hoccurs
        exact hoccurs.trans ⟨[], first.toList, rfl⟩
  · next first rest _ hlines =>
      rw [hlines] at hline
      rcases List.mem_cons.mp hline with rfl | hline
      · exact (hoccurs.append_right _).append_right _
      · refine Occurs.append_left ?_ _
        exact (occurs_indentLine _ hoccurs).trans
          (occurs_intercalate (List.mem_map_of_mem hline))

end ClientSdk.Text
