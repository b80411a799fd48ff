import ClientSdk.Proofs.Path.Normal
import Mathlib.Data.List.Induction

/-!
# Places from the root

Seen from a working directory, every path is a place below the root, and the steps that
lead there never lead up (`no_up_absolute`).  Taking the steps of a relative path has the
effect of taking those of its normal form (`foldl_takeStep_normal`), so a path that does
not lead out of the working directory is found below it (`Within.absolute_eq`), at a place
that tells its normal form (`Within.read_eq`).
-/

namespace ClientSdk

namespace Path

/-- A path that is relative and does not lead out of the directory of the run. -/
structure Within (path : String) : Prop where
  relative : (read path).slashes = 0
  no_up : ".." ∉ (read path).steps

variable {rooted : Bool} {taken : List String} {here : WorkingDirectory} {path path' : String}

theorem Settled.append_of_ne_up {above below : List String}
    (habove : ∀ s ∈ above, IsStep s ∧ s ≠ "..") (h : Settled rooted below) :
    Settled rooted (above ++ below) := by
  induction above with
  | nil => exact h
  | cons s rest ih =>
      obtain ⟨hstep, hne⟩ := habove s List.mem_cons_self
      exact .cons hstep (fun hup => absurd hup hne)
        (ih fun s hs => habove s (List.mem_cons_of_mem _ hs))

theorem Settled.no_up (h : Settled true taken) : ".." ∉ taken := by
  induction h with
  | nil => exact List.not_mem_nil
  | cons _ hbottom _ ih =>
      rw [List.mem_cons, not_or]
      exact ⟨fun heq => Bool.false_ne_true (hbottom heq.symm).1.symm, ih⟩

theorem settled_names (here : WorkingDirectory) : Settled true here.names.reverse := by
  rw [← List.append_nil here.names.reverse]
  refine Settled.nil.append_of_ne_up fun s hs => ?_
  obtain ⟨hempty, hdot, hup, hslash⟩ := here.plain s (List.mem_reverse.mp hs)
  exact ⟨⟨hempty, hdot, hslash⟩, hup⟩

/-! ## The place of a path -/

theorem settled_absolute (here : WorkingDirectory) (path : String) :
    Settled true (absolute here path).reverse := by
  rw [absolute, List.reverse_reverse]
  refine settled_foldl_takeStep (fun _ hs => Text.not_mem_of_mem_splitAt hs) ?_
  split
  · exact .nil
  · exact settled_names here

theorem no_up_absolute (here : WorkingDirectory) (path : String) :
    ".." ∉ absolute here path :=
  fun hmem => (settled_absolute here path).no_up (List.mem_reverse.mpr hmem)

theorem isStep_of_mem_absolute {s : String} (hs : s ∈ absolute here path) : IsStep s :=
  (settled_absolute here path).isStep s (List.mem_reverse.mpr hs)

/-! ## Relative paths -/

theorem head?_of_relative (h : (read path).slashes = 0) : path.toList.head? ≠ some '/' := by
  intro hhead
  obtain ⟨rest, hpath⟩ := List.head?_eq_some_iff.mp hhead
  have hslashes : keptSlashes path.toList = 0 := h
  rw [hpath] at hslashes
  unfold keptSlashes at hslashes
  split at hslashes <;> simp_all

theorem foldl_takeStep_normal {steps : List String} (hslash : ∀ s ∈ steps, '/' ∉ s.toList)
    (taken : List String) :
    (steps.foldl (takeStep false) []).reverse.foldl (takeStep true) taken =
      steps.foldl (takeStep true) taken := by
  induction steps using List.reverseRecOn with
  | nil => rfl
  | append_singleton steps step ih =>
      have hsettled : Settled false (steps.foldl (takeStep false) []) :=
        settled_foldl_takeStep (fun s hs => hslash s (List.mem_append_left _ hs)) .nil
      have ih := ih fun s hs => hslash s (List.mem_append_left _ hs)
      simp only [List.foldl_append, List.foldl_cons, List.foldl_nil, ← ih]
      generalize steps.foldl (takeStep false) [] = normal at hsettled
      by_cases hblank : step = "" ∨ step = "."
      · rw [takeStep_of_blank hblank, takeStep_of_blank hblank]
      by_cases hup : step = ".."
      · subst hup
        cases hsettled with
        | nil => rfl
        | @cons last below hlast _ _ =>
            by_cases hl : last = ".."
            · subst hl
              rw [takeStep_up_of_up]
              simp [List.foldl_append]
            · rw [takeStep_up_of_ne_up hl, List.reverse_cons, List.foldl_append,
                List.foldl_cons, List.foldl_nil, takeStep_of_ne_up hlast hl,
                takeStep_up_of_ne_up hl]
      · obtain ⟨hempty, hdot⟩ := not_or.mp hblank
        have hstep : IsStep step :=
          ⟨hempty, hdot, hslash step (List.mem_append_right _ (List.mem_singleton_self _))⟩
        rw [takeStep_of_ne_up hstep hup, List.reverse_cons, List.foldl_append,
          List.foldl_cons, List.foldl_nil]

theorem absolute_of_relative (here : WorkingDirectory) (h : (read path).slashes = 0) :
    absolute here path =
      ((read path).steps.foldl (takeStep true) here.names.reverse).reverse := by
  have hread : (read path).steps =
      ((Text.splitAt '/' path).foldl (takeStep false) []).reverse := by
    have hslashes : keptSlashes path.toList = 0 := h
    simp only [read, hslashes, bne_self_eq_false]
  rw [absolute, if_neg (head?_of_relative h), hread,
    foldl_takeStep_normal fun _ hs => Text.not_mem_of_mem_splitAt hs]

/-- What does not lead out of the working directory is found below it. -/
theorem Within.absolute_eq (h : Within path) (here : WorkingDirectory) :
    absolute here path = here.names ++ (read path).steps := by
  have hsettled : Settled true ((read path).steps.reverse ++ here.names.reverse) := by
    refine (settled_names here).append_of_ne_up fun s hs => ?_
    exact ⟨isStep_of_mem_read (List.mem_reverse.mp hs),
      fun heq => h.no_up (heq ▸ List.mem_reverse.mp hs)⟩
  rw [absolute_of_relative here h.relative, foldl_takeStep_of_settled hsettled,
    List.reverse_append, List.reverse_reverse, List.reverse_reverse]

/-- Paths to one place in the working directory have one normal form. -/
theorem Within.read_eq (h : Within path) (h' : Within path')
    (hsame : absolute here path = absolute here path') : read path = read path' := by
  rw [h.absolute_eq, h'.absolute_eq, List.append_cancel_left_eq] at hsame
  have hrel := h.relative
  have hrel' := h'.relative
  cases hread : read path with
  | mk slashes steps =>
      cases hread' : read path' with
      | mk slashes' steps' => simp_all

end Path

end ClientSdk
