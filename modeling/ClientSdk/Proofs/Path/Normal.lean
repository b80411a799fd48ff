import ClientSdk.Path
import ClientSdk.Proofs.Text.Pieces

/-!
# Normal forms of paths

A path is read by taking its steps one after the other (`takeStep`).  The steps
taken are always `Settled`: real steps, with steps up at the very beginning of a
relative path only.  Taking settled steps again changes nothing
(`foldl_takeStep_of_settled`), so the text of a normal form is read as that normal
form (`read_stepsText`).

Steps taken are listed with the last one first, as `takeStep` lists them; the steps
of a normal form are listed as they are written.
-/

namespace ClientSdk.Path

/-- A text between two slashes that counts as a step. -/
structure IsStep (step : String) : Prop where
  ne_empty : step ≠ ""
  ne_dot : step ≠ "."
  no_slash : '/' ∉ step.toList

/-- Steps, the last one first, none of which takes another one back. -/
inductive Settled (rooted : Bool) : List String → Prop
  | nil : Settled rooted []
  | cons {step : String} {below : List String} : IsStep step →
      (step = ".." → rooted = false ∧ ∀ s ∈ below, s = "..") →
      Settled rooted below → Settled rooted (step :: below)

variable {rooted : Bool} {taken : List String} {step : String}

theorem Settled.isStep (h : Settled rooted taken) : ∀ s ∈ taken, IsStep s := by
  induction h with
  | nil => exact fun _ hs => absurd hs List.not_mem_nil
  | cons hstep _ _ ih =>
      intro s hs
      rcases List.mem_cons.mp hs with rfl | hs
      · exact hstep
      · exact ih s hs

theorem Settled.tail (h : Settled rooted taken) : Settled rooted taken.tail := by
  cases h with
  | nil => exact .nil
  | cons _ _ hbelow => exact hbelow

theorem Settled.of_append {above below : List String}
    (h : Settled rooted (above ++ below)) : Settled rooted below := by
  induction above with
  | nil => exact h
  | cons _ _ ih => exact ih h.tail

theorem isStep_up : IsStep ".." := ⟨by decide, by decide, by decide⟩

/-! ## Taking one step -/

theorem takeStep_of_blank (h : step = "" ∨ step = ".") :
    takeStep rooted taken step = taken := by
  unfold takeStep
  exact if_pos h

theorem takeStep_of_ne_up (h : IsStep step) (hup : step ≠ "..") :
    takeStep rooted taken step = step :: taken := by
  unfold takeStep
  rw [if_neg (not_or.mpr ⟨h.ne_empty, h.ne_dot⟩), if_neg hup]

theorem takeStep_up_of_ne_up {last : String} (h : last ≠ "..") :
    takeStep rooted (last :: taken) ".." = taken := by
  rw [takeStep, if_neg (by decide), if_pos rfl]
  exact if_neg h

theorem takeStep_up_of_up :
    takeStep rooted (".." :: taken) ".." = ".." :: ".." :: taken := by
  rw [takeStep, if_neg (by decide), if_pos rfl]
  exact if_pos rfl

/-- What one step preserves. -/
theorem settled_takeStep (hslash : '/' ∉ step.toList) (h : Settled rooted taken) :
    Settled rooted (takeStep rooted taken step) := by
  by_cases hblank : step = "" ∨ step = "."
  · rw [takeStep_of_blank hblank]
    exact h
  obtain ⟨hempty, hdot⟩ := not_or.mp hblank
  by_cases hup : step = ".."
  · subst hup
    cases h with
    | nil =>
        cases rooted with
        | true => exact .nil
        | false => exact .cons isStep_up (fun _ => ⟨rfl, by simp⟩) .nil
    | @cons last below hlast hbottom hbelow =>
        by_cases hl : last = ".."
        · subst hl
          rw [takeStep_up_of_up]
          obtain ⟨hrel, hall⟩ := hbottom rfl
          refine .cons isStep_up (fun _ => ⟨hrel, ?_⟩) (.cons hlast hbottom hbelow)
          intro s hs
          rcases List.mem_cons.mp hs with rfl | hs
          · rfl
          · exact hall s hs
        · rw [takeStep_up_of_ne_up hl]
          exact hbelow
  · have hstep : IsStep step := ⟨hempty, hdot, hslash⟩
    rw [takeStep_of_ne_up hstep hup]
    exact .cons hstep (fun heq => absurd heq hup) h

theorem takeStep_of_settled (h : Settled rooted (step :: taken)) :
    takeStep rooted taken step = step :: taken := by
  cases h with
  | cons hstep hbottom hbelow =>
      by_cases hup : step = ".."
      · subst hup
        obtain ⟨rfl, hall⟩ := hbottom rfl
        cases taken with
        | nil => rfl
        | cons last below =>
            obtain rfl : last = ".." := hall last List.mem_cons_self
            exact takeStep_up_of_up
      · exact takeStep_of_ne_up hstep hup

/-! ## Taking many steps -/

theorem settled_foldl_takeStep {steps : List String}
    (hslash : ∀ s ∈ steps, '/' ∉ s.toList) (h : Settled rooted taken) :
    Settled rooted (steps.foldl (takeStep rooted) taken) := by
  induction steps generalizing taken with
  | nil => exact h
  | cons s rest ih =>
      exact ih (fun s' hs' => hslash s' (List.mem_cons_of_mem _ hs'))
        (settled_takeStep (hslash s List.mem_cons_self) h)

theorem foldl_takeStep_of_settled {steps : List String}
    (h : Settled rooted (steps.reverse ++ taken)) :
    steps.foldl (takeStep rooted) taken = steps.reverse ++ taken := by
  induction steps generalizing taken with
  | nil => rfl
  | cons s rest ih =>
      rw [List.reverse_cons, List.append_assoc, List.singleton_append] at h ⊢
      rw [List.foldl_cons, takeStep_of_settled h.of_append, ih h]

/-- As many steps up as there are steps on top take exactly these back, if none of
them leads up. -/
theorem foldl_takeStep_up {up : List String} (h : ∀ s ∈ up, s ≠ "..")
    (taken : List String) :
    (up.map fun _ => "..").foldl (takeStep rooted) (up ++ taken) = taken := by
  induction up with
  | nil => rfl
  | cons s rest ih =>
      rw [List.map_cons, List.foldl_cons, List.cons_append,
        takeStep_up_of_ne_up (h s List.mem_cons_self)]
      exact ih fun s' hs' => h s' (List.mem_cons_of_mem _ hs')

/-- The steps of every path are settled. -/
theorem settled_read (path : String) :
    Settled ((read path).slashes != 0) (read path).steps.reverse := by
  simp only [read, List.reverse_reverse]
  exact settled_foldl_takeStep (fun _ hs => Text.not_mem_of_mem_splitAt hs) .nil

theorem isStep_of_mem_read {path s : String} (hs : s ∈ (read path).steps) : IsStep s :=
  (settled_read path).isStep s (List.mem_reverse.mpr hs)

/-! ## Relative paths as texts -/

/-- A path that does not begin with a slash, from its steps. -/
def stepsText : List String → String
  | [] => "."
  | steps => "/".intercalate steps

/-- The slash between steps as a character. -/
theorem toList_slash : "/".toList = ['/'] := rfl

theorem stepsText_of_ne_nil {steps : List String} (h : steps ≠ []) :
    stepsText steps = "/".intercalate steps := by
  cases steps with
  | nil => exact absurd rfl h
  | cons _ _ => rfl

theorem intercalate_eq_empty_iff {steps : List String} (h : ∀ s ∈ steps, s ≠ "") :
    "/".intercalate steps = "" ↔ steps = [] := by
  constructor
  · intro hempty
    cases steps with
    | nil => rfl
    | cons s rest =>
        have hchars := congrArg String.toList hempty
        rw [Text.toList_intercalate_eq_join toList_slash, List.map_cons] at hchars
        have hs : s.toList ≠ [] := by
          simpa [String.toList_eq_nil_iff] using h s List.mem_cons_self
        cases rest with
        | nil => exact absurd hchars hs
        | cons _ _ =>
            rw [Text.join_cons (by simp)] at hchars
            simp at hchars
  · rintro rfl
    rfl

/-- The text of a relative normal form. -/
theorem Normal.text_relative {steps : List String} (h : ∀ s ∈ steps, s ≠ "") :
    (Normal.mk 0 steps).text = stepsText steps := by
  have hempty := intercalate_eq_empty_iff h
  cases steps with
  | nil => rfl
  | cons s rest =>
      simp only [Normal.text, stepsText, List.replicate_zero, String.ofList_nil,
        String.empty_append]
      rw [if_neg]
      simpa [String.isEmpty_iff] using hempty

theorem foldl_takeStep_stepsText {steps : List String}
    (h : ∀ s ∈ steps, '/' ∉ s.toList) (taken : List String) :
    (Text.splitAt '/' (stepsText steps)).foldl (takeStep rooted) taken =
      steps.foldl (takeStep rooted) taken := by
  cases steps with
  | nil =>
      have hcut : Text.splitAt '/' (stepsText []) = ["."] := by decide
      rw [hcut, List.foldl_cons, takeStep_of_blank (Or.inr rfl)]
  | cons s rest =>
      rw [stepsText_of_ne_nil (by simp),
        Text.splitAt_intercalate toList_slash (by simp) h]

theorem keptSlashes_eq_zero {cs : List Char} (h : cs.head? ≠ some '/') :
    keptSlashes cs = 0 := by
  cases cs with
  | nil => rfl
  | cons c cs =>
      have hc : c ≠ '/' := fun hc => h (by rw [hc]; rfl)
      unfold keptSlashes
      split <;> simp_all

/-- The first character of a path is that of its first step. -/
theorem head?_stepsText {steps : List String} (h : ∀ s ∈ steps, IsStep s) :
    (stepsText steps).toList.head? ≠ some '/' := by
  cases steps with
  | nil => decide
  | cons s rest =>
      have hstep := h s List.mem_cons_self
      have hne : s.toList ≠ [] := by
        simpa [String.toList_eq_nil_iff] using hstep.ne_empty
      have hhead : s.toList.head? ≠ some '/' := fun hc =>
        hstep.no_slash (List.mem_of_head? hc)
      rw [stepsText_of_ne_nil (by simp), Text.toList_intercalate_eq_join toList_slash,
        List.map_cons]
      cases rest with
      | nil => exact hhead
      | cons _ _ =>
          rw [Text.join_cons (by simp), List.head?_append_of_ne_nil _ hne]
          exact hhead

/-- The text of a relative normal form is read as that normal form. -/
theorem read_stepsText {steps : List String} (h : Settled false steps.reverse) :
    read (stepsText steps) = ⟨0, steps⟩ := by
  have hstep : ∀ s ∈ steps, IsStep s := fun s hs =>
    h.isStep s (List.mem_reverse.mpr hs)
  have hslashes := keptSlashes_eq_zero (head?_stepsText hstep)
  have hall : Settled false (steps.reverse ++ []) := by rwa [List.append_nil]
  have hfold := foldl_takeStep_of_settled hall
  simp only [read, hslashes, bne_self_eq_false]
  rw [foldl_takeStep_stepsText (fun s hs => (hstep s hs).no_slash), hfold]
  simp

end ClientSdk.Path
