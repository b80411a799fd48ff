import ClientSdk.Proofs.Path.Join

/-!
# Places on a way

A path leads from place to place, one step after the other (`place`).  A step up goes
back to a place that is there; every other step needs a directory to go on from
(`Needs`).  Places are told apart by their texts (`place_eq_of_text`), and what leads to
a place is not longer than what leads on from it (`length_text_le`).
-/

namespace ClientSdk.Path

variable {slashes slashes' : ℕ} {steps steps' : List String} {step : String} {p : Normal}

def place (slashes : ℕ) (steps : List String) : Normal :=
  steps.foldl Normal.enter ⟨slashes, []⟩

/-- Whether steps lead down to a place, the last one or one on the way. -/
def Needs (slashes : ℕ) (steps : List String) (p : Normal) : Prop :=
  ∃ before step, before ++ [step] <+: steps ∧ step ≠ ".." ∧
    place slashes (before ++ [step]) = p

theorem place_concat (slashes : ℕ) (steps : List String) (step : String) :
    place slashes (steps ++ [step]) = (place slashes steps).enter step := by
  rw [place, List.foldl_append]
  rfl

theorem place_written (path : String) :
    place (written path).slashes (written path).steps = read path :=
  foldl_enter_written path

theorem needs_concat :
    Needs slashes (steps ++ [step]) p ↔
      Needs slashes steps p ∨ (step ≠ ".." ∧ place slashes (steps ++ [step]) = p) := by
  constructor
  · rintro ⟨before, last, hpre, hlast, hplace⟩
    rcases List.prefix_concat_iff.mp hpre with heq | hpre
    · obtain ⟨rfl, hsame⟩ := List.append_inj' heq rfl
      obtain rfl := List.singleton_inj.mp hsame
      exact Or.inr ⟨hlast, hplace⟩
    · exact Or.inl ⟨before, last, hpre, hlast, hplace⟩
  · rintro (⟨before, last, hpre, hlast, hplace⟩ | ⟨hstep, hplace⟩)
    · exact ⟨before, last, hpre.trans (List.prefix_append _ _), hlast, hplace⟩
    · exact ⟨steps, step, List.prefix_rfl, hstep, hplace⟩

theorem not_needs_nil : ¬ Needs slashes [] p := by
  rintro ⟨before, step, hpre, -⟩
  exact absurd (List.prefix_nil.mp hpre) (by simp)

/-! ## Texts of places -/

theorem place_eq (slashes : ℕ) (steps : List String) :
    place slashes steps =
      ⟨slashes, (steps.foldl (takeStep (slashes != 0)) []).reverse⟩ :=
  foldl_enter slashes steps []

theorem read_text_place (hslashes : slashes ≤ 2) (h : ∀ s ∈ steps, '/' ∉ s.toList) :
    read (place slashes steps).text = place slashes steps := by
  rw [place_eq]
  refine read_text ?_ hslashes
  rw [List.reverse_reverse]
  exact settled_foldl_takeStep h .nil

theorem place_eq_of_text (hslashes : slashes ≤ 2) (h : ∀ s ∈ steps, '/' ∉ s.toList)
    (hslashes' : slashes' ≤ 2) (h' : ∀ s ∈ steps', '/' ∉ s.toList)
    (htext : (place slashes steps).text = (place slashes' steps').text) :
    place slashes steps = place slashes' steps' := by
  rw [← read_text_place hslashes h, htext, read_text_place hslashes' h']

theorem read_normalize (path : String) : read (normalize path) = read path :=
  read_text (settled_read path) (keptSlashes_le _)

theorem place_read {path : String} (h : steps <+: (read path).steps) :
    place (read path).slashes steps = ⟨(read path).slashes, steps⟩ := by
  obtain ⟨rest, hrest⟩ := h
  have hsettled := settled_read path
  rw [← hrest, List.reverse_append] at hsettled
  have hall : Settled ((read path).slashes != 0) (steps.reverse ++ []) := by
    rw [List.append_nil]
    exact hsettled.of_append
  rw [place_eq, foldl_takeStep_of_settled hall, List.append_nil, List.reverse_reverse]

def Encloses (p q : Normal) : Prop :=
  q.slashes = p.slashes ∧ p.steps.length < q.steps.length ∧ p.steps <+: q.steps

theorem length_text_concat (slashes : ℕ) (steps : List String) (h : step ≠ "") :
    (Normal.mk slashes steps).text.utf8ByteSize ≤
      (Normal.mk slashes (steps ++ [step])).text.utf8ByteSize := by
  obtain ⟨rest, hrest, hbody⟩ : ∃ rest, rest ≠ "" ∧
      "/".intercalate (steps ++ [step]) = "/".intercalate steps ++ rest := by
    by_cases hsteps : steps = []
    · subst hsteps
      exact ⟨step, h, by simp⟩
    · refine ⟨"/" ++ step, by simp, ?_⟩
      rw [String.intercalate_append_of_ne_nil hsteps (List.cons_ne_nil _ _),
        String.intercalate_singleton, String.append_assoc]
  have hlonger : 0 < rest.utf8ByteSize := by
    rw [Nat.pos_iff_ne_zero, ne_eq, String.utf8ByteSize_eq_zero_iff]
    exact hrest
  have hdot : ".".utf8ByteSize = 1 := rfl
  simp only [Normal.text, hbody, ← String.append_assoc]
  generalize String.ofList (List.replicate slashes '/') ++ "/".intercalate steps = whole
  have hmore : (whole ++ rest).isEmpty = false := by
    rw [← Bool.not_eq_true, String.isEmpty_iff]
    exact fun hnil => hrest (String.append_eq_empty_iff.mp hnil).2
  rw [hmore, if_neg Bool.false_ne_true, String.utf8ByteSize_append]
  split
  · omega
  · omega

theorem length_text_le (h : steps' <+: steps) (hsteps : ∀ s ∈ steps, s ≠ "") :
    (Normal.mk slashes steps').text.utf8ByteSize ≤
      (Normal.mk slashes steps).text.utf8ByteSize := by
  obtain ⟨rest, rfl⟩ := h
  induction rest using List.reverseRecOn with
  | nil => rw [List.append_nil]
  | append_singleton rest s ih =>
      rw [← List.append_assoc] at hsteps ⊢
      refine (ih fun s' hs' => hsteps s' (List.mem_append_left _ hs')).trans ?_
      exact length_text_concat slashes _ (hsteps s (by simp))

end ClientSdk.Path
