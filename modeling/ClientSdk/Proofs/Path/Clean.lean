import ClientSdk.Proofs.Path.Place
import ClientSdk.Proofs.Text.Identifier
import ClientSdk.Text.Blank

/-!
# Clean paths

A path is cleaned by turning its backslashes and bringing it into normal form.  The normal form
is cut out of the path, so it has no backslash again, and cleaning it once more changes nothing
(`clean_clean`).  It can be left with nothing but blanks, though no blank is taken away: that is
so if all other steps are taken back and one of blanks remains (`forall_blank_clean_iff`).
-/

namespace ClientSdk

/-! ## Blanks and pieces -/

namespace Text

theorem trimChars_eq_nil_iff {cs : List Char} :
    trimChars cs = [] ↔ ∀ c ∈ cs, isBlank c = true := by
  rw [trimChars, trimOf, List.reverse_eq_nil_iff, List.dropWhile_eq_nil_iff]
  constructor
  · intro h
    -- What is left behind the blanks would begin with a character that is none.
    refine List.dropWhile_eq_nil_iff.mp ?_
    cases hrest : cs.dropWhile isBlank with
    | nil => rfl
    | cons c rest =>
        have hblank : isBlank c = true := h c (by simp [hrest])
        have hhead : (cs.dropWhile isBlank).head? = some c := by rw [hrest]; rfl
        have hfirst := List.head?_dropWhile_not isBlank cs
        rw [hhead] at hfirst
        exact absurd (hblank.symm.trans hfirst) (by decide)
  · intro h c hc
    rw [List.dropWhile_eq_nil_iff.mpr h] at hc
    exact absurd hc List.not_mem_nil

theorem mem_join_of_mem {sep c : Char} {p : List Char} {ps : List (List Char)} (hp : p ∈ ps)
    (hc : c ∈ p) : c ∈ join sep ps := by
  induction ps with
  | nil => exact absurd hp List.not_mem_nil
  | cons q rest ih =>
      cases rest with
      | nil =>
          obtain rfl : p = q := List.mem_singleton.mp hp
          exact hc
      | cons q' qs =>
          rw [join_cons (List.cons_ne_nil q' qs), List.mem_append, List.mem_cons]
          rcases List.mem_cons.mp hp with rfl | hp
          · exact .inl hc
          · exact .inr (.inr (ih hp))

theorem mem_of_mem_splitAt {sep c : Char} {s piece : String} (hpiece : piece ∈ splitAt sep s)
    (hc : c ∈ piece.toList) : c ∈ s.toList := by
  obtain ⟨cs, hcs, rfl⟩ := List.mem_map.mp hpiece
  rw [String.toList_ofList] at hc
  rw [← join_pieces sep s.toList]
  exact mem_join_of_mem hcs hc

end Text

namespace Path

variable {path : String}

/-! ## Backslashes -/

theorem mem_of_mem_takeStep {rooted : Bool} {taken : List String} {step s : String}
    (h : s ∈ takeStep rooted taken step) : s ∈ taken ∨ s = step := by
  unfold takeStep at h
  split at h
  · exact .inl h
  split at h
  · next hup =>
      subst hup
      cases taken with
      | nil =>
          cases rooted with
          | true => exact absurd h List.not_mem_nil
          | false => exact .inr (List.mem_singleton.mp h)
      | cons last rest =>
          dsimp only at h
          split at h
          · exact (List.mem_cons.mp h).symm
          · exact .inl (List.mem_cons_of_mem _ h)
  · exact (List.mem_cons.mp h).symm

theorem mem_of_mem_foldl_takeStep {rooted : Bool} {taken steps : List String} {s : String}
    (h : s ∈ steps.foldl (takeStep rooted) taken) : s ∈ taken ∨ s ∈ steps := by
  induction steps generalizing taken with
  | nil => exact .inl h
  | cons step steps ih =>
      rcases ih h with hs | hs
      · rcases mem_of_mem_takeStep hs with hs | rfl
        · exact .inl hs
        · exact .inr List.mem_cons_self
      · exact .inr (List.mem_cons_of_mem _ hs)

theorem mem_of_mem_steps {s : String} (hs : s ∈ (read path).steps) {c : Char}
    (hc : c ∈ s.toList) : c ∈ path.toList := by
  rw [read, List.mem_reverse] at hs
  rcases mem_of_mem_foldl_takeStep hs with hs | hs
  · exact absurd hs List.not_mem_nil
  · exact Text.mem_of_mem_splitAt hs hc

theorem mem_of_mem_normalize {c : Char} (hc : c ∈ (normalize path).toList) :
    c = '/' ∨ c = '.' ∨ c ∈ path.toList := by
  unfold normalize Normal.text at hc
  dsimp only at hc
  split at hc
  · exact .inr (.inl (List.mem_singleton.mp hc))
  · rw [String.toList_append, String.toList_ofList, List.mem_append] at hc
    rcases hc with hc | hc
    · exact .inl (List.eq_of_mem_replicate hc)
    · rw [Text.toList_intercalate_eq_join toList_slash] at hc
      rcases Text.mem_join hc with rfl | ⟨piece, hpiece, hc⟩
      · exact .inl rfl
      · obtain ⟨s, hs, rfl⟩ := List.mem_map.mp hpiece
        exact .inr (.inr (mem_of_mem_steps hs hc))

theorem turnSlashes_of_not_mem (h : '\\' ∉ path.toList) : turnSlashes path = path := by
  have hmap : path.toList.map (fun c => if c = '\\' then '/' else c) = path.toList := by
    refine (List.map_congr_left fun c hc => ?_).trans (List.map_id _)
    exact if_neg fun hslash : c = '\\' => h (hslash ▸ hc)
  rw [turnSlashes, hmap, String.ofList_toList]

theorem backslash_not_mem_turnSlashes (path : String) : '\\' ∉ (turnSlashes path).toList := by
  intro hmem
  rw [turnSlashes, String.toList_ofList] at hmem
  obtain ⟨c, -, hc⟩ := List.mem_map.mp hmem
  split at hc
  · exact absurd hc (by decide)
  · next hne => exact hne hc

theorem backslash_not_mem_clean (path : String) : '\\' ∉ (clean path).toList := by
  intro hmem
  rcases mem_of_mem_normalize hmem with hc | hc | hc
  · exact absurd hc (by decide)
  · exact absurd hc (by decide)
  · exact backslash_not_mem_turnSlashes path hc

theorem clean_clean (path : String) : clean (clean path) = clean path := by
  rw [clean, turnSlashes_of_not_mem (backslash_not_mem_clean path), clean, normalize,
    read_normalize, normalize]

/-! ## Paths of blanks -/

theorem slash_mem_intercalate (s s' : String) (rest : List String) :
    '/' ∈ ("/".intercalate (s :: s' :: rest)).toList := by
  rw [Text.toList_intercalate_eq_join toList_slash, List.map_cons, List.map_cons,
    Text.join_cons (List.cons_ne_nil _ _)]
  exact List.mem_append_right _ List.mem_cons_self

theorem slash_mem_text (slashes : ℕ) (steps : List String) :
    '/' ∈ (Normal.mk (slashes + 1) steps).text.toList := by
  have hslash : '/' ∈ (String.ofList (List.replicate (slashes + 1) '/') ++
      "/".intercalate steps).toList := by
    rw [String.toList_append, String.toList_ofList, List.replicate_succ]
    exact List.mem_append_left _ List.mem_cons_self
  unfold Normal.text
  dsimp only
  split
  · next hempty =>
      rw [String.isEmpty_iff.mp hempty] at hslash
      exact absurd hslash List.not_mem_nil
  · exact hslash

theorem Normal.forall_blank_iff {p : Normal} (h : ∀ s ∈ p.steps, IsStep s) :
    (∀ c ∈ p.text.toList, Text.isBlank c = true) ↔
      ∃ step, p = ⟨0, [step]⟩ ∧ ∀ c ∈ step.toList, Text.isBlank c = true := by
  have hslash : Text.isBlank '/' = false := by decide
  obtain ⟨slashes, steps⟩ := p
  constructor
  · intro hblank
    cases slashes with
    | succ slashes => exact absurd (hblank '/' (slash_mem_text slashes steps)) (by simp [hslash])
    | zero =>
        rw [text_relative fun s hs => (h s hs).ne_empty] at hblank
        match steps with
        | [] => exact absurd (hblank '.' List.mem_cons_self) (by decide)
        | [step] => exact ⟨step, rfl, by simpa [stepsText] using hblank⟩
        | s :: s' :: rest =>
            exact absurd (hblank '/' (slash_mem_intercalate s s' rest)) (by simp [hslash])
  · rintro ⟨step, heq, hblank⟩
    rw [heq] at h ⊢
    rw [text_relative fun s hs => (h s hs).ne_empty]
    simpa [stepsText] using hblank

theorem forall_blank_clean_iff (path : String) :
    (∀ c ∈ (clean path).toList, Text.isBlank c = true) ↔
      ∃ step, read (turnSlashes path) = ⟨0, [step]⟩ ∧
        ∀ c ∈ step.toList, Text.isBlank c = true := by
  rw [clean, normalize]
  exact Normal.forall_blank_iff fun s hs => isStep_of_mem_read hs

end Path

end ClientSdk
