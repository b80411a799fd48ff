import ClientSdk.Proofs.Path.Relative
import ClientSdk.Proofs.Text.Identifier
import Mathlib.Data.List.Induction

/-!
# Files in directories

What is joined to a directory stands one step below it, as it is written
(`written_join`) and as it is reached (`read_join`), and the directory of the joined
path is that directory (`directory_join_join`).  So the places of files are told
apart by their steps.  The steps that are asked for here lead down (`IsEntry`), as
identifiers do (`isEntry_of_identifier`).
-/

namespace ClientSdk

namespace Text

theorem break_not_mem_of_isIdentifierChars {cs : List Char} (h : isIdentifierChars cs = true) :
    '\n' ∉ cs := fun hbreak =>
  absurd ((continues_of_isIdentifierChars h).2 _ hbreak) (by decide)

theorem isIdentifierLine_iff {s : String} : isIdentifierLine s = true ↔
    ∃ cs, isIdentifierChars cs = true ∧ (s.toList = cs ∨ s.toList = cs ++ ['\n']) := by
  constructor
  · intro h
    obtain ⟨rest, hcs, hrest⟩ := Path.eq_dropFinalBreak_append s.toList
    refine ⟨_, h, ?_⟩
    rcases hrest with rfl | rfl
    · exact .inl (hcs.trans (List.append_nil _))
    · exact .inr hcs
  · rintro ⟨cs, hcs, hs | hs⟩ <;> rw [isIdentifierLine, hs]
    · obtain ⟨rest, hrest, rfl | rfl⟩ := Path.eq_dropFinalBreak_append cs
      · rw [List.append_nil] at hrest
        rwa [← hrest]
      · have hbreak : '\n' ∈ cs := hrest ▸ List.mem_append_right _ List.mem_cons_self
        exact absurd hbreak (break_not_mem_of_isIdentifierChars hcs)
    · simpa [dropFinalBreak] using hcs

theorem chars_of_identifierLine {s : String} (h : isIdentifierLine s = true) :
    s.toList ≠ [] ∧ ∀ c ∈ s.toList, continuesIdentifier c = true ∨ c = '\n' := by
  obtain ⟨cs, hcs, hs⟩ := isIdentifierLine_iff.mp h
  obtain ⟨hne, hall⟩ := continues_of_isIdentifierChars hcs
  rcases hs with hs | hs <;> rw [hs]
  · exact ⟨hne, fun c hc => .inl (hall c hc)⟩
  · refine ⟨List.append_ne_nil_of_left_ne_nil hne _, fun c hc => ?_⟩
    exact (List.mem_append.mp hc).imp (hall c) List.mem_singleton.mp

end Text

namespace Path

/-- A step that leads down. -/
structure IsEntry (step : String) : Prop extends IsStep step where
  ne_up : step ≠ ".."

/-- No identifier holds a point, a slash, or a null. -/
theorem not_mem_of_identifierLine {s : String} (h : Text.isIdentifierLine s = true)
    {c : Char} (hc : c = '.' ∨ c = '/' ∨ c = '\x00') : c ∉ s.toList := by
  intro hmem
  rcases (Text.chars_of_identifierLine h).2 c hmem with hcont | rfl
  · rcases hc with rfl | rfl | rfl <;> exact absurd hcont (by decide)
  · rcases hc with hc | hc | hc <;> exact absurd hc (by decide)

theorem isEntry_of_identifier {s : String} (h : Text.isIdentifierLine s = true) :
    IsEntry s where
  ne_empty heq := (Text.chars_of_identifierLine h).1 (by rw [heq]; rfl)
  ne_dot heq := not_mem_of_identifierLine h (Or.inl rfl) (by rw [heq]; decide)
  no_slash := not_mem_of_identifierLine h (Or.inr (Or.inl rfl))
  ne_up heq := not_mem_of_identifierLine h (Or.inl rfl) (by rw [heq]; decide)

variable {step : String}

/-! ## Leading slashes -/

theorem keptSlashes_le (cs : List Char) : keptSlashes cs ≤ 2 := by
  unfold keptSlashes
  split <;> decide

/-- How many of some slashes are kept. -/
def keptOf : Nat → Nat
  | 0 => 0
  | 1 => 1
  | 2 => 2
  | _ => 1

theorem keptSlashes_eq (cs : List Char) :
    keptSlashes cs = keptOf (cs.takeWhile (· == '/')).length := by
  by_cases h₁ : cs.head? = some '/'
  swap
  · rw [keptSlashes_eq_zero h₁]
    cases cs with
    | nil => rfl
    | cons c cs =>
        have hc : (c == '/') = false := by simpa using h₁
        rw [List.takeWhile_cons_of_neg (by simp [hc])]
        rfl
  obtain ⟨cs, rfl⟩ : ∃ rest, cs = '/' :: rest := List.head?_eq_some_iff.mp h₁
  by_cases h₂ : cs.head? = some '/'
  swap
  · cases cs with
    | nil => rfl
    | cons c cs =>
        have hc : c ≠ '/' := by simpa using h₂
        simp [keptSlashes, hc, keptOf]
  obtain ⟨cs, rfl⟩ : ∃ rest, cs = '/' :: rest := List.head?_eq_some_iff.mp h₂
  cases cs with
  | nil => rfl
  | cons c cs =>
      by_cases hc : c = '/' <;> simp [keptSlashes, hc, keptOf]

theorem keptSlashes_append {cs : List Char} (h : ∃ c ∈ cs, c ≠ '/') (ds : List Char) :
    keptSlashes (cs ++ ds) = keptSlashes cs := by
  have hpart : (cs.takeWhile (· == '/')).length ≠ cs.length := by
    obtain ⟨c, hc, hne⟩ := h
    intro hlen
    have hall := (List.takeWhile_prefix (· == '/')).eq_of_length hlen
    have hslash := List.mem_takeWhile_imp (hall ▸ hc)
    exact hne (by simpa using hslash)
  rw [keptSlashes_eq, keptSlashes_eq, List.takeWhile_append, if_neg hpart]

theorem keptSlashes_append_cons {d : Char} (h : d ≠ '/') (cs ds : List Char) :
    keptSlashes (cs ++ d :: ds) = keptSlashes cs := by
  have hstop : (d :: ds).takeWhile (· == '/') = [] :=
    List.takeWhile_cons_of_neg (by simpa using h)
  rw [keptSlashes_eq, keptSlashes_eq, List.takeWhile_append, hstop, List.append_nil]
  split
  · next hall => rw [hall]
  · rfl

/-! ## Paths as they are written -/

theorem steps_written (path : String) : (written path).steps =
    (Text.splitAt '/' path).filter fun step => step != "" && step != "." := rfl

theorem steps_written_append (p q : String) :
    (written (p ++ "/" ++ q)).steps = (written p).steps ++ (written q).steps := by
  rw [steps_written, Text.splitAt_append toList_slash, List.filter_append]
  rfl

theorem steps_written_slash (p : String) : (written (p ++ "/")).steps = (written p).steps := by
  have happend := steps_written_append p ""
  rwa [String.append_empty, show (written "").steps = [] from by decide, List.append_nil]
    at happend

theorem steps_written_step (h : IsStep step) : (written step).steps = [step] := by
  have hcut : Text.splitAt '/' step = [step] := by
    rw [Text.splitAt, Text.pieces_of_not_mem h.no_slash]
    simp
  rw [steps_written, hcut, List.filter_cons_of_pos (by simp [h.ne_empty, h.ne_dot])]
  rfl

theorem join_of_relative {path : String} (h : path.toList.head? ≠ some '/') (d : String) :
    join d path = if d = "" ∨ d.toList.getLast? = some '/' then d ++ path
      else d ++ "/" ++ path := by
  rw [join, if_neg h]
  simp [String.isEmpty_iff]

theorem IsStep.head? (h : IsStep step) : step.toList.head? ≠ some '/' :=
  fun hc => h.no_slash (List.mem_of_head? hc)

theorem join_eq {d : String} (h : IsStep step) :
    join d step = if d = "" ∨ d.toList.getLast? = some '/' then d ++ step
      else d ++ "/" ++ step :=
  join_of_relative h.head? d

/-- What is put behind a relative path can be put behind the joined one. -/
theorem join_append {path : String} (h : path.toList.head? ≠ some '/') (hne : path ≠ "")
    (d ending : String) : join d (path ++ ending) = join d path ++ ending := by
  have hhead : (path ++ ending).toList.head? ≠ some '/' := by
    rw [String.toList_append,
      List.head?_append_of_ne_nil _ (by simpa [String.toList_eq_nil_iff] using hne)]
    exact h
  rw [join_of_relative h, join_of_relative hhead]
  split <;> simp only [String.append_assoc]

theorem exists_ne_slash {p : String} (hne : p ≠ "") (hlast : p.toList.getLast? ≠ some '/') :
    ∃ c ∈ p.toList, c ≠ '/' := by
  cases hp : p.toList.getLast? with
  | none => exact absurd (String.toList_eq_nil_iff.mp (List.getLast?_eq_none_iff.mp hp)) hne
  | some c => exact ⟨c, List.mem_of_getLast? hp, fun heq => hlast (by rw [hp, heq])⟩

theorem written_join_of_relative (d : String) {path : String}
    (h : path.toList.head? ≠ some '/') (hne : path ≠ "") :
    written (join d path) =
      ⟨(written d).slashes, (written d).steps ++ (written path).steps⟩ := by
  obtain ⟨c, rest, hpath⟩ : ∃ c rest, path.toList = c :: rest := by
    cases hs : path.toList with
    | nil => exact absurd (String.toList_eq_nil_iff.mp hs) hne
    | cons c rest => exact ⟨c, rest, rfl⟩
  have hc : c ≠ '/' := fun heq => h (by rw [hpath, heq]; rfl)
  have hparts : ∀ whole, (written whole).slashes = (written d).slashes →
      (written whole).steps = (written d).steps ++ (written path).steps →
        written whole =
          ⟨(written d).slashes, (written d).steps ++ (written path).steps⟩ := by
    intro whole hslashes hsteps
    rw [← hslashes, ← hsteps]
  rw [join_of_relative h]
  split
  · next hend =>
      refine hparts _ ?_ ?_
      · rw [written, String.toList_append, hpath]
        exact keptSlashes_append_cons hc _ _
      · rcases hend with rfl | hend
        · rw [String.empty_append]
          rfl
        · obtain ⟨cs, hcs⟩ := List.getLast?_eq_some_iff.mp hend
          have hd : d = String.ofList cs ++ "/" := by
            rw [← String.ofList_toList (s := d), hcs, String.ofList_append]
          rw [hd, steps_written_append, steps_written_slash]
  · next hend =>
      obtain ⟨hnil, hlast⟩ := not_or.mp hend
      refine hparts _ ?_ (steps_written_append d path)
      rw [written, String.append_assoc, String.toList_append]
      exact keptSlashes_append (exists_ne_slash hnil hlast) _

/-- What is joined to a directory is written as one more step. -/
theorem written_join (d : String) (h : IsStep step) :
    written (join d step) = ⟨(written d).slashes, (written d).steps ++ [step]⟩ := by
  rw [written_join_of_relative d h.head? h.ne_empty, steps_written_step h]

/-! ## The directory of a joined path -/

theorem getLast?_join_step (d : String) (h : IsStep step) :
    (join d step).toList ≠ [] ∧ (join d step).toList.getLast? ≠ some '/' := by
  have hne : step.toList ≠ [] := by
    simpa [String.toList_eq_nil_iff] using h.ne_empty
  obtain ⟨front, hfront⟩ : ∃ front, (join d step).toList = front ++ step.toList := by
    rw [join_eq h]
    split
    · exact ⟨d.toList, String.toList_append⟩
    · exact ⟨(d ++ "/").toList, String.toList_append⟩
  rw [hfront, List.getLast?_append_of_ne_nil _ hne]
  exact ⟨fun hnil => hne (List.append_eq_nil_iff.mp hnil).2,
    fun hlast => h.no_slash (List.mem_of_getLast? hlast)⟩

theorem directory_join_join (d : String) {step' : String} (h : IsStep step)
    (h' : IsStep step') : directory (join (join d step) step') = join d step := by
  obtain ⟨hne, hlast⟩ := getLast?_join_step d h
  have hjoin : join (join d step) step' = join d step ++ "/" ++ step' := by
    rw [join_eq h', if_neg]
    rintro (hempty | hslash)
    · exact hne (String.toList_eq_nil_iff.mpr hempty)
    · exact hlast hslash
  have hchars : (join (join d step) step').toList =
      (join d step).toList ++ '/' :: step'.toList := by
    rw [hjoin, String.append_assoc, String.toList_append, String.toList_append]
    rfl
  rw [directory_of_toList hchars hne hlast h'.no_slash, String.ofList_toList]

/-! ## Places -/

theorem foldl_enter (slashes : ℕ) (steps taken : List String) :
    steps.foldl Normal.enter ⟨slashes, taken.reverse⟩ =
      ⟨slashes, (steps.foldl (takeStep (slashes != 0)) taken).reverse⟩ := by
  induction steps generalizing taken with
  | nil => rfl
  | cons step rest ih =>
      rw [List.foldl_cons, List.foldl_cons, ← ih]
      simp [Normal.enter]

theorem foldl_enter_written (path : String) :
    (written path).steps.foldl Normal.enter ⟨(written path).slashes, []⟩ = read path := by
  have hfold := foldl_enter (written path).slashes (written path).steps []
  have hblank : ∀ (taken : List String) (steps : List String) (rooted : Bool),
      (steps.filter fun step => step != "" && step != ".").foldl (takeStep rooted) taken =
        steps.foldl (takeStep rooted) taken := by
    intro taken steps rooted
    induction steps generalizing taken with
    | nil => rfl
    | cons step rest ih =>
        by_cases hstep : step = "" ∨ step = "."
        · rw [List.filter_cons_of_neg (by simpa [or_iff_not_imp_left] using hstep), ih,
            List.foldl_cons, takeStep_of_blank hstep]
        · rw [List.filter_cons_of_pos (by simpa using hstep), List.foldl_cons, ih,
            List.foldl_cons]
  rw [List.reverse_nil] at hfold
  rw [hfold, steps_written, hblank]
  rfl

theorem enter_of_entry (p : Normal) (h : IsEntry step) :
    p.enter step = ⟨p.slashes, p.steps ++ [step]⟩ := by
  rw [Normal.enter, takeStep_of_ne_up h.toIsStep h.ne_up]
  simp

theorem read_join (d : String) (h : IsEntry step) :
    read (join d step) = ⟨(read d).slashes, (read d).steps ++ [step]⟩ := by
  rw [← foldl_enter_written, written_join d h.toIsStep, List.foldl_append,
    foldl_enter_written, List.foldl_cons, List.foldl_nil, enter_of_entry _ h]

/-! ## Texts of normal forms -/

theorem steps_written_intercalate {steps : List String} (h : ∀ s ∈ steps, IsStep s) :
    (written ("/".intercalate steps)).steps = steps := by
  cases steps with
  | nil => decide
  | cons s rest =>
      rw [steps_written, Text.splitAt_intercalate toList_slash (List.cons_ne_nil s rest)
        fun s hs => (h s hs).no_slash]
      refine List.filter_eq_self.mpr fun s hs => ?_
      simp [(h s hs).ne_empty, (h s hs).ne_dot]

theorem written_text {p : Normal} (h : ∀ s ∈ p.steps, IsStep s) (hslashes : p.slashes ≤ 2) :
    written p.text = p := by
  obtain ⟨slashes, steps⟩ := p
  have hbody := steps_written_intercalate h
  have hhead : ∀ c rest, ("/".intercalate steps).toList = c :: rest → c ≠ '/' := by
    intro c rest hchars heq
    cases steps with
    | nil => exact List.cons_ne_nil c rest hchars.symm
    | cons s steps =>
        have hfirst := head?_stepsText h
        rw [stepsText_of_ne_nil (List.cons_ne_nil s steps), hchars, heq] at hfirst
        exact hfirst rfl
  have hparts : ∀ whole, (written whole).slashes = slashes →
      (written whole).steps = steps → written whole = ⟨slashes, steps⟩ := by
    intro whole hs hsteps
    rw [← hs, ← hsteps]
  have hkept : ∀ n, n ≤ 2 →
      keptSlashes (List.replicate n '/' ++ ("/".intercalate steps).toList) = n := by
    intro n hn
    have hplain : keptSlashes (List.replicate n '/') = n := by
      obtain rfl | rfl | rfl : n = 0 ∨ n = 1 ∨ n = 2 := by omega
      all_goals rfl
    cases hchars : ("/".intercalate steps).toList with
    | nil => rw [List.append_nil, hplain]
    | cons c rest => rw [keptSlashes_append_cons (hhead c rest hchars), hplain]
  have hcases : slashes ≤ 2 := hslashes
  obtain rfl | rfl | rfl : slashes = 0 ∨ slashes = 1 ∨ slashes = 2 := by omega
  · rw [Normal.text_relative fun s hs => (h s hs).ne_empty]
    cases steps with
    | nil => decide
    | cons s rest =>
        rw [stepsText_of_ne_nil (List.cons_ne_nil s rest)]
        exact hparts _ (hkept 0 (by decide)) hbody
  · have htext : (Normal.mk 1 steps).text = "" ++ "/" ++ "/".intercalate steps := by
      simp [Normal.text]
    rw [htext]
    refine hparts _ ?_ (by rw [steps_written_append, hbody]; rfl)
    rw [written, String.toList_append]
    exact hkept 1 (by decide)
  · have htext : (Normal.mk 2 steps).text = "//" ++ "/".intercalate steps := by
      simp [Normal.text]
    have hcut : "//" ++ "/".intercalate steps =
        "" ++ "/" ++ ("" ++ "/" ++ "/".intercalate steps) := by
      rw [← String.append_assoc]
      rfl
    refine hparts _ ?_ ?_
    · rw [htext, written, String.toList_append]
      exact hkept 2 (by decide)
    · rw [htext, hcut, steps_written_append, steps_written_append, hbody]
      rfl

theorem read_text {p : Normal} (h : Settled (p.slashes != 0) p.steps.reverse)
    (hslashes : p.slashes ≤ 2) : read p.text = p := by
  have hwritten := written_text (fun s hs => h.isStep s (List.mem_reverse.mpr hs)) hslashes
  have hall : Settled (p.slashes != 0) (p.steps.reverse ++ []) := by rwa [List.append_nil]
  have hfold := foldl_enter p.slashes p.steps []
  rw [foldl_takeStep_of_settled hall, List.append_nil, List.reverse_reverse] at hfold
  rw [← foldl_enter_written, hwritten]
  exact hfold

theorem isStep_of_mem_written {path s : String} (h : s ∈ (written path).steps) :
    IsStep s := by
  obtain ⟨hcut, hstep⟩ := List.mem_filter.mp h
  simp only [bne_iff_ne, ne_eq, Bool.and_eq_true] at hstep
  exact ⟨hstep.1, hstep.2, Text.not_mem_of_mem_splitAt hcut⟩

theorem written_tidy (path : String) : written (tidy path) = written path :=
  written_text (fun _ hs => isStep_of_mem_written hs) (keptSlashes_le _)

theorem written_eq_of_tidy {p q : String} (h : tidy p = tidy q) : written p = written q := by
  rw [← written_tidy p, h, written_tidy]

end Path

end ClientSdk
