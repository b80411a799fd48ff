import ClientSdk.Proofs.Path.Absolute
import Mathlib.Data.List.TakeWhile

/-!
# Ways between paths

The way from a directory to a target leads there: taken from the steps of the
directory, it arrives at the steps of the target (`foldl_takeStep_stepsFrom`).  Ways are
taken between places below the root, where nothing leads up, and so a way tells its
target (`stepsFrom_injective`): a file names two targets by one text if and only if they
are one place (`specifier_eq_iff`).  If neither the file nor the target leads out of the
working directory, the text under which the file names the target (`specifier`) can be
joined to the directory of the file and read as the target again
(`read_join_specifier`).
-/

namespace ClientSdk.Path

/-- A path that is relative and does not lead out of the directory it starts in. -/
structure Inside (path : String) : Prop where
  relative : (read (turnSlashes path)).slashes = 0
  no_up : ".." ∉ (read (turnSlashes path)).steps

/-! ## The way in steps -/

theorem dropCommon_eq (start target : List String) :
    ∃ common, start = common ++ (dropCommon start target).1 ∧
      target = common ++ (dropCommon start target).2 := by
  induction start generalizing target with
  | nil => exact ⟨[], rfl, by simp [dropCommon]⟩
  | cons p ps ih =>
      cases target with
      | nil => exact ⟨[], rfl, rfl⟩
      | cons q qs =>
          by_cases hpq : p = q
          · subst hpq
            obtain ⟨common, hps, hqs⟩ := ih qs
            simp only [dropCommon]
            exact ⟨p :: common, congrArg (p :: ·) hps, congrArg (p :: ·) hqs⟩
          · exact ⟨[], by simp [dropCommon, hpq], by simp [dropCommon, hpq]⟩

theorem stepsFrom_eq (start target : List String) :
    stepsFrom start target = (dropCommon start target).1.map (fun _ => "..") ++
      (dropCommon start target).2 := rfl

theorem foldl_takeStep_stepsFrom {start target : List String}
    (hstart : ".." ∉ start) (htarget : Settled false target.reverse) :
    (stepsFrom start target).foldl (takeStep false) start.reverse =
      target.reverse := by
  obtain ⟨common, hup, hdown⟩ := dropCommon_eq start target
  have hfrom := stepsFrom_eq start target
  generalize (dropCommon start target).1 = up at hup hfrom
  generalize (dropCommon start target).2 = down at hdown hfrom
  -- No step of the directory leads up, so the way back takes each of them back.
  have hback : (up.map fun _ => "..").foldl (takeStep false)
      (up.reverse ++ common.reverse) = common.reverse := by
    have hne : ∀ s ∈ up.reverse, s ≠ ".." := fun s hs heq =>
      hstart (hup ▸ List.mem_append_right _ (heq ▸ List.mem_reverse.mp hs))
    have hmap : (up.map fun _ => "..") = up.reverse.map fun _ => ".." := by
      simp [List.map_const']
    rw [hmap]
    exact foldl_takeStep_up hne common.reverse
  rw [hfrom, List.foldl_append, hup, List.reverse_append, hback, hdown,
    List.reverse_append]
  refine foldl_takeStep_of_settled ?_
  rwa [← List.reverse_append, ← hdown]

theorem count_up_map (up : List String) : (up.map fun _ => "..").count ".." = up.length := by
  rw [List.map_const', List.count_replicate_self]

theorem stepsFrom_append_left (above start target : List String) :
    stepsFrom (above ++ start) (above ++ target) = stepsFrom start target := by
  have hdrop : dropCommon (above ++ start) (above ++ target) = dropCommon start target := by
    induction above with
    | nil => rfl
    | cons s above ih => rw [List.cons_append, List.cons_append, dropCommon, if_pos rfl, ih]
  rw [stepsFrom_eq, stepsFrom_eq, hdrop]

theorem stepsFrom_injective {start target target' : List String} (hup : ".." ∉ target)
    (hup' : ".." ∉ target') (h : stepsFrom start target = stepsFrom start target') :
    target = target' := by
  obtain ⟨common, hstart, htarget⟩ := dropCommon_eq start target
  obtain ⟨common', hstart', htarget'⟩ := dropCommon_eq start target'
  rw [stepsFrom_eq, stepsFrom_eq] at h
  generalize (dropCommon start target).1 = up at hstart h
  generalize (dropCommon start target).2 = down at htarget h
  generalize (dropCommon start target').1 = up' at hstart' h
  generalize (dropCommon start target').2 = down' at htarget' h
  subst htarget htarget'
  have hdown : ".." ∉ down := fun hmem => hup (List.mem_append_right _ hmem)
  have hdown' : ".." ∉ down' := fun hmem => hup' (List.mem_append_right _ hmem)
  have hcount := congrArg (List.count "..") h
  rw [List.count_append, List.count_append, count_up_map, count_up_map,
    List.count_eq_zero_of_not_mem hdown, List.count_eq_zero_of_not_mem hdown'] at hcount
  have hlen : up.length = up'.length := hcount
  obtain ⟨-, rfl⟩ := List.append_inj h (by simpa using hlen)
  obtain ⟨rfl, -⟩ := List.append_inj' (hstart.symm.trans hstart') hlen
  rfl

theorem settled_up (up : List String) : Settled false (up.map fun _ => "..") := by
  induction up with
  | nil => exact .nil
  | cons s rest ih => exact .cons isStep_up (fun _ => ⟨rfl, by simp⟩) ih

theorem settled_stepsFrom {start target : List String} (hup : ".." ∉ target)
    (hstep : ∀ s ∈ target, IsStep s) : Settled false (stepsFrom start target).reverse := by
  obtain ⟨common, -, htarget⟩ := dropCommon_eq start target
  have hmap : ((dropCommon start target).1.map fun _ => "..").reverse =
      (dropCommon start target).1.map fun _ => ".." := by
    simp [List.map_const']
  have hways : (stepsFrom start target).reverse =
      (dropCommon start target).2.reverse ++
        (dropCommon start target).1.map fun _ => ".." := by
    rw [← hmap, ← List.reverse_append, stepsFrom_eq]
  rw [hways]
  refine (settled_up _).append_of_ne_up fun s hs => ?_
  have hs' : s ∈ target := by
    rw [htarget]
    exact List.mem_append_right _ (List.mem_reverse.mp hs)
  exact ⟨hstep s hs', fun heq => hup (heq ▸ hs')⟩

theorem no_slash_of_mem_stepsFrom {start target : List String}
    (h : ∀ s ∈ target, '/' ∉ s.toList) :
    ∀ s ∈ stepsFrom start target, '/' ∉ s.toList := by
  intro s hs
  obtain ⟨common, -, hdown⟩ := dropCommon_eq start target
  rcases List.mem_append.mp hs with hs | hs
  · obtain ⟨_, _, rfl⟩ := List.mem_map.mp hs
    decide
  · exact h s (hdown ▸ List.mem_append_right common hs)

theorem relative_eq (here : WorkingDirectory) (target start : String) :
    relative here target start =
      stepsText (stepsFrom (absolute here start) (absolute here target)) := by
  unfold relative stepsText
  split <;> simp_all

/-! ## The directory of a file -/

theorem getLast?_join {steps : List String} (h : ∀ s ∈ steps, IsStep s) :
    (Text.join '/' (steps.map String.toList)).getLast? ≠ some '/' := by
  rcases List.eq_nil_or_concat' steps with rfl | ⟨above, last, rfl⟩
  · simp [Text.join]
  have hstep := h last (by simp)
  have hne : last.toList ≠ [] := by
    simpa [String.toList_eq_nil_iff] using hstep.ne_empty
  have hend : (Text.join '/' ((above ++ [last]).map String.toList)).getLast? =
      last.toList.getLast? := by
    rw [List.map_append, List.map_singleton]
    by_cases habove : above = []
    · subst habove
      rfl
    · rw [Text.join_concat (by simpa using habove),
        List.getLast?_append_of_ne_nil _ (by simp), List.getLast?_cons_of_ne_nil hne]
  rw [hend]
  exact fun hlast => hstep.no_slash (List.mem_of_getLast? hlast)

theorem directory_of_no_slash {path : String} (h : '/' ∉ path.toList) :
    directory path = "" := by
  have hhead : path.toList.reverse.dropWhile (· != '/') = [] := by
    rw [List.dropWhile_eq_nil_iff]
    intro c hc
    have hc' : c ≠ '/' := fun heq => h (heq ▸ List.mem_reverse.mp hc)
    simpa using hc'
  simp [directory, hhead]

theorem directory_of_toList {path : String} {above last : List Char}
    (hpath : path.toList = above ++ '/' :: last) (hne : above ≠ [])
    (habove : above.getLast? ≠ some '/') (hlast : '/' ∉ last) :
    directory path = String.ofList above := by
  have hhead : path.toList.reverse.dropWhile (· != '/') = '/' :: above.reverse := by
    have hall : ∀ c ∈ last.reverse, (c != '/') = true := by
      intro c hc
      have hc' : c ≠ '/' := fun heq => hlast (heq ▸ List.mem_reverse.mp hc)
      simpa using hc'
    rw [hpath, List.reverse_append, List.reverse_cons, List.append_assoc,
      List.dropWhile_append_of_pos hall]
    simp
  cases habv : above.reverse with
  | nil => exact absurd (List.reverse_eq_nil_iff.mp habv) hne
  | cons c rest =>
      have hc : c ≠ '/' := by
        intro heq
        rw [← List.head?_reverse, habv, heq] at habove
        exact habove rfl
      have hback : above = (c :: rest).reverse := by
        rw [← habv, List.reverse_reverse]
      simp only [directory, hhead, habv]
      simp [hc, hback]

theorem directory_stepsText {steps : List String} (h : ∀ s ∈ steps, IsStep s) :
    directory (stepsText steps) = "/".intercalate steps.dropLast := by
  rcases List.eq_nil_or_concat' steps with rfl | ⟨above, last, rfl⟩
  · decide
  have hlast := h last (by simp)
  have habove : ∀ s ∈ above, IsStep s := fun s hs => h s (List.mem_append_left _ hs)
  rw [List.dropLast_concat, stepsText_of_ne_nil (by simp)]
  by_cases hne : above = []
  · subst hne
    refine directory_of_no_slash ?_
    simpa using hlast.no_slash
  · have hchars : ("/".intercalate (above ++ [last])).toList =
        ("/".intercalate above).toList ++ '/' :: last.toList := by
      simp only [Text.toList_intercalate_eq_join toList_slash, List.map_append]
      exact Text.join_concat (by simpa using hne) _
    rw [directory_of_toList hchars ?_ ?_ hlast.no_slash, String.ofList_toList]
    · rw [ne_eq, String.toList_eq_nil_iff,
        intercalate_eq_empty_iff fun s hs => (habove s hs).ne_empty]
      exact hne
    · rw [Text.toList_intercalate_eq_join toList_slash]
      exact getLast?_join habove

theorem Inside.clean_eq {path : String} (h : Inside path) :
    clean path = stepsText (read (turnSlashes path)).steps := by
  rw [clean, normalize, ← Normal.text_relative fun s hs => (isStep_of_mem_read hs).ne_empty,
    ← h.relative]

/-! ## The text under which a file names a target -/

/-- A target as the file at `file` names it: the way from the directory of the
file, which is made to begin with a point. -/
def specifier (here : WorkingDirectory) (file target : String) : String :=
  let above := directory file
  let way := relative here target (if above.isEmpty then "." else above)
  if way.toList.head? = some '.' then way else "./" ++ way

def directoryPlace (here : WorkingDirectory) (file : String) : List String :=
  absolute here (if (directory file).isEmpty then "." else directory file)

/-- The text of a way, made to begin with a point. -/
def pointedText (way : List String) : String :=
  if (stepsText way).toList.head? = some '.' then stepsText way else "./" ++ stepsText way

theorem specifier_eq (here : WorkingDirectory) (file target : String) :
    specifier here file target =
      pointedText (stepsFrom (directoryPlace here file) (absolute here target)) := by
  simp only [specifier, relative_eq]
  rfl

theorem head?_specifier (here : WorkingDirectory) (file target : String) :
    (specifier here file target).toList.head? = some '.' := by
  rw [specifier_eq, pointedText]
  generalize stepsText _ = way
  by_cases hway : way.toList.head? = some '.'
  · rw [if_pos hway]
    exact hway
  · rw [if_neg hway, String.toList_append]
    rfl

theorem foldl_takeStep_specifier (here : WorkingDirectory) (file target : String)
    (taken : List String) :
    (Text.splitAt '/' (specifier here file target)).foldl (takeStep false) taken =
      (stepsFrom (directoryPlace here file) (absolute here target)).foldl
        (takeStep false) taken := by
  have hslash : ∀ s ∈ stepsFrom (directoryPlace here file) (absolute here target), '/' ∉ s.toList :=
    no_slash_of_mem_stepsFrom fun s hs => (isStep_of_mem_absolute hs).no_slash
  rw [specifier_eq, pointedText]
  generalize stepsFrom (directoryPlace here file) (absolute here target) = way at hslash ⊢
  split
  · exact foldl_takeStep_stepsText hslash taken
  · have hcut : Text.splitAt '/' "." = ["."] := by decide
    have hdot : "./" ++ stepsText way = "." ++ "/" ++ stepsText way := rfl
    rw [hdot, Text.splitAt_append toList_slash, List.foldl_append, hcut,
      List.foldl_cons, List.foldl_nil, takeStep_of_blank (Or.inr rfl)]
    exact foldl_takeStep_stepsText hslash taken

theorem foldl_takeStep_way (here : WorkingDirectory) (start : List String) (target : String) :
    (stepsFrom start (absolute here target)).foldl (takeStep false) [] =
      (stepsFrom start (absolute here target)).reverse := by
  have hsettled : Settled false (stepsFrom start (absolute here target)).reverse :=
    settled_stepsFrom (no_up_absolute here target) fun s hs => isStep_of_mem_absolute hs
  rw [← List.append_nil (List.reverse _)] at hsettled
  rw [foldl_takeStep_of_settled hsettled, List.append_nil]

/-- A file names two targets by one text if and only if they are one place. -/
theorem specifier_eq_iff {here : WorkingDirectory} {file target target' : String} :
    specifier here file target = specifier here file target' ↔
      absolute here target = absolute here target' := by
  constructor
  · intro hsame
    have hway := foldl_takeStep_specifier here file target []
    rw [hsame, foldl_takeStep_specifier here file target', foldl_takeStep_way,
      foldl_takeStep_way, List.reverse_inj] at hway
    exact stepsFrom_injective (no_up_absolute here target) (no_up_absolute here target') hway.symm
  · intro hsame
    rw [specifier_eq, specifier_eq, hsame]

theorem Settled.relative {rooted : Bool} {taken : List String}
    (h : Settled rooted taken) : Settled false taken := by
  induction h with
  | nil => exact .nil
  | cons hstep hbottom _ ih => exact .cons hstep (fun hup => ⟨rfl, (hbottom hup).2⟩) ih

/-- A path joined to a directory: its steps are taken from those of the
directory. -/
theorem read_join_intercalate {steps : List String} (h : Settled false steps.reverse)
    {path : String} (hpath : path.toList.head? ≠ some '/') :
    read (join ("/".intercalate steps) path) =
      ⟨0, ((Text.splitAt '/' path).foldl (takeStep false) steps.reverse).reverse⟩ := by
  have hstep : ∀ s ∈ steps, IsStep s := fun s hs =>
    h.isStep s (List.mem_reverse.mpr hs)
  have hempty := intercalate_eq_empty_iff fun s hs => (hstep s hs).ne_empty
  by_cases hne : steps = []
  · subst hne
    have hjoin : join ("/".intercalate []) path = path := by
      have hemp : ("/".intercalate []).isEmpty := rfl
      rw [join, if_neg hpath, if_pos (Or.inl hemp)]
      exact String.empty_append
    have hslashes := keptSlashes_eq_zero hpath
    rw [hjoin]
    simp [read, hslashes]
  · have htext := stepsText_of_ne_nil hne
    have hjoin : join ("/".intercalate steps) path =
        "/".intercalate steps ++ "/" ++ path := by
      rw [join, if_neg hpath, if_neg]
      rintro (hemp | hlast)
      · exact hne (hempty.mp (String.isEmpty_iff.mp hemp))
      · rw [Text.toList_intercalate_eq_join toList_slash] at hlast
        exact getLast?_join hstep hlast
    have hslashes : keptSlashes (join ("/".intercalate steps) path).toList = 0 := by
      have hchars : ("/".intercalate steps).toList ≠ [] := fun hnil =>
        hne (hempty.mp (String.toList_eq_nil_iff.mp hnil))
      refine keptSlashes_eq_zero ?_
      rw [hjoin, String.append_assoc, String.toList_append,
        List.head?_append_of_ne_nil _ hchars, ← htext]
      exact head?_stepsText hstep
    have hfold : (Text.splitAt '/' ("/".intercalate steps)).foldl (takeStep false) [] =
        steps.reverse := by
      have hall : Settled false (steps.reverse ++ []) := by rwa [List.append_nil]
      rw [← htext, foldl_takeStep_stepsText fun s hs => (hstep s hs).no_slash,
        foldl_takeStep_of_settled hall, List.append_nil]
    simp only [read, hslashes, bne_self_eq_false]
    rw [hjoin, Text.splitAt_append toList_slash, List.foldl_append, hfold]

/-- Joined to the directory of the file, a specifier is read as its target. -/
theorem read_join_specifier (here : WorkingDirectory) {file target : String}
    (hfile : Inside file) (htarget : Within target) :
    read (join (directory (clean file)) (specifier here (clean file) target)) =
      read target := by
  generalize hsteps : (read (turnSlashes file)).steps = steps
  have hsettled : Settled false steps.reverse := hsteps ▸ (settled_read _).relative
  have hup : ".." ∉ steps.dropLast := fun hmem =>
    hfile.no_up (hsteps ▸ List.dropLast_subset _ hmem)
  have habove : Settled false steps.dropLast.reverse :=
    List.tail_reverse ▸ hsettled.tail
  have hstep : ∀ s ∈ steps, IsStep s := fun s hs =>
    hsettled.isStep s (List.mem_reverse.mpr hs)
  have hdir : directory (clean file) = "/".intercalate steps.dropLast := by
    rw [hfile.clean_eq, hsteps, directory_stepsText hstep]
  have hstart : (if (directory (clean file)).isEmpty then "."
      else directory (clean file)) = stepsText steps.dropLast := by
    have hempty := intercalate_eq_empty_iff fun s hs =>
      (hstep s (List.dropLast_subset _ hs)).ne_empty
    by_cases hnil : steps.dropLast = []
    · rw [hdir, hnil]
      rfl
    · rw [hdir, if_neg fun hemp => hnil (hempty.mp (String.isEmpty_iff.mp hemp))]
      exact (stepsText_of_ne_nil hnil).symm
  have houtside : directoryPlace here (clean file) = here.names ++ steps.dropLast := by
    have hread := read_stepsText habove
    have hwithin : Within (stepsText steps.dropLast) := by
      constructor
      · rw [hread]
      · rw [hread]
        exact hup
    rw [directoryPlace, hstart, hwithin.absolute_eq, hread]
  have hhead : (specifier here (clean file) target).toList.head? ≠ some '/' := by
    rw [head?_specifier]
    decide
  have hway := foldl_takeStep_specifier here (clean file) target steps.dropLast.reverse
  rw [houtside, htarget.absolute_eq, stepsFrom_append_left,
    foldl_takeStep_stepsFrom hup (settled_read target).relative] at hway
  have hread : read target = ⟨0, (read target).steps⟩ := by rw [← htarget.relative]
  rw [hdir, read_join_intercalate habove hhead, hway, List.reverse_reverse, ← hread]

/-! ## Targets of files inside -/

theorem eq_dropFinalBreak_append (cs : List Char) :
    ∃ rest, cs = Text.dropFinalBreak cs ++ rest ∧ (rest = [] ∨ rest = ['\n']) := by
  unfold Text.dropFinalBreak
  split
  · next body hrev =>
      exact ⟨['\n'], by rw [← List.reverse_reverse cs, hrev]; simp, Or.inr rfl⟩
  · exact ⟨[], by simp, Or.inl rfl⟩

/-- A location in normal form below the directory of the run. -/
structure Below (target : String) : Prop where
  relative : (read target).slashes = 0
  normal : normalize target = target
  no_up : ".." ∉ (read target).steps

theorem Below.within {target : String} (h : Below target) : Within target :=
  ⟨h.relative, h.no_up⟩

/-- Two locations below the directory of the run are not named by one text, whatever
the file that names them. -/
theorem Below.specifier_injective {here : WorkingDirectory} {file target target' : String}
    (h : Below target) (h' : Below target')
    (hsame : specifier here file target = specifier here file target') : target = target' := by
  have hread := h.within.read_eq h'.within (specifier_eq_iff.mp hsame)
  rw [← h.normal, ← h'.normal, normalize, normalize, hread]

end ClientSdk.Path
