import ClientSdk.Stub.Call
import ClientSdk.Proofs.Except
import ClientSdk.Proofs.Text.Margin

/-!
# Where comments end

A comment ends at the first `*/`, wherever that comes from.  The block of a comment has one
at its end, so it is one comment if and only if its text has none (`closes_block_iff`).
Nothing in a block is rewritten on the way from the document: the text has an end mark if
and only if one of the texts has that it is made of (`hasEnd_body_iff`, `hasEnd_comment_iff`).
To move a block in changes neither (`afterEnd?_moved`).
-/

namespace ClientSdk

namespace Comment

/-! ## End marks -/

/-- What stands behind the first end mark. -/
def afterEnd? : List Char → Option (List Char)
  | [] => none
  | c :: cs => if c = '*' ∧ cs.head? = some '/' then some cs.tail else afterEnd? cs

def HasEnd (s : String) : Prop :=
  Text.Occurs "*/" s

/-- Whether the first end mark is the end of the text, so that the text is one comment. -/
def Closes (cs : List Char) : Prop :=
  afterEnd? cs = some []

instance (s : String) : Decidable (HasEnd s) :=
  inferInstanceAs (Decidable (_ <:+: _))

instance (cs : List Char) : Decidable (Closes cs) :=
  inferInstanceAs (Decidable (_ = _))

variable {cs : List Char}

theorem afterEnd?_eq_none_iff : afterEnd? cs = none ↔ ¬ ['*', '/'] <:+: cs := by
  induction cs with
  | nil => simp [afterEnd?]
  | cons c cs ih =>
      rw [afterEnd?, List.infix_cons_iff, List.cons_prefix_cons]
      have hhead : ['/'] <+: cs ↔ cs.head? = some '/' := by
        cases cs with
        | nil => simp
        | cons d ds => simp [List.cons_prefix_cons, eq_comm]
      rw [hhead]
      split
      · next hend => simp [hend.1, hend.2]
      · next hend =>
          rw [ih, not_or]
          refine ⟨fun hrest => ⟨fun ⟨hc, hcs⟩ => hend ⟨hc.symm, hcs⟩, hrest⟩, And.right⟩

theorem hasEnd_iff {s : String} : HasEnd s ↔ ∃ rest, afterEnd? s.toList = some rest := by
  rw [← Option.ne_none_iff_exists', Ne, afterEnd?_eq_none_iff, not_not]
  rfl

theorem afterEnd?_append {rest : List Char} (h : afterEnd? cs = some rest) (bs : List Char) :
    afterEnd? (cs ++ bs) = some (rest ++ bs) := by
  induction cs with
  | nil => cases h
  | cons c cs ih =>
      rw [afterEnd?] at h
      split at h
      · next hend =>
          obtain ⟨hc, hcs⟩ := hend
          cases cs with
          | nil => cases hcs
          | cons d ds =>
              cases h
              simp [afterEnd?, hc, Option.some.inj hcs]
      · next hend =>
          have hend' : ¬ (c = '*' ∧ (cs ++ bs).head? = some '/') := by
            cases cs with
            | nil => cases h
            | cons d ds => simpa using hend
          rw [List.cons_append, afterEnd?, if_neg hend', ih h]

theorem afterEnd?_append_blank (h : afterEnd? cs = none) (bs : List Char) :
    afterEnd? (cs ++ ' ' :: bs) = afterEnd? bs := by
  induction cs with
  | nil => simp [afterEnd?]
  | cons c cs ih =>
      rw [afterEnd?] at h
      split at h
      · cases h
      · next hend =>
          have hend' : ¬ (c = '*' ∧ (cs ++ ' ' :: bs).head? = some '/') := by
            cases cs with
            | nil => simp
            | cons d ds => simpa using hend
          rw [List.cons_append, afterEnd?, if_neg hend', ih h]

theorem afterEnd?_blanks (n : Nat) (cs : List Char) :
    afterEnd? (List.replicate n ' ' ++ cs) = afterEnd? cs := by
  induction n with
  | zero => rfl
  | succ n ih => simp [List.replicate_succ, afterEnd?, ih]

theorem afterEnd?_moved (n : Nat) (cs : List Char) :
    afterEnd? (Text.moved (List.replicate n ' ') cs) =
      (afterEnd? cs).map (Text.moved (List.replicate n ' ')) := by
  have hfront : ∀ cs bs : List Char,
      afterEnd? (Text.front (List.replicate n ' ') cs ++ bs) = afterEnd? bs := by
    intro cs bs
    cases cs with
    | nil => rfl
    | cons c cs =>
        rw [Text.front]
        split
        · rfl
        · exact afterEnd?_blanks n bs
  induction cs with
  | nil => rfl
  | cons c cs ih =>
      by_cases hc : c = '\n'
      · subst hc
        simp [afterEnd?, hfront, ih]
      · rw [Text.moved_cons_of_ne hc, afterEnd?, afterEnd?, Text.head?_moved]
        split
        · next hend =>
            cases cs with
            | nil => cases hend.2
            | cons d ds =>
                have hd : d ≠ '\n' := by
                  rw [Option.some.inj hend.2]
                  decide
                rw [Text.moved_cons_of_ne hd]
                rfl
        · exact ih

theorem closes_moved_iff {n : Nat} :
    Closes (Text.moved (List.replicate n ' ') cs) ↔ Closes cs := by
  rw [Closes, Closes, afterEnd?_moved, Option.map_eq_some_iff]
  constructor
  · rintro ⟨rest, hrest, hnil⟩
    rw [hrest, Text.moved_eq_nil_iff.mp hnil]
  · exact fun h => ⟨[], h, rfl⟩

/-! ## Texts that are put together -/

theorem hasEnd_unlines {ls : List String} :
    HasEnd (Text.unlines ls) ↔ ∃ line ∈ ls, HasEnd line := by
  have hbreak : "\n".toList = ['\n'] := rfl
  constructor
  · intro h
    cases ls with
    | nil => exact absurd h (by decide)
    | cons first rest =>
        rw [HasEnd, Text.Occurs, Text.unlines, Text.toList_intercalate_eq_join hbreak] at h
        obtain ⟨p, hp, hend⟩ := Text.exists_infix_of_join (by simp) (by decide) h
        obtain ⟨line, hline, rfl⟩ := List.mem_map.mp hp
        exact ⟨line, hline, hend⟩
  · rintro ⟨line, hline, h⟩
    exact h.trans (Text.occurs_intercalate hline)

theorem hasEnd_lines {s : String} : (∃ line ∈ Text.lines s, HasEnd line) ↔ HasEnd s := by
  rw [← hasEnd_unlines, Text.unlines_lines]

theorem hasEnd_append_cons {s t : String} {c : Char} (hc : c ∉ ['*', '/']) :
    HasEnd (s ++ String.ofList [c] ++ t) ↔ HasEnd s ∨ HasEnd t := by
  have hmiddle : (s ++ String.ofList [c] ++ t).toList = s.toList ++ c :: t.toList := by simp
  constructor
  · intro h
    rw [HasEnd, Text.Occurs, hmiddle] at h
    exact Text.infix_of_infix_append_cons hc h
  · rintro (h | h)
    · exact (h.append_right _).append_right _
    · exact h.append_left _

theorem hasEnd_append_blank (s t : String) : HasEnd (s ++ " " ++ t) ↔ HasEnd s ∨ HasEnd t :=
  hasEnd_append_cons (by decide)

theorem hasEnd_at (s : String) : HasEnd ("@" ++ s) ↔ HasEnd s := by
  have hempty : ¬ HasEnd "" := by decide
  have hat := hasEnd_append_cons (s := "") (t := s) (c := '@') (by decide)
  rw [or_iff_right hempty] at hat
  rwa [String.empty_append] at hat

/-! ## Blocks -/

theorem hasEnd_blockLine (line : String) : HasEnd (blockLine line) ↔ HasEnd line := by
  unfold blockLine
  split
  · next hempty =>
      rw [String.isEmpty_iff.mp hempty]
      decide
  · have hstar : ¬ HasEnd " *" := by decide
    exact (hasEnd_append_blank " *" line).trans (or_iff_right hstar)

theorem block_eq {comment : String} (h : comment ≠ "") :
    block comment =
      "/**\n" ++ Text.unlines ((Text.lines comment).map blockLine) ++ "\n */" := by
  have hbreak : "\n".toList = ['\n'] := rfl
  have hsome : ¬ comment.isEmpty = true := by rwa [String.isEmpty_iff]
  have hne : ((Text.lines comment).map blockLine).map String.toList ≠ [] := by
    simp [Text.lines, Text.splitAt, Text.pieces, Text.piecesFrom_ne_nil]
  rw [block, if_neg hsome, ← String.toList_inj, Text.unlines,
    Text.toList_intercalate_eq_join hbreak, List.map_cons, List.map_append,
    Text.join_cons (by simp)]
  rw [List.map_singleton, Text.join_concat hne, ← Text.toList_intercalate_eq_join hbreak]
  simp [Text.unlines]

/-- The block of a text is one comment if and only if there is no end mark in the text,
however far it is moved in. -/
theorem closes_block_iff {comment : String} (h : comment ≠ "") (n : Nat) :
    Closes (Text.moved (List.replicate n ' ') (block comment).toList) ↔ ¬ HasEnd comment := by
  have hopen : ¬ HasEnd "/**" := by decide
  have hempty : ¬ HasEnd "" := by decide
  have hlines : HasEnd (Text.unlines ((Text.lines comment).map blockLine)) ↔ HasEnd comment := by
    rw [hasEnd_unlines, ← hasEnd_lines]
    simp [hasEnd_blockLine]
  generalize hbody : Text.unlines ((Text.lines comment).map blockLine) = body at hlines
  have hhead : HasEnd ("/**\n" ++ body ++ "\n" ++ "") ↔ HasEnd comment := by
    have hlast := hasEnd_append_cons (s := "/**\n" ++ body) (t := "") (c := '\n') (by decide)
    have hfirst := hasEnd_append_cons (s := "/**") (t := body) (c := '\n') (by decide)
    rw [or_iff_left hempty] at hlast
    rw [or_iff_right hopen, hlines] at hfirst
    exact hlast.trans hfirst
  have hblock : (block comment).toList =
      ("/**\n" ++ body ++ "\n" ++ "").toList ++ [' ', '*', '/'] := by
    rw [block_eq h, hbody]
    simp
  rw [closes_moved_iff, hblock, Closes, ← hhead]
  generalize "/**\n" ++ body ++ "\n" ++ "" = head
  by_cases hend : HasEnd head
  · obtain ⟨rest, hrest⟩ := hasEnd_iff.mp hend
    simp [afterEnd?_append hrest, hend]
  · have hnone : afterEnd? head.toList = none := afterEnd?_eq_none_iff.mpr hend
    simp [afterEnd?_append_blank hnone, hend, afterEnd?]

/-! ## What a comment says -/

def tagTexts (tag : DocTag) : List String :=
  tag.name.display :: if tag.text.truthy then [tag.text.display] else []

def texts (description : Value) (tags : List DocTag) : List String :=
  (if description.truthy then [description.display] else []) ++ tags.flatMap tagTexts

theorem hasEnd_tagLine (tag : DocTag) :
    HasEnd (tagLine tag) ↔ ∃ text ∈ tagTexts tag, HasEnd text := by
  unfold tagLine tagTexts
  split
  · simp [hasEnd_append_blank, hasEnd_at]
  · simp [hasEnd_at]

theorem hasEnd_descriptionLines {description : Value} {ls : List String}
    (h : descriptionLines description = .ok ls) :
    (∃ line ∈ ls, HasEnd line) ↔ description.truthy = true ∧ HasEnd description.display := by
  unfold descriptionLines at h
  split at h
  · next htruthy =>
      cases description with
      | text s =>
          cases h
          rw [hasEnd_lines]
          simp [htruthy, Value.display]
      | _ => cases h
  · next hfalsy =>
      cases h
      simp [hfalsy]

/-- A comment is the description, a blank line between both parts, and the tags that remain. -/
theorem of_body_eq {atomics : List Atomic} {description : Value} {tags : List DocTag}
    {comment : String} (h : body atomics description tags = .ok comment) :
    ∃ first kept, descriptionLines description = .ok first ∧ remaining atomics tags = .ok kept ∧
      comment = Text.unlines (first ++
        (if description.truthy && !kept.isEmpty then [""] else []) ++ kept.map tagLine) := by
  obtain ⟨first, hfirst, h⟩ := Except.bind_eq_ok_iff.mp h
  obtain ⟨kept, hkept, h⟩ := Except.bind_eq_ok_iff.mp h
  exact ⟨first, kept, hfirst, hkept, (Except.ok.inj h).symm⟩

/-- There is an end mark in a comment if and only if there is one in what it is written
with. -/
theorem hasEnd_body_iff {atomics : List Atomic} {description : Value} {tags : List DocTag}
    {comment : String} (h : body atomics description tags = .ok comment) :
    ∃ kept, remaining atomics tags = .ok kept ∧
      (HasEnd comment ↔ ∃ text ∈ texts description kept, HasEnd text) := by
  obtain ⟨first, kept, hfirst, hkept, rfl⟩ := of_body_eq h
  refine ⟨kept, hkept, ?_⟩
  have hdescription := hasEnd_descriptionLines hfirst
  have hempty : ¬ HasEnd "" := by decide
  have hgap : ¬ ∃ line ∈ if description.truthy && !kept.isEmpty then [""] else [],
      HasEnd line := by
    split <;> simp [hempty]
  have htags : (∃ line ∈ kept.map tagLine, HasEnd line) ↔
      ∃ text ∈ kept.flatMap tagTexts, HasEnd text := by
    constructor
    · rintro ⟨line, hline, hend⟩
      obtain ⟨tag, htag, rfl⟩ := List.mem_map.mp hline
      obtain ⟨text, htext, hend⟩ := (hasEnd_tagLine tag).mp hend
      exact ⟨text, List.mem_flatMap.mpr ⟨tag, htag, htext⟩, hend⟩
    · rintro ⟨text, htext, hend⟩
      obtain ⟨tag, htag, htext⟩ := List.mem_flatMap.mp htext
      exact ⟨tagLine tag, List.mem_map_of_mem htag, (hasEnd_tagLine tag).mpr ⟨text, htext, hend⟩⟩
  have hgiven : (∃ text ∈ if description.truthy then [description.display] else [],
      HasEnd text) ↔ description.truthy = true ∧ HasEnd description.display := by
    split <;> simp_all
  rw [hasEnd_unlines, texts]
  simp only [List.mem_append, or_and_right, exists_or]
  rw [hdescription, htags, hgiven, or_assoc, or_iff_right hgap]

end Comment

/-! ## The comment of a stub -/

/-- The texts of the document that the comment of a stub is written with. -/
def Route.texts (r : Route) : List String :=
  Comment.texts r.description r.tags ++
    (if r.symbol.truthy then [r.symbol.display] else []) ++ [r.method, r.path.display]

open Comment (HasEnd)

/-- There is an end mark in the comment of a stub if and only if there is one in what it is
written with. -/
theorem Route.hasEnd_comment_iff {r : Route} {comment : String} (h : r.comment = .ok comment) :
    HasEnd comment ↔ ∃ text ∈ r.texts, HasEnd text := by
  obtain ⟨described, hbody, h⟩ := Except.bind_eq_ok_iff.mp h
  cases h
  obtain ⟨kept, hkept, hdescribed⟩ := Comment.hasEnd_body_iff hbody
  obtain rfl : r.tags = kept := by
    simpa [Comment.remaining] using hkept
  have hempty : ¬ HasEnd "" := by decide
  have hmark : ¬ HasEnd mark := by decide
  have hfirst : (∃ line ∈ if described.isEmpty then [] else [described, ""], HasEnd line) ↔
      HasEnd described := by
    split
    · next hnone =>
        rw [String.isEmpty_iff.mp hnone]
        simp [hempty]
    · simp [hempty]
  have hcontroller : (∃ line ∈ if r.symbol.truthy then ["@controller " ++ r.symbol.display] else [],
      HasEnd line) ↔ ∃ text ∈ if r.symbol.truthy then [r.symbol.display] else [], HasEnd text := by
    have hkey : ¬ HasEnd "@controller" := by decide
    split
    · simpa using (Comment.hasEnd_append_blank "@controller" _).trans (or_iff_right hkey)
    · simp
  have hpath : HasEnd ("@path " ++ r.method ++ " " ++ r.path.display) ↔
      HasEnd r.method ∨ HasEnd r.path.display := by
    have hkey : ¬ HasEnd "@path" := by decide
    have hmethod := (Comment.hasEnd_append_blank "@path" r.method).trans (or_iff_right hkey)
    exact (Comment.hasEnd_append_blank _ _).trans (or_congr_left hmethod)
  rw [Comment.hasEnd_unlines, texts]
  simp only [List.mem_append, or_and_right, exists_or]
  rw [hfirst, hdescribed, hcontroller]
  simp [hpath, hmark]

theorem Route.comment_ne_empty {r : Route} {comment : String} (h : r.comment = .ok comment) :
    comment ≠ "" := by
  obtain ⟨described, -, h⟩ := Except.bind_eq_ok_iff.mp h
  cases h
  intro hempty
  have hmark : Text.Occurs mark "" := by
    rw [← hempty]
    exact Text.occurs_intercalate (by simp)
  exact absurd (List.infix_nil.mp hmark) (by decide)

end ClientSdk
