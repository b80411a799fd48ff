import ClientSdk.Config
import ClientSdk.Proofs.Text.Pieces
import ClientSdk.TypeExpr.Reference
import Mathlib.Tactic.Tauto

/-!
# Identifiers and dotted names

Identifiers with points between them are a name without type arguments: it begins with
the first of them (`typeRoot_of_isDotted`) and refers to nothing behind it
(`references_of_isDotted`).
-/

namespace ClientSdk

namespace Text

theorem continuesIdentifier_of_starts {c : Char} (h : startsIdentifier c = true) :
    continuesIdentifier c = true := by
  simp only [startsIdentifier, continuesIdentifier, Char.isAlphanum, Bool.or_eq_true] at h ⊢
  tauto

theorem startsIdentifier_of_isDigit {c : Char} (h : c.isDigit = true) :
    startsIdentifier c = false := by
  have halpha : c.isAlpha = (decide (c.val ≥ 'A'.val ∧ c.val ≤ 'Z'.val) ||
      (decide (c.val ≥ 'a'.val) && decide (c.val ≤ 'z'.val))) := rfl
  have hdigit : c.isDigit = (decide (c.val ≥ '0'.val) && decide (c.val ≤ '9'.val)) := rfl
  rw [Bool.eq_false_iff]
  intro hstarts
  simp only [hdigit, startsIdentifier, halpha, Bool.or_eq_true, Bool.and_eq_true,
    decide_eq_true_eq, UInt32.le_iff_toNat_le, ge_iff_le, beq_iff_eq] at h hstarts
  obtain ⟨hlow, hhigh⟩ := h
  rcases hstarts with ((⟨h, h'⟩ | ⟨h, h'⟩) | rfl) | rfl
  all_goals first | (simp at *; omega) | simp at *

theorem continues_of_isIdentifierChars {cs : List Char} (h : isIdentifierChars cs = true) :
    cs ≠ [] ∧ ∀ c ∈ cs, continuesIdentifier c = true := by
  cases cs with
  | nil => exact absurd h Bool.false_ne_true
  | cons c cs =>
      obtain ⟨hfirst, hrest⟩ := Bool.and_eq_true_iff.mp h
      refine ⟨List.cons_ne_nil c cs, fun d hd => ?_⟩
      rcases List.mem_cons.mp hd with rfl | hd
      · exact continuesIdentifier_of_starts hfirst
      · exact List.all_eq_true.mp hrest d hd

/-- The longest identifier at the beginning is one that does not go on behind. -/
theorem leadingIdentifier?_eq_some_iff {cs field : List Char} :
    leadingIdentifier? cs = some field ↔ isIdentifierChars field = true ∧
      ∃ rest, cs = field ++ rest ∧ ∀ c, rest.head? = some c → continuesIdentifier c = false := by
  cases cs with
  | nil =>
      refine iff_of_false (by simp [leadingIdentifier?]) ?_
      rintro ⟨hfield, rest, hnil, -⟩
      rw [(List.append_eq_nil_iff.mp hnil.symm).1] at hfield
      exact Bool.false_ne_true hfield
  | cons c cs =>
      rw [leadingIdentifier?]
      constructor
      · intro h
        split at h
        · next hstart =>
          obtain rfl := Option.some.inj h
          have hall := List.all_takeWhile (p := continuesIdentifier) (l := cs)
          refine ⟨Bool.and_eq_true_iff.mpr ⟨hstart, hall⟩, cs.dropWhile continuesIdentifier, ?_, ?_⟩
          · rw [List.cons_append, List.takeWhile_append_dropWhile]
          · intro d hd
            have hend := List.head?_dropWhile_not continuesIdentifier cs
            rw [hd] at hend
            simpa using hend
        · exact absurd h (by simp)
      · rintro ⟨hfield, rest, hcs, hrest⟩
        cases field with
        | nil => exact absurd hfield Bool.false_ne_true
        | cons d field =>
            rw [List.cons_append, List.cons.injEq] at hcs
            obtain ⟨rfl, rfl⟩ := hcs
            obtain ⟨hstart, hgoes⟩ := Bool.and_eq_true_iff.mp hfield
            have hend : rest.takeWhile continuesIdentifier = [] := by
              cases rest with
              | nil => rfl
              | cons e rest => rw [List.takeWhile_cons, hrest e rfl, if_neg Bool.false_ne_true]
            rw [if_pos hstart, List.takeWhile_append_of_pos (List.all_eq_true.mp hgoes), hend,
              List.append_nil]

/-! ## Dotted names -/

/-- Whether the text consists of identifiers with points between them. -/
def IsDotted (s : String) : Prop :=
  ∀ piece ∈ pieces '.' s.toList, isIdentifierChars piece = true

instance (s : String) : Decidable (IsDotted s) :=
  inferInstanceAs (Decidable (∀ _ ∈ _, _))

/-- The part of a dotted name up to the first point. -/
def firstPart (s : String) : String :=
  String.ofList (s.toList.takeWhile (· != '.'))

/-- Whether the character stands in dotted names. -/
def isDottedChar (c : Char) : Bool :=
  continuesIdentifier c || c == '.'

theorem toNat_of_isDottedChar {c : Char} (h : isDottedChar c = true) :
    c.toNat = 0x24 ∨ c.toNat = 0x2E ∨ (0x30 ≤ c.toNat ∧ c.toNat ≤ 0x39) ∨
      (0x41 ≤ c.toNat ∧ c.toNat ≤ 0x5A) ∨ c.toNat = 0x5F ∨
      (0x61 ≤ c.toNat ∧ c.toNat ≤ 0x7A) := by
  have halpha : c.isAlpha = (decide (c.val ≥ 'A'.val ∧ c.val ≤ 'Z'.val) ||
      (decide (c.val ≥ 'a'.val) && decide (c.val ≤ 'z'.val))) := rfl
  have hdigit : c.isDigit = (decide (c.val ≥ '0'.val) && decide (c.val ≤ '9'.val)) := rfl
  have hval : c.toNat = c.val.toNat := rfl
  simp only [isDottedChar, continuesIdentifier, Char.isAlphanum, halpha, hdigit,
    Bool.or_eq_true, Bool.and_eq_true, decide_eq_true_eq, UInt32.le_iff_toNat_le, ge_iff_le,
    beq_iff_eq] at h
  rcases h with ((((⟨h, h'⟩ | ⟨h, h'⟩) | ⟨h, h'⟩) | h) | h) | h
  all_goals first | (subst h; decide) | (simp at h h'; omega)

theorem not_isBlank_of_isDottedChar {c : Char} (h : isDottedChar c = true) :
    isBlank c = false := by
  have hcode := toNat_of_isDottedChar h
  simp [isBlank, blankRanges]
  omega

theorem mem_join {sep c : Char} {ps : List (List Char)} (hc : c ∈ join sep ps) :
    c = sep ∨ ∃ p ∈ ps, c ∈ p := by
  induction ps with
  | nil => exact absurd hc List.not_mem_nil
  | cons p rest ih =>
      cases rest with
      | nil => exact .inr ⟨p, List.mem_cons_self, hc⟩
      | cons q qs =>
          rw [join, List.mem_append, List.mem_cons] at hc
          rcases hc with hc | hc | hc
          · exact .inr ⟨p, List.mem_cons_self, hc⟩
          · exact .inl hc
          · rcases ih hc with hc | ⟨p', hp', hc⟩
            · exact .inl hc
            · exact .inr ⟨p', List.mem_cons_of_mem _ hp', hc⟩

section Dotted

variable {s : String}

theorem isDottedChar_of_mem (h : IsDotted s) {c : Char} (hc : c ∈ s.toList) :
    isDottedChar c = true := by
  rw [← join_pieces '.' s.toList] at hc
  rcases mem_join hc with rfl | ⟨piece, hpiece, hc⟩
  · rfl
  · rw [isDottedChar, (continues_of_isIdentifierChars (h piece hpiece)).2 c hc, Bool.true_or]

theorem exists_cons_of_isDotted (h : IsDotted s) :
    ∃ c cs, s.toList = c :: cs ∧ startsIdentifier c = true := by
  have hjoin := join_pieces '.' s.toList
  cases hpieces : pieces '.' s.toList with
  | nil => exact absurd hpieces (piecesFrom_ne_nil _ _ _)
  | cons p ps =>
      have hp := h p (hpieces ▸ List.mem_cons_self)
      cases p with
      | nil => cases hp
      | cons c cs =>
          have hc : startsIdentifier c = true := (Bool.and_eq_true_iff.mp hp).1
          rw [hpieces] at hjoin
          cases ps with
          | nil => exact ⟨c, cs, hjoin.symm, hc⟩
          | cons q qs => exact ⟨c, cs ++ '.' :: join '.' (q :: qs), hjoin.symm, hc⟩

theorem trimOf_eq_self_of_ends {p : Char → Bool} {cs : List Char}
    (hfirst : ∀ c ∈ cs.head?, p c = false) (hlast : ∀ c ∈ cs.getLast?, p c = false) :
    trimOf p cs = cs := by
  have hdrop : ∀ ds : List Char, (∀ c ∈ ds.head?, p c = false) → ds.dropWhile p = ds := by
    intro ds hds
    cases ds with
    | nil => rfl
    | cons d ds => exact List.dropWhile_cons_of_neg (by simp [hds d rfl])
  rw [trimOf, hdrop cs hfirst, hdrop cs.reverse (by rwa [List.head?_reverse]),
    List.reverse_reverse]

theorem trimOf_eq_self {p : Char → Bool} {cs : List Char} (h : ∀ c ∈ cs, p c = false) :
    trimOf p cs = cs :=
  trimOf_eq_self_of_ends (fun c hc => h c (List.mem_of_head? hc)) fun c hc =>
    h c (List.mem_of_getLast? hc)

theorem trimChars_of_isDotted (h : IsDotted s) : trimChars s.toList = s.toList :=
  trimOf_eq_self fun _ hc => not_isBlank_of_isDottedChar (isDottedChar_of_mem h hc)

theorem takeWhile_congr {α : Type} {p q : α → Bool} {as : List α}
    (h : ∀ a ∈ as, p a = q a) : as.takeWhile p = as.takeWhile q := by
  induction as with
  | nil => rfl
  | cons a as ih =>
      rw [List.takeWhile_cons, List.takeWhile_cons, h a List.mem_cons_self,
        ih fun b hb => h b (List.mem_cons_of_mem _ hb)]

theorem continuesIdentifier_eq {c : Char} (h : isDottedChar c = true) :
    continuesIdentifier c = (c != '.') := by
  by_cases hpoint : c = '.'
  · subst hpoint
    decide
  · have hne : (c == '.') = false := by simpa using hpoint
    rw [isDottedChar, hne, Bool.or_false] at h
    rw [h, bne, hne, Bool.not_false]

theorem typeRoot_of_isDotted (h : IsDotted s) : typeRoot s = .ok (firstPart s) := by
  obtain ⟨c, cs, hcs, hc⟩ := exists_cons_of_isDotted h
  have hall : ∀ d ∈ c :: cs, isDottedChar d = true := by
    intro d hd
    exact isDottedChar_of_mem h (hcs ▸ hd)
  have hfirst : (c != '.') = true := by
    rw [← continuesIdentifier_eq (hall c List.mem_cons_self), continuesIdentifier_of_starts hc]
  rw [typeRoot, trimChars_of_isDotted h, firstPart, hcs, leadingIdentifier?, if_pos hc,
    List.takeWhile_cons_of_pos (p := fun d : Char => d != '.') hfirst,
    takeWhile_congr fun d hd => continuesIdentifier_eq (hall d (List.mem_cons_of_mem _ hd))]

end Dotted

end Text

namespace TypeName

open Text

/-- Inside a dotted name no other name begins. -/
theorem leadingNames_append {cs : List Char} (h : ∀ c ∈ cs, isDottedChar c = true)
    (rest : List Char) :
    leadingNames true (cs ++ rest) = leadingNames true rest := by
  induction cs with
  | nil => rfl
  | cons c cs ih =>
      have hinside : (continuesIdentifier c || c == '.') = true := h c List.mem_cons_self
      rw [List.cons_append, leadingNames, hinside]
      exact ih fun d hd => h d (List.mem_cons_of_mem _ hd)

theorem not_quote_of_isDottedChar {c : Char} (h : isDottedChar c = true) :
    ¬ (c = '"' ∨ c = '\'') := by
  rintro (rfl | rfl) <;> exact absurd h (by decide)

theorem dropLiterals_append {cs : List Char} (h : ∀ c ∈ cs, isDottedChar c = true)
    (rest : List Char) :
    dropLiterals 0 (cs ++ rest) = cs ++ dropLiterals 0 rest := by
  induction cs with
  | nil => rfl
  | cons c cs ih =>
      rw [List.cons_append, dropLiterals,
        if_neg (not_quote_of_isDottedChar (h c List.mem_cons_self)),
        ih fun d hd => h d (List.mem_cons_of_mem _ hd), List.cons_append]

theorem references_of_isDotted {s : String} (h : IsDotted s) :
    references ((trimChars s.toList).drop (firstPart s).length) = [] := by
  have hdrop : (trimChars s.toList).drop (firstPart s).length =
      s.toList.dropWhile (· != '.') := by
    rw [trimChars_of_isDotted h, firstPart, String.length_ofList]
    have hleft := @List.drop_left _ (s.toList.takeWhile (· != '.'))
      (s.toList.dropWhile (· != '.'))
    rwa [List.takeWhile_append_dropWhile] at hleft
  have hall : ∀ c ∈ s.toList.dropWhile (· != '.'), isDottedChar c = true := fun c hc =>
    isDottedChar_of_mem h ((List.dropWhile_sublist _).subset hc)
  have hbare := dropLiterals_append hall []
  rw [List.append_nil, dropLiterals, List.append_nil] at hbare
  rw [hdrop, references, hbare]
  cases hrest : s.toList.dropWhile (· != '.') with
  | nil => rfl
  | cons c cs =>
      have hc : c = '.' := by
        have := List.head?_dropWhile_not (fun c : Char => c != '.') s.toList
        rw [hrest] at this
        simpa using this
      subst hc
      have hinside := leadingNames_append
        (fun d hd => hall d (hrest ▸ List.mem_cons_of_mem _ hd)) []
      rw [List.append_nil] at hinside
      have hnone : leadingNames false ('.' :: cs) = [] := hinside
      rw [hnone]
      rfl

end TypeName

end ClientSdk
