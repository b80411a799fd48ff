import ClientSdk.Literal
import ClientSdk.Proofs.Except
import ClientSdk.Proofs.Text.Identifier
import ClientSdk.Proofs.TypeExpr.Reader

/-!
# Words and tokens

A word is a text that the reader of types takes for one thing: none of its characters
has a meaning of its own there.  Dotted names are words (`isWord_of_isDotted`), and so are
numbers.  A literal is written as a word or as a string literal
(`isToken_of_literalType`), and so is the name of a member, but for a line break behind it
(`isToken_of_memberName`).
-/

namespace ClientSdk

namespace TypeText

/-- The characters that separate what stands inside brackets. -/
def separators : List Char := ['|', '&', ',', ';', ':', '?']

/-- Whether the character stands for itself everywhere in a word. -/
def isWordChar (c : Char) : Bool :=
  decide (c ∉ syntaxChars ++ separators)

/-- The characters are a word.  Points in front belong to the element of a tuple. -/
structure IsWord (cs : List Char) : Prop where
  chars : cs.all isWordChar = true
  head : ∃ c rest, cs = c :: rest ∧ c ≠ '.'

def IsToken (s : String) : Prop :=
  IsWord s.toList ∨ ∃ t, s = Text.literal .unicode t

instance (cs : List Char) : Decidable (IsWord cs) :=
  decidable_of_iff (cs.all isWordChar = true ∧ cs ≠ [] ∧ cs.head? ≠ some '.') <| by
    cases cs with
    | nil => exact ⟨fun h => absurd rfl h.2.1, fun h => by simpa using h.head⟩
    | cons c cs =>
        constructor
        · intro h
          exact ⟨h.1, c, cs, rfl, by simpa using h.2.2⟩
        · rintro ⟨hchars, d, rest, heq, hd⟩
          exact ⟨hchars, by simp, by simp_all⟩

section Words

variable {cs ds : List Char}

theorem IsWord.isWordChar (h : IsWord cs) {c : Char} (hc : c ∈ cs) : isWordChar c = true :=
  List.all_eq_true.mp h.chars c hc

theorem IsWord.append (h : IsWord cs) (h' : ds.all TypeText.isWordChar = true) :
    IsWord (cs ++ ds) := by
  obtain ⟨c, rest, hcs, hc⟩ := h.head
  refine ⟨?_, c, rest ++ ds, by rw [hcs, List.cons_append], hc⟩
  rw [List.all_append, h.chars, h', Bool.and_self]

theorem IsWord.cuts (h : IsWord cs) : Cuts cs (cs.map .char) := by
  refine .chars fun c hc hsyntax => ?_
  have hplain := h.isWordChar hc
  rw [TypeText.isWordChar, decide_eq_true_eq] at hplain
  exact hplain (List.mem_append_left _ hsyntax)

/-! ## Names -/

theorem isWordChar_of_isDottedChar {c : Char} (h : Text.isDottedChar c = true) :
    isWordChar c = true := by
  have hnone : (syntaxChars ++ separators).all (fun d => !Text.isDottedChar d) = true := rfl
  by_contra hc
  rw [isWordChar, decide_eq_true_eq, not_not] at hc
  have hdotted := List.all_eq_true.mp hnone c hc
  rw [h] at hdotted
  cases hdotted

theorem isWord_of_isDotted {s : String} (h : Text.IsDotted s) : IsWord s.toList := by
  obtain ⟨c, cs, hcs, hc⟩ := Text.exists_cons_of_isDotted h
  refine ⟨List.all_eq_true.mpr fun d hd =>
    isWordChar_of_isDottedChar (Text.isDottedChar_of_mem h hd), c, cs, hcs, ?_⟩
  rintro rfl
  exact absurd hc (by decide)

theorem isWord_of_isIdentifierChars (h : Text.isIdentifierChars cs = true) : IsWord cs := by
  have hcontinues := (Text.continues_of_isIdentifierChars h).2
  cases cs with
  | nil => cases h
  | cons c cs =>
      refine ⟨List.all_eq_true.mpr fun d hd => isWordChar_of_isDottedChar ?_, c, cs, rfl, ?_⟩
      · rw [Text.isDottedChar, hcontinues d hd, Bool.true_or]
      · rintro rfl
        exact absurd h (by simp [Text.isIdentifierChars, show Text.startsIdentifier '.' = false
          by decide])

/-! ## Numbers -/

def AreDigits (cs : List Char) : Prop :=
  ∀ c ∈ cs, c.isDigit = true

theorem AreDigits.chars (h : AreDigits cs) : cs.all isWordChar = true := by
  refine List.all_eq_true.mpr fun c hc => isWordChar_of_isDottedChar ?_
  rw [Text.isDottedChar, Text.continuesIdentifier, Char.isAlphanum, h c hc]
  simp

theorem AreDigits.isWord (h : AreDigits cs) (hne : cs ≠ []) : IsWord cs := by
  cases cs with
  | nil => exact absurd rfl hne
  | cons c cs =>
      refine ⟨h.chars, c, cs, rfl, ?_⟩
      rintro rfl
      exact absurd (h '.' List.mem_cons_self) (by decide)

theorem areDigits_repr (n : Nat) : AreDigits n.repr.toList := by
  intro c hc
  rw [Nat.toList_repr] at hc
  exact Nat.isDigit_of_mem_toDigits (by omega) (by omega) hc

theorem isWord_repr (n : Nat) : IsWord n.repr.toList :=
  (areDigits_repr n).isWord (by rw [Nat.toList_repr]; exact Nat.toDigits_ne_nil)

theorem isWord_minus (h : IsWord cs) : IsWord ('-' :: cs) :=
  IsWord.append (by decide : IsWord ['-']) h.chars

theorem isWord_toString (n : Int) : IsWord (toString n).toList := by
  rw [Int.toString_eq_repr, Int.repr_eq_if]
  split
  · exact isWord_repr _
  · rw [String.toList_append]
    exact isWord_minus (isWord_repr _)

theorem areDigits_zeros (n : Nat) : AreDigits (List.replicate n '0') := by
  intro c hc
  rw [List.eq_of_mem_replicate hc]
  decide

section Decimal

variable {digits : List Char} (h : AreDigits digits) (hne : digits ≠ [])
include h hne

theorem isWord_take {n : Nat} (hn : n ≠ 0) : IsWord (digits.take n) :=
  AreDigits.isWord (fun c hc => h c (List.mem_of_mem_take hc))
    (by simpa [List.take_eq_nil_iff] using ⟨hn, hne⟩)

theorem isWord_positional (point : Int) :
    IsWord (Binary64.positional digits point).toList := by
  unfold Binary64.positional Binary64.zeroDigits
  split
  · simp only [String.toList_append, String.toList_ofList]
    exact (IsWord.append (by decide) (areDigits_zeros _).chars).append h.chars
  split
  · simp only [String.toList_append, String.toList_ofList]
    exact ((h.isWord hne).append (areDigits_zeros _).chars).append rfl
  · next hpoint _ =>
    simp only [String.toList_append, String.toList_ofList]
    refine ((isWord_take h hne (by omega)).append rfl).append ?_
    exact AreDigits.chars fun c hc => h c (List.mem_of_mem_drop hc)

theorem isWord_scientific (exponent : Int) :
    IsWord (Binary64.scientific digits exponent).toList := by
  have hfraction : (if digits.length ≤ 1 then ""
      else "." ++ String.ofList (digits.drop 1)).toList.all isWordChar = true := by
    split
    · rfl
    · have hdrop : AreDigits (digits.drop 1) := fun c hc => h c (List.mem_of_mem_drop hc)
      simp only [String.toList_append, String.toList_ofList, List.all_append, hdrop.chars]
      rfl
  have hmark : (if exponent < 0 then "e-" else "e+").toList.all isWordChar = true := by
    split <;> rfl
  have hshown : (if (toString exponent.natAbs).length < 2 then "0" ++ toString exponent.natAbs
      else toString exponent.natAbs).toList.all isWordChar = true := by
    split
    · rw [String.toList_append]
      exact (IsWord.append (by decide) (areDigits_repr _).chars).chars
    · exact (areDigits_repr _).chars
  unfold Binary64.scientific
  dsimp only
  rw [String.toList_append, String.toList_append, String.toList_append, String.toList_ofList]
  exact (((isWord_take h hne (by omega)).append hfraction).append hmark).append hshown

end Decimal

theorem isWord_magnitudeText (mantissa : Nat) (exponent : Int) :
    IsWord (Binary64.magnitudeText mantissa exponent).toList := by
  have hdigits : ∀ n : Nat, (toString n).toList ≠ [] := fun n => by
    obtain ⟨c, cs, hcs, -⟩ := (isWord_repr n).head
    exact fun h => List.cons_ne_nil c cs (hcs.symm.trans h)
  unfold Binary64.magnitudeText
  dsimp only
  split
  · exact isWord_positional (areDigits_repr _) (hdigits _) _
  · exact isWord_scientific (areDigits_repr _) (hdigits _) _

theorem isWord_floatLiteral (x : Binary64) : IsWord (Value.floatLiteral x).toList := by
  cases x with
  | nan => decide
  | infinite negative => cases negative <;> decide
  | finite negative mantissa exponent =>
      unfold Value.floatLiteral
      split
      · next heq => cases heq
      · next heq => cases heq
      split
      · exact isWord_toString _
      have hmagnitude : IsWord (if mantissa = 0 then "0.0"
          else Binary64.magnitudeText mantissa exponent).toList := by
        split
        · decide
        · exact isWord_magnitudeText mantissa exponent
      cases negative with
      | false => simpa [Binary64.text] using hmagnitude
      | true =>
          rw [Binary64.text, if_pos rfl, String.toList_append]
          exact isWord_minus hmagnitude

end Words

/-! ## Tokens -/

theorem IsToken.word {s : String} (h : IsWord s.toList) : IsToken s :=
  .inl h

theorem IsToken.literal (s : String) : IsToken (Text.literal .unicode s) :=
  .inr ⟨s, rfl⟩

end TypeText

/-- Whether the value is one that the grammar of route documents takes for a literal. -/
def Value.isLiteral : Value → Bool
  | .bool _ | .int _ | .float _ | .text _ => true
  | _ => false

namespace TypeText

theorem isToken_of_literalType {v kind : Value} {text : String} (hv : v.isLiteral = true)
    (h : v.literalType kind = .ok text) : IsToken text := by
  have hbool : ∀ b : Bool, IsToken (if b then "true" else "false") := by
    intro b
    cases b <;> exact .word (by decide)
  replace h := (Value.literalType_eq_ok_iff.mp h).2
  unfold Value.literalForm at h
  split at h
  · cases h
    exact hbool _
  · obtain ⟨n, -, h⟩ := Except.bind_eq_ok_iff.mp h
    cases h
    exact .word (by rw [String.toList_append]; exact (isWord_toString n).append rfl)
  · cases h
    exact .word (isWord_toString _)
  · cases h
    exact .word (isWord_floatLiteral _)
  · next hbool hint hfloat _ =>
    cases h
    cases v with
    | text s => exact .literal s
    | bool b => exact absurd rfl (hbool b)
    | int n => exact absurd rfl (hint n)
    | float x => exact absurd rfl (hfloat x)
    | null | list | map => cases hv

/-- The name without a line break at its end. -/
def bareName (name : String) : String :=
  String.ofList (Text.dropFinalBreak name.toList)

theorem eq_bareName_or (name : String) :
    name = bareName name ∨ name = bareName name ++ "\n" := by
  unfold bareName Text.dropFinalBreak
  split
  · next rest heq =>
    refine .inr (String.toList_inj.mp ?_)
    rw [String.toList_append, String.toList_ofList, ← List.reverse_reverse name.toList, heq,
      List.reverse_cons]
    rfl
  · exact .inl String.ofList_toList.symm

theorem cuts_of_bareName {name : String} {items : List Item}
    (h : Cuts (bareName name).toList items) : Cuts name.toList items := by
  rcases eq_bareName_or name with hname | hname
  · rwa [hname]
  · rw [hname, String.toList_append, ← List.append_nil items]
    exact h.append (.blank (.inr rfl))

theorem isToken_of_memberName (name : String) : IsToken (bareName (memberName name)) := by
  unfold memberName bareName
  split
  · next hbare =>
    refine .word ?_
    rw [String.toList_ofList]
    exact isWord_of_isIdentifierChars (Bool.and_eq_true_iff.mp hbare).1
  · have hquote : Text.dropFinalBreak (Text.literal .unicode name).toList =
        (Text.literal .unicode name).toList := by
      simp [Text.dropFinalBreak, Text.literal, Text.literalChars]
    rw [hquote, String.ofList_toList]
    exact .literal name

end TypeText

end ClientSdk
