import ClientSdk.Number.Reading
import ClientSdk.Text.Literal
import Mathlib.Data.List.Basic

/-!
# Literals read back

A string literal is read as data files have it: up to the closing quote, with the escapes of
single characters and those of UTF-16 units, of which two may be one character.  Whatever text
a literal is written for is read back from it, and what stands behind the literal is left as it
is (`readLiteral?_literal`), in the form that holds all characters and in the stricter one.

All characters of a string literal are such as it may hold (`holds_of_mem_literal`): it stands on
one line (`not_mem_literal`), and in the stricter form it is visible ASCII (`isVisible_literal`).

An integer is read from its digits (`integer?_toString`).
-/

namespace ClientSdk.Text

/-! ## Reading -/

/-- The character that a letter behind a backslash stands for. -/
def escaped? (c : Char) : Option Char :=
  if c = '"' ∨ c = '\\' ∨ c = '/' then some c
  else if c = 'b' then some '\x08'
  else if c = 'f' then some '\x0C'
  else if c = 'n' then some '\n'
  else if c = 'r' then some '\r'
  else if c = 't' then some '\t'
  else none

/-- The code points and UTF-16 units of a literal behind its opening quote, and what stands
behind the closing one. -/
def codes? : List Char → Option (List Nat × List Char)
  | [] => none
  | c :: cs =>
      if c = '"' then some ([], cs)
      else if c = '\\' then
        match cs with
        | 'u' :: x :: y :: z :: w :: cs =>
            (baseValue? 16 [x, y, z, w]).bind fun n =>
              (codes? cs).map fun (ns, rest) => (n :: ns, rest)
        | e :: cs =>
            (escaped? e).bind fun d => (codes? cs).map fun (ns, rest) => (d.toNat :: ns, rest)
        | [] => none
      else if c.toNat < 0x20 then none
      else (codes? cs).map fun (ns, rest) => (c.toNat :: ns, rest)

/-- Whether the number is a UTF-16 unit that is no character of its own. -/
def isSurrogate (n : Nat) : Bool :=
  decide (0xD800 ≤ n ∧ n < 0xE000)

/-- The characters of code points and UTF-16 units.  Of two units that are one character the
higher half comes first. -/
def ofCodes? : List Nat → Option (List Char)
  | [] => some []
  | n :: ns =>
      if isSurrogate n then
        match ns with
        | m :: ns =>
            if n < 0xDC00 ∧ 0xDC00 ≤ m ∧ m < 0xE000 then
              (ofCodes? ns).map
                (Char.ofNat (0x10000 + (n - 0xD800) * 0x400 + (m - 0xDC00)) :: ·)
            else none
        | [] => none
      else (ofCodes? ns).map (Char.ofNat n :: ·)

/-- The characters of the literal that a text begins with, and what stands behind it. -/
def readLiteral? : List Char → Option (List Char × List Char)
  | '"' :: cs => (codes? cs).bind fun (codes, rest) => (ofCodes? codes).map (·, rest)
  | _ => none

def unquote? (raw : List Char) : Option String :=
  match readLiteral? raw with
  | some (cs, []) => some (String.ofList cs)
  | _ => none

example : unquote? "\"\\ud83d\\ude00\\/\"".toList = some "😀/" := by
  decide +kernel
example : unquote? "\"\\ud83d\"".toList = none := by decide +kernel

/-! ## Codes -/

/-- The codes of a character in a literal: two units if it is escaped and beyond U+FFFF. -/
def Charset.codes (charset : Charset) (c : Char) : List Nat :=
  if charset.holds c ∨ c.toNat < 0x10000 then [c.toNat]
  else [0xD800 + (c.toNat - 0x10000) / 0x400, 0xDC00 + (c.toNat - 0x10000) % 0x400]

variable {charset : Charset} {c : Char} {cs rest : List Char}

theorem toNat_lt (c : Char) : c.toNat < 0xD800 ∨ 0xDFFF < c.toNat ∧ c.toNat < 0x110000 :=
  c.valid

theorem ofCodes?_cons_of_toNat (c : Char) (ns : List Nat) :
    ofCodes? (c.toNat :: ns) = (ofCodes? ns).map (c :: ·) := by
  have hvalid := toNat_lt c
  have hplain : isSurrogate c.toNat = false := by
    rw [isSurrogate, decide_eq_false_iff_not]
    omega
  rw [ofCodes?.eq_def]
  dsimp only
  rw [hplain, if_neg Bool.false_ne_true, Char.ofNat_toNat]

theorem ofCodes?_codes (charset : Charset) (c : Char) (ns : List Nat) :
    ofCodes? (charset.codes c ++ ns) = (ofCodes? ns).map (c :: ·) := by
  unfold Charset.codes
  split
  · exact ofCodes?_cons_of_toNat c ns
  · next hpair =>
    have hvalid := toNat_lt c
    obtain ⟨-, hhigh⟩ := not_or.mp hpair
    have hsurrogate : isSurrogate (0xD800 + (c.toNat - 0x10000) / 0x400) = true := by
      rw [isSurrogate, decide_eq_true_eq]
      omega
    have hcode : 0x10000 + (0xD800 + (c.toNat - 0x10000) / 0x400 - 0xD800) * 0x400 +
        (0xDC00 + (c.toNat - 0x10000) % 0x400 - 0xDC00) = c.toNat := by omega
    rw [List.cons_append, List.cons_append, List.nil_append, ofCodes?.eq_def]
    dsimp only
    rw [if_pos hsurrogate]
    rw [if_pos (by omega), hcode, Char.ofNat_toNat]

/-! ## Escapes -/

theorem baseValue?_hexDigits {n : Nat} (h : n < 0x10000) :
    baseValue? 16 [hexDigit (n / 4096 % 16), hexDigit (n / 256 % 16), hexDigit (n / 16 % 16),
      hexDigit (n % 16)] = some n := by
  have hdigit : ∀ d < 16, (if (hexDigit d).isDigit = true then (hexDigit d).toNat - 48
      else if 'a' ≤ hexDigit d ∧ hexDigit d ≤ 'f' then (hexDigit d).toNat - 87
      else if 'A' ≤ hexDigit d ∧ hexDigit d ≤ 'F' then (hexDigit d).toNat - 55
      else 16) = d := by decide
  have hlt : ∀ k, k % 16 < 16 := fun k => Nat.mod_lt k (by omega)
  have hsum : 16 * (16 * (16 * (16 * 0 + n / 4096 % 16) + n / 256 % 16) + n / 16 % 16) +
      n % 16 = n := by omega
  simp only [baseValue?, List.isEmpty_cons, Bool.false_eq_true, if_false, List.foldlM_cons,
    List.foldlM_nil, hdigit _ (hlt _), if_pos (hlt _), Option.bind_eq_bind, Option.bind_some,
    Option.pure_def, hsum]

theorem codes?_escapeUnit {n : Nat} (h : n < 0x10000) (cs : List Char) :
    codes? (escapeUnit n ++ cs) = (codes? cs).map fun (ns, rest) => (n :: ns, rest) := by
  have hunit : escapeUnit n ++ cs = '\\' :: 'u' :: hexDigit (n / 4096 % 16) ::
      hexDigit (n / 256 % 16) :: hexDigit (n / 16 % 16) :: hexDigit (n % 16) :: cs := rfl
  rw [hunit, codes?, if_neg (by decide), if_pos rfl]
  dsimp only
  rw [baseValue?_hexDigits h, Option.bind_some]

theorem codes?_escaped {e d : Char} (he : escaped? e = some d) (cs : List Char) :
    codes? ('\\' :: e :: cs) = (codes? cs).map fun (ns, rest) => (d.toNat :: ns, rest) := by
  have hu : e ≠ 'u' := by
    rintro rfl
    have hnone : escaped? 'u' = none := by decide
    exact absurd (hnone.symm.trans he) (Option.some_ne_none d).symm
  rw [codes?, if_neg (by decide), if_pos rfl, he, Option.bind_some]
  exact fun _ _ _ _ _ h _ => hu h

theorem codes?_escapeChar (charset : Charset) (c : Char) (cs : List Char) :
    codes? (escapeChar charset c ++ cs) =
      (codes? cs).map fun (ns, rest) => (charset.codes c ++ ns, rest) := by
  have hletter : ∀ e d : Char, escaped? e = some d → d.toNat < 0x10000 →
      codes? (['\\', e] ++ cs) =
        (codes? cs).map fun (ns, rest) => (charset.codes d ++ ns, rest) := by
    intro e d he hd
    rw [Charset.codes, if_pos (.inr hd)]
    exact codes?_escaped he cs
  unfold escapeChar
  split
  · next h => exact h ▸ hletter '"' '"' (by decide) (by decide)
  next hquote =>
  split
  · next h => exact h ▸ hletter '\\' '\\' (by decide) (by decide)
  next hslash =>
  split
  · next h => exact h ▸ hletter 'n' '\n' (by decide) (by decide)
  split
  · next h => exact h ▸ hletter 'r' '\r' (by decide) (by decide)
  split
  · next h => exact h ▸ hletter 't' '\t' (by decide) (by decide)
  split
  · next h => exact h ▸ hletter 'b' '\x08' (by decide) (by decide)
  split
  · next h => exact h ▸ hletter 'f' '\x0C' (by decide) (by decide)
  split
  · next hholds =>
    have hvisible : ¬ c.toNat < 0x20 := by
      cases charset <;> simp [Charset.holds] at hholds <;> omega
    rw [Charset.codes, if_pos (.inl hholds), List.singleton_append, codes?.eq_def]
    dsimp only
    rw [if_neg hquote, if_neg hslash, if_neg hvisible]
    rfl
  · next hholds =>
    have hvalid := toNat_lt c
    unfold escapeCode Charset.codes
    by_cases hunit : c.toNat < 0x10000
    · rw [if_pos hunit, if_pos (.inr hunit), codes?_escapeUnit hunit]
      rfl
    · rw [if_neg hunit, if_neg (not_or.mpr ⟨hholds, hunit⟩), List.append_assoc,
        codes?_escapeUnit (by omega), codes?_escapeUnit (by omega), Option.map_map]
      rfl

theorem codes?_flatMap (charset : Charset) (cs rest : List Char) :
    codes? (cs.flatMap (escapeChar charset) ++ '"' :: rest) =
      some (cs.flatMap charset.codes, rest) := by
  induction cs with
  | nil =>
      rw [List.flatMap_nil, List.flatMap_nil, List.nil_append, codes?.eq_def]
      exact if_pos rfl
  | cons c cs ih =>
      rw [List.flatMap_cons, List.append_assoc, codes?_escapeChar, ih]
      rfl

theorem ofCodes?_flatMap (charset : Charset) (cs : List Char) :
    ofCodes? (cs.flatMap charset.codes) = some cs := by
  induction cs with
  | nil => rfl
  | cons c cs ih =>
      rw [List.flatMap_cons, ofCodes?_codes, ih]
      rfl

/-! ## Literals -/

/-- The text of a literal is read back, whatever stands behind it. -/
theorem readLiteral?_literal (charset : Charset) (s : String) (rest : List Char) :
    readLiteral? ((literal charset s).toList ++ rest) = some (s.toList, rest) := by
  have hchars : (literal charset s).toList ++ rest =
      '"' :: (s.toList.flatMap (escapeChar charset) ++ '"' :: rest) := by
    simp [literal, literalChars]
  rw [hchars, readLiteral?, codes?_flatMap]
  simp [ofCodes?_flatMap]

/-- A literal has the text that it is written for. -/
theorem unquote?_literal (charset : Charset) (s : String) :
    unquote? (literal charset s).toList = some s := by
  have hread := readLiteral?_literal charset s []
  rw [List.append_nil] at hread
  rw [unquote?, hread]
  simp

/-- Whether the character is a visible one of ASCII, or the blank. -/
def isVisible (c : Char) : Bool :=
  decide (0x20 ≤ c.toNat ∧ c.toNat ≤ 0x7E)

theorem isVisible_escapeUnit {n : Nat} {d : Char} (hd : d ∈ escapeUnit n) :
    isVisible d = true := by
  have hdigit : ∀ k, isVisible (hexDigit (k % 16)) = true := by
    intro k
    have hall : ∀ d < 16, isVisible (hexDigit d) = true := by decide
    exact hall _ (Nat.mod_lt k (by omega))
  simp only [escapeUnit, List.mem_cons, List.not_mem_nil, or_false] at hd
  rcases hd with rfl | rfl | rfl | rfl | rfl | rfl
  · decide
  · decide
  · exact hdigit _
  · exact hdigit _
  · exact hdigit _
  · exact hdigit _

theorem isVisible_escapeCode {n : Nat} {d : Char} (hd : d ∈ escapeCode n) :
    isVisible d = true := by
  unfold escapeCode at hd
  split at hd
  · exact isVisible_escapeUnit hd
  · rcases List.mem_append.mp hd with hd | hd <;> exact isVisible_escapeUnit hd

theorem holds_of_isVisible (charset : Charset) {d : Char} (h : isVisible d = true) :
    charset.holds d = true := by
  cases charset with
  | unicode => exact decide_eq_true (of_decide_eq_true h).1
  | ascii => exact h

theorem holds_of_mem_escapeChar {d : Char} (hd : d ∈ escapeChar charset c) :
    charset.holds d = true := by
  have hletter : ∀ e, isVisible e = true → d ∈ ['\\', e] → charset.holds d = true := by
    intro e he hd
    simp only [List.mem_cons, List.not_mem_nil, or_false] at hd
    rcases hd with rfl | rfl
    · exact holds_of_isVisible charset (by decide)
    · exact holds_of_isVisible charset he
  unfold escapeChar at hd
  split at hd
  · exact hletter _ (by decide) hd
  split at hd
  · exact hletter _ (by decide) hd
  split at hd
  · exact hletter _ (by decide) hd
  split at hd
  · exact hletter _ (by decide) hd
  split at hd
  · exact hletter _ (by decide) hd
  split at hd
  · exact hletter _ (by decide) hd
  split at hd
  · exact hletter _ (by decide) hd
  split at hd
  · next hholds => exact List.mem_singleton.mp hd ▸ hholds
  · exact holds_of_isVisible charset (isVisible_escapeCode hd)

theorem holds_of_mem_literal {s : String} {d : Char} (hd : d ∈ (literal charset s).toList) :
    charset.holds d = true := by
  rw [literal, String.toList_ofList, literalChars, List.mem_cons, List.mem_append,
    List.mem_singleton, List.mem_flatMap] at hd
  rcases hd with rfl | ⟨c, -, hd⟩ | rfl
  · exact holds_of_isVisible charset (by decide)
  · exact holds_of_mem_escapeChar hd
  · exact holds_of_isVisible charset (by decide)

theorem isVisible_literal {s : String} {d : Char} (hd : d ∈ (literal .ascii s).toList) :
    isVisible d = true :=
  holds_of_mem_literal hd

/-- A literal stands on one line. -/
theorem not_mem_literal (charset : Charset) (s : String) : '\n' ∉ (literal charset s).toList := by
  intro hd
  have hholds := holds_of_mem_literal hd
  cases charset <;> exact absurd hholds (by decide)

/-! ## Quotes -/

/-- What may stand between two quotes: a backslash takes the next character with it. -/
inductive Quotable (quote : Char) : List Char → Prop
  | nil : Quotable quote []
  | plain {c : Char} {cs : List Char} : c ≠ quote → c ≠ '\\' → c ≠ '\n' →
      Quotable quote cs → Quotable quote (c :: cs)
  | escaped {c : Char} {cs : List Char} : c ≠ '\n' → Quotable quote cs →
      Quotable quote ('\\' :: c :: cs)

theorem quotable_of_plain {quote : Char} {cs : List Char}
    (h : cs.all (fun c => c != quote && c != '\\' && c != '\n') = true) : Quotable quote cs := by
  induction cs with
  | nil => exact .nil
  | cons c cs ih =>
      simp only [List.all_cons, Bool.and_eq_true, bne_iff_ne] at h
      obtain ⟨⟨⟨hquote, hescape⟩, hbreak⟩, hcs⟩ := h
      exact .plain hquote hescape hbreak (ih hcs)

theorem Quotable.append {quote : Char} {cs ds : List Char} (h : Quotable quote cs)
    (h' : Quotable quote ds) : Quotable quote (cs ++ ds) := by
  induction h with
  | nil => exact h'
  | plain hquote hescape hbreak _ ih => exact .plain hquote hescape hbreak ih
  | escaped hbreak _ ih => exact .escaped hbreak ih

theorem quotable_escapeUnit (n : Nat) : Quotable '"' (escapeUnit n) := by
  refine .escaped (by decide) (quotable_of_plain ?_)
  have hall : ∀ d < 16, (hexDigit d != '"' && hexDigit d != '\\' && hexDigit d != '\n') = true := by
    decide
  simp only [List.all_cons, hall _ (Nat.mod_lt _ (by omega : 0 < 16)), Bool.true_and]
  rfl

theorem quotable_escapeChar (charset : Charset) (c : Char) :
    Quotable '"' (escapeChar charset c) := by
  unfold escapeChar
  by_cases hquote : c = '"'
  · rw [if_pos hquote]
    exact .escaped (by decide) .nil
  rw [if_neg hquote]
  by_cases hslash : c = '\\'
  · rw [if_pos hslash]
    exact .escaped (by decide) .nil
  rw [if_neg hslash]
  by_cases hbreak : c = '\n'
  · rw [if_pos hbreak]
    exact .escaped (by decide) .nil
  rw [if_neg hbreak]
  split
  · exact .escaped (by decide) .nil
  split
  · exact .escaped (by decide) .nil
  split
  · exact .escaped (by decide) .nil
  split
  · exact .escaped (by decide) .nil
  split
  · exact .plain hquote hslash hbreak .nil
  unfold escapeCode
  split
  · exact quotable_escapeUnit _
  · exact (quotable_escapeUnit _).append (quotable_escapeUnit _)

/-- What stands in a literal may stand between its quotes. -/
theorem quotable_flatMap (charset : Charset) (cs : List Char) :
    Quotable '"' (cs.flatMap (escapeChar charset)) := by
  induction cs with
  | nil => exact .nil
  | cons c cs ih => exact (quotable_escapeChar charset c).append ih

/-! ## Integers -/

def digits? (cs : List Char) : Option Nat :=
  if !cs.isEmpty && cs.all Char.isDigit then some (Nat.ofDigitChars 10 cs 0) else none

/-- The integer that digits denote, with a minus in front of them or without. -/
def integer? : List Char → Option Int
  | '-' :: cs => (digits? cs).map fun n => -Int.ofNat n
  | cs => (digits? cs).map Int.ofNat

example : integer? "-120".toList = some (-120) := by decide
example : integer? "12n".toList = none := by decide

theorem mem_toString {n : Int} {c : Char} (h : c ∈ (toString n).toList) :
    c.isDigit = true ∨ c = '-' := by
  have hdigit : ∀ m : Nat, c ∈ m.repr.toList → c.isDigit = true := fun m hm => by
    rw [Nat.toList_repr] at hm
    exact Nat.isDigit_of_mem_toDigits (by omega) (by omega) hm
  rw [Int.toString_eq_repr, Int.repr_eq_if] at h
  split at h
  · exact .inl (hdigit _ h)
  · rcases List.mem_append.mp (String.toList_append ▸ h) with h | h
    · exact .inr (List.mem_singleton.mp h)
    · exact .inl (hdigit _ h)

/-- A word with a letter in it is no integer. -/
theorem ne_toString {n : Int} {word : List Char} {c : Char} (hc : c ∈ word)
    (hdigit : c.isDigit = false) (hminus : c ≠ '-') : (toString n).toList ≠ word := by
  rintro rfl
  rcases mem_toString hc with h | h
  · rw [hdigit] at h
    cases h
  · exact hminus h

theorem digits?_repr (n : Nat) : digits? n.repr.toList = some n := by
  have hne : (Nat.toDigits 10 n).isEmpty = false := by simp [Nat.toDigits_ne_nil]
  have hdigits : (Nat.toDigits 10 n).all Char.isDigit = true :=
    List.all_eq_true.mpr fun c hc => Nat.isDigit_of_mem_toDigits (by omega) (by omega) hc
  rw [Nat.toList_repr, digits?, hne, hdigits, Nat.ofDigitChars_toDigits (by omega) (by omega)]
  rfl

/-- An integer is read back. -/
theorem integer?_toString (n : Int) : integer? (toString n).toList = some n := by
  rw [Int.toString_eq_repr, Int.repr_eq_if]
  split
  · next hn =>
    have hdigits := digits?_repr n.toNat
    have hplain : ∀ cs, n.toNat.repr.toList ≠ '-' :: cs := by
      intro cs hcs
      have hminus : '-' ∈ Nat.toDigits 10 n.toNat := by
        rw [← Nat.toList_repr, hcs]
        exact List.mem_cons_self
      exact absurd (Nat.isDigit_of_mem_toDigits (by omega) (by omega) hminus) (by decide)
    rw [integer?, hdigits, Option.map_some, Int.ofNat_eq_natCast, Int.toNat_of_nonneg hn]
    exact hplain
  · next hn =>
    have hminus : "-".toList ++ (-n).toNat.repr.toList = '-' :: (-n).toNat.repr.toList := rfl
    rw [String.toList_append, hminus, integer?, digits?_repr, Option.map_some, Option.some.injEq,
      Int.ofNat_eq_natCast]
    omega

end ClientSdk.Text
