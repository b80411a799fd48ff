import ClientSdk.Proofs.Text.Literal
import ClientSdk.Proofs.TypeExpr.Written

/-!
# Names of members read back

The name of a member is a bare identifier, which stands for itself, or a string literal, which
stands for its text.  Every text that is the key of a property is read back as itself, but for
an identifier with a line break behind it: that one is written bare, and the line break is lost
(`nameOfKey_eq_self_iff`).  So keys that differ have names that differ unless one is the other
with a line break behind it (`nameOfKey_eq_iff`).

In the text of an object type a member stands moved in, which puts blanks behind a line break;
they are passed over like those in front of the type (`read?_declaration`).
-/

namespace ClientSdk

open TypeText (bareName)

namespace MemberKey

/-! ## The reader -/

/-- The name that the characters begin with, and what stands behind it. -/
def name? (cs : List Char) : Option (String × List Char) :=
  match Text.readLiteral? cs with
  | some (name, rest) => some (String.ofList name, rest)
  | none => (Text.leadingIdentifier? cs).map fun name => (String.ofList name, cs.drop name.length)

/-- The characters behind blanks and line breaks. -/
def skip (cs : List Char) : List Char :=
  cs.dropWhile fun c => c == ' ' || c == '\n'

/-- The name of the member that the characters begin with, and whether it may be left out. -/
def read? (cs : List Char) : Option (String × Bool) :=
  (name? cs).bind fun (name, rest) =>
    match skip rest with
    | ':' :: _ => some (name, false)
    | '?' :: rest => if (skip rest).head? = some ':' then some (name, true) else none
    | _ => none

example : read? "a\n  ?: string;".toList = some ("a", true) := by decide
example : read? "\"a\\n\": string;".toList = some ("a\n", false) := by decide +kernel

/-! ## Names -/

def nameOfKey (key : String) : String :=
  if Text.isIdentifierLine key then bareName key else key

/-- The key is the identifier with a line break behind it. -/
def IsBroken (key name : String) : Prop :=
  Text.isIdentifierChars name.toList = true ∧ key = name ++ "\n"

variable {key name : String}

theorem bareName_of_break (name : String) : bareName (name ++ "\n") = name := by
  simp [bareName, Text.dropFinalBreak]

theorem IsBroken.nameOfKey_eq (h : IsBroken key name) : nameOfKey key = name := by
  obtain ⟨hname, rfl⟩ := h
  have hline : Text.isIdentifierLine (name ++ "\n") = true := by
    rw [← bareName_of_break name, bareName, String.toList_ofList] at hname
    exact hname
  rw [nameOfKey, if_pos hline, bareName_of_break]

theorem nameOfKey_eq_of_not_isBroken (h : ¬ ∃ name, IsBroken key name) : nameOfKey key = key := by
  unfold nameOfKey
  split
  · next hline =>
    rcases TypeText.eq_bareName_or key with hkey | hkey
    · exact hkey.symm
    · refine absurd ⟨bareName key, ?_, hkey⟩ h
      rw [bareName, String.toList_ofList]
      exact hline
  · rfl

theorem nameOfKey_eq_self_iff : nameOfKey key = key ↔ ¬ ∃ name, IsBroken key name := by
  refine ⟨?_, nameOfKey_eq_of_not_isBroken⟩
  rintro hself ⟨name, hbroken⟩
  have hlength := congrArg String.length (hbroken.nameOfKey_eq.symm.trans (hself.trans hbroken.2))
  rw [String.length_append] at hlength
  exact absurd hlength (by simp)

theorem nameOfKey_eq_iff {key' : String} : nameOfKey key = nameOfKey key' ↔
    key = key' ∨ IsBroken key key' ∨ IsBroken key' key := by
  constructor
  · intro h
    by_cases hkey : ∃ name, IsBroken key name <;> by_cases hkey' : ∃ name, IsBroken key' name
    · obtain ⟨name, hname⟩ := hkey
      obtain ⟨name', hname'⟩ := hkey'
      rw [hname.nameOfKey_eq, hname'.nameOfKey_eq] at h
      rw [hname.2, hname'.2, h]
      exact .inl rfl
    · obtain ⟨name, hname⟩ := hkey
      rw [hname.nameOfKey_eq, nameOfKey_eq_of_not_isBroken hkey'] at h
      exact .inr (.inl (h ▸ hname))
    · obtain ⟨name', hname'⟩ := hkey'
      rw [hname'.nameOfKey_eq, nameOfKey_eq_of_not_isBroken hkey] at h
      exact .inr (.inr (h ▸ hname'))
    · rw [nameOfKey_eq_of_not_isBroken hkey, nameOfKey_eq_of_not_isBroken hkey'] at h
      exact .inl h
  · -- Where the broken key ends in an identifier, that identifier is not broken itself.
    have hbroken : ∀ {key key' : String}, IsBroken key key' → nameOfKey key = nameOfKey key' := by
      intro key key' h
      rw [h.nameOfKey_eq]
      refine (nameOfKey_eq_self_iff.mpr ?_).symm
      rintro ⟨name, -, rfl⟩
      have hbreak : '\n' ∈ (name ++ "\n").toList := by simp
      exact absurd ((Text.continues_of_isIdentifierChars h.1).2 _ hbreak) (by decide)
    rintro (rfl | h | h)
    · rfl
    · exact hbroken h
    · exact (hbroken h).symm

/-! ## Reading -/

/-- The characters do not go on an identifier. -/
def Ends (cs : List Char) : Prop :=
  ∀ c, cs.head? = some c → Text.continuesIdentifier c = false

theorem name?_identifier {token rest : List Char} (htoken : Text.isIdentifierChars token = true)
    (hrest : Ends rest) : name? (token ++ rest) = some (String.ofList token, rest) := by
  have hunquoted : Text.readLiteral? (token ++ rest) = none := by
    cases token with
    | nil => cases htoken
    | cons c cs =>
        have hstarts := (Bool.and_eq_true_iff.mp htoken).1
        rw [List.cons_append, Text.readLiteral?]
        rintro _ ⟨⟩
        exact absurd hstarts (by decide)
  rw [name?, hunquoted, Text.leadingIdentifier?_eq_some_iff.mpr ⟨htoken, rest, rfl, hrest⟩]
  dsimp only
  rw [Option.map_some, List.drop_left]

theorem name?_literal (s : String) (rest : List Char) :
    name? ((Text.literal .unicode s).toList ++ rest) = some (s, rest) := by
  rw [name?, Text.readLiteral?_literal]
  dsimp only
  rw [String.ofList_toList]

theorem nameOfKey_of_reserved (h : Text.reservedWords.contains key = true) :
    nameOfKey key = key := by
  refine nameOfKey_eq_of_not_isBroken ?_
  rintro ⟨name, -, rfl⟩
  have hnone : ∀ word ∈ Text.reservedWords, word.toList.getLast? ≠ some '\n' := by decide
  refine hnone _ (List.contains_iff_mem.mp h) ?_
  rw [String.toList_append]
  exact List.getLast?_concat

/-- The name of a member is one token, with a line break behind it or not, and the token is read
back as the name of the key wherever it does not go on. -/
theorem exists_token (key : String) : ∃ token gap, (memberName key).toList = token ++ gap ∧
    '\n' ∉ token ∧ (gap = [] ∨ gap = ['\n']) ∧
    ∀ rest, Ends rest → name? (token ++ rest) = some (nameOfKey key, rest) := by
  unfold memberName
  split
  · next hbare =>
    have hline := (Bool.and_eq_true_iff.mp hbare).1
    have hname : nameOfKey key = bareName key := if_pos hline
    have htoken : Text.isIdentifierChars (bareName key).toList = true := by
      rw [bareName, String.toList_ofList]
      exact hline
    obtain ⟨gap, hgap, hkey⟩ : ∃ gap, (gap = [] ∨ gap = ['\n']) ∧
        key.toList = (bareName key).toList ++ gap := by
      rcases TypeText.eq_bareName_or key with hkey | hkey
      · exact ⟨[], .inl rfl, by rw [List.append_nil, ← hkey]⟩
      · refine ⟨['\n'], .inr rfl, ?_⟩
        rw [← String.toList_inj, String.toList_append] at hkey
        exact hkey
    refine ⟨(bareName key).toList, gap, hkey, fun hbreak => ?_, hgap, fun rest hrest => ?_⟩
    · exact absurd ((Text.continues_of_isIdentifierChars htoken).2 _ hbreak) (by decide)
    · rw [name?_identifier htoken hrest, String.ofList_toList, hname]
  · next hquoted =>
    have hname : nameOfKey key = key := by
      by_cases hline : Text.isIdentifierLine key = true
      · exact nameOfKey_of_reserved (by simpa [hline] using hquoted)
      · exact if_neg hline
    refine ⟨_, [], (List.append_nil _).symm, Text.not_mem_literal _ _, .inl rfl, fun rest _ => ?_⟩
    rw [name?_literal, hname]

theorem skip_append {gap : List Char} (hgap : ∀ c ∈ gap, c = ' ' ∨ c = '\n') {c : Char}
    (hc : c ≠ ' ' ∧ c ≠ '\n') (rest : List Char) : skip (gap ++ c :: rest) = c :: rest := by
  rw [skip, List.dropWhile_append_of_pos fun d hd => by simpa using hgap d hd,
    List.dropWhile_cons_of_neg (by simpa using hc)]

/-- The mark of a member that may be left out. -/
def markOf (optional : Bool) : List Char :=
  if optional then ['?'] else []

theorem read?_token {token gap rest : List Char} {name : String} (optional : Bool)
    (hgap : ∀ c ∈ gap, c = ' ' ∨ c = '\n')
    (htoken : ∀ rest, Ends rest → name? (token ++ rest) = some (name, rest)) :
    read? (token ++ (gap ++ (markOf optional ++ ':' :: rest))) = some (name, optional) := by
  have hends : Ends (gap ++ (markOf optional ++ ':' :: rest)) := by
    intro c hc
    cases gap with
    | nil =>
        cases optional <;> cases hc <;> decide
    | cons d gap =>
        cases hc
        rcases hgap c List.mem_cons_self with rfl | rfl <;> decide
  rw [read?, htoken _ hends, Option.bind_some]
  dsimp only
  cases optional with
  | false =>
      have hskip : skip (gap ++ (markOf false ++ ':' :: rest)) = ':' :: rest :=
        skip_append hgap (by decide) rest
      rw [hskip]
      rfl
  | true =>
      have hskip : skip (gap ++ (markOf true ++ ':' :: rest)) = '?' :: ':' :: rest :=
        skip_append hgap (by decide) _
      rw [hskip]
      rfl

open Text (moved)

theorem exists_gap {gap : List Char} (hgap : gap = [] ∨ gap = ['\n']) (n : Nat) (optional : Bool)
    (tail : List Char) : ∃ gap' tail', (∀ c ∈ gap', c = ' ' ∨ c = '\n') ∧
      moved (List.replicate n ' ') (gap ++ (markOf optional ++ ':' :: tail)) =
        gap' ++ (markOf optional ++ ':' :: tail') := by
  have hmark : ∃ tail', moved (List.replicate n ' ') (markOf optional ++ ':' :: tail) =
      markOf optional ++ ':' :: tail' := by
    refine ⟨moved (List.replicate n ' ') tail, ?_⟩
    cases optional <;> simp [markOf, Text.moved_cons_of_ne]
  obtain ⟨tail', htail⟩ := hmark
  rcases hgap with rfl | rfl
  · exact ⟨[], tail', by simp, by rw [List.nil_append, htail, List.nil_append]⟩
  · refine ⟨'\n' :: List.replicate n ' ', tail', by simp, ?_⟩
    have hfront : Text.front (List.replicate n ' ') (markOf optional ++ ':' :: tail) =
        List.replicate n ' ' := by
      cases optional <;> simp [markOf, Text.front]
    rw [List.singleton_append, Text.moved_break, hfront, htail, List.cons_append]

theorem read?_declaration (n : Nat) (key comment : String) (optional : Bool) (value : TypeExpr)
    (behind : List Char) :
    read? (moved (List.replicate n ' ')
      (TypeMember.property comment (memberName key) optional value).declaration.toList ++ behind) =
        some (nameOfKey key, optional) := by
  obtain ⟨token, gap, hname, hbreak, hgap, hread⟩ := exists_token key
  obtain ⟨tail, hdeclaration⟩ : ∃ tail,
      (TypeMember.property comment (memberName key) optional value).declaration.toList =
        token ++ (gap ++ (markOf optional ++ ':' :: tail)) := by
    refine ⟨' ' :: (value.text.toList ++ [';']), ?_⟩
    cases optional <;> simp [TypeMember.declaration, hname, markOf]
  obtain ⟨gap', tail', hgap', hmoved⟩ := exists_gap hgap n optional tail
  rw [hdeclaration, Text.moved_append_of_not_mem hbreak, hmoved]
  have hassoc : token ++ (gap' ++ (markOf optional ++ ':' :: tail')) ++ behind =
      token ++ (gap' ++ (markOf optional ++ ':' :: (tail' ++ behind))) := by simp
  rw [hassoc, read?_token optional hgap' hread]

end MemberKey

namespace TypeExpr

open MemberKey (nameOfKey IsBroken)

variable {c : Config} {s : TypeShape} {inEscape : Bool} {t : TypeExpr} {o : ObjectShape}

/-- The keys of a written object are read back from the members in its type, each with whether
the member may be left out: all but those that are an identifier with a line break behind it,
for which the identifier is read.  So the members of two properties have the same name if and
only if their keys are equal, or one is the other with such a line break.  By itself, too, the
name that is written for a text is read back as the text, with this exception. -/
theorem keys_read_back {l l' : Ledger}
    (hwrite : l.fulfil (ofShape c inEscape s) = (.ok t, l'))
    (hobject : s.Writes inEscape (.object o)) (hanonymous : o.anonymous = .ok true) :
    (∀ p ∈ o.properties, ∀ key, p.key.soleLiteral? = some (.text key) →
      ∃ members m before place behind, t.Has (.object members) ∧ m ∈ members ∧ m.Writes c p ∧
        t.text.toList = before ++ (place ++ behind) ∧
        (∃ n, place = Text.moved (List.replicate n ' ') m.declaration.toList) ∧
        MemberKey.read? (place ++ behind) = some (nameOfKey key, !p.value.required)) ∧
    (∀ key, ∃ gap, (gap = [] ∨ gap = ['\n']) ∧
      MemberKey.name? (memberName key).toList = some (nameOfKey key, gap)) ∧
    (∀ key, nameOfKey key = key ↔ ¬ ∃ name, IsBroken key name) ∧
    ∀ key key', nameOfKey key = nameOfKey key' ↔
      key = key' ∨ IsBroken key key' ∨ IsBroken key' key := by
  refine ⟨fun p hp key hkey => ?_, fun key => ?_, fun _ => MemberKey.nameOfKey_eq_self_iff,
    fun _ _ => MemberKey.nameOfKey_eq_iff⟩
  · obtain ⟨-, hresult⟩ := Ledger.registerAll_of_fulfil hwrite
    obtain ⟨ts, hts, hhas⟩ := exists_of_writes hobject hresult
    obtain ⟨m, hwrites, members, hm, u, hu, hmembers⟩ := exists_member_of_object hanonymous hts hp
    have hin := (hhas u hu).trans hmembers
    have hstands : Text.StandsIn m.declaration t.text :=
      (standsIn_object hm (Comment.standsIn_above _ _)).trans (standsIn_of_has hin)
    obtain ⟨n, before, behind, htext⟩ := hstands
    refine ⟨members, m, before, _, behind, hin, hm, hwrites,
      by rw [← htext, List.append_assoc], ⟨n, rfl⟩, ?_⟩
    cases hwrites with
    | @property name value comment hname =>
        obtain rfl : name = .text key := Option.some.inj (hname.symm.trans hkey)
        exact MemberKey.read?_declaration n key comment (!p.value.required) value behind
    | index hsole => simp [TypeShape.isSoleLiteral, hkey] at hsole
  · obtain ⟨token, gap, hname, -, hgap, hread⟩ := MemberKey.exists_token key
    refine ⟨gap, hgap, ?_⟩
    rw [hname, hread gap]
    intro c hc
    rcases hgap with rfl | rfl <;> cases hc
    decide

/-- A property that is a text and may be left out. -/
def textProperty (key : String) : PropertyShape :=
  { key := literalSegment key, value := { atomicSegment "string" with required := false } }

def shapeOfKeys (keys : List String) : TypeShape :=
  { objects := [{ properties := keys.map textProperty }] }

/-- A reserved word, texts that are no identifiers, and an identifier. -/
def awkwardKeys : List String := ["class", "a: b?", "\"\n", "", "é", "$x"]

/-- The statement for these keys. -/
theorem keys_read_back_of_awkwardKeys :
    ∃ t, ((Ledger.forFile .root "api/a.ts").fulfil
        (ofShape { output := "api" } false (shapeOfKeys awkwardKeys))).1 = .ok t ∧
      ∀ key ∈ awkwardKeys, ∃ before after,
        t.text.toList = before ++ after ∧ MemberKey.read? after = some (key, true) := by
  obtain ⟨t, ht⟩ : ∃ t, ((Ledger.forFile .root "api/a.ts").fulfil
      (ofShape { output := "api" } false (shapeOfKeys awkwardKeys))).1 = .ok t := ⟨_, rfl⟩
  refine ⟨t, ht, fun key hkey => ?_⟩
  have hself : ∀ key ∈ awkwardKeys, nameOfKey key = key := by decide
  have hproperty : textProperty key ∈ awkwardKeys.map textProperty := List.mem_map_of_mem hkey
  obtain ⟨-, -, before, place, behind, -, -, -, htext, -, hread⟩ :=
    (keys_read_back (Prod.ext ht rfl) (.part (List.mem_singleton_self _)) rfl).1 _ hproperty key rfl
  exact ⟨before, place ++ behind, htext, by rw [hread, hself key hkey]; rfl⟩

/-- A line break behind an identifier is lost: two properties with different keys come out as
members with the same name. -/
theorem key_loses_break :
    "a" ≠ "a\n" ∧
    (∃ t : TypeExpr, ((Ledger.forFile .root "api/a.ts").fulfil (ofShape { output := "api" } false
        (shapeOfKeys ["a", "a\n"]))).1 = .ok t ∧
      t.text = "\x7b\n  a?: undefined | string;\n  a\n  ?: undefined | string;\n\x7d") ∧
    MemberKey.name? (memberName "a").toList = some ("a", []) ∧
    MemberKey.name? (memberName "a\n").toList = some ("a", ['\n']) := by
  refine ⟨by decide, ⟨_, rfl, by decide⟩, by decide, by decide⟩

end TypeExpr

end ClientSdk
