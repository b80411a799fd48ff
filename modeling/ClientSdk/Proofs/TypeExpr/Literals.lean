import ClientSdk.Proofs.Text.Literal
import ClientSdk.Proofs.TypeExpr.Children
import ClientSdk.Proofs.TypeExpr.Parts
import ClientSdk.Proofs.TypeExpr.Phrase
import ClientSdk.Shape.Decode

/-!
# Unions of literals read back

A shape that has nothing but constants is written as the union of their values.  A reader that
cuts this text at the strokes outside string literals, and decodes what is left one by one, gets
the values back in their order, and with them which ones were written as big integers
(`literals_read_back`).  An integer with more digits than can be written is not written at all.

That takes two facts about one member: the text of a value is cut into items of which none is a
stroke, and the items decode to the value (`exists_literal`).  What a string literal holds is
one item whatever its characters are, so it neither adds a member nor takes one in.
-/

namespace ClientSdk

open TypeText (Item Cuts)

/-- Whether the kind of a constant is that of big integers. -/
def Value.isBigint (kind : Value) : Bool :=
  kind.text? == some "bigint"

/-- Whether the value is a truth value, an integer or a text. -/
def Value.isExact : Value → Bool
  | .bool _ | .int _ | .text _ => true
  | _ => false

/-! ## The reader -/

namespace LiteralUnion

/-- The value of a member that is no string literal, and whether it is a big integer. -/
def ofWord? (word : List Char) : Option (Value × Bool) :=
  if word = "true".toList then some (.bool true, false)
  else if word = "false".toList then some (.bool false, false)
  else
    match word.reverse with
    | 'n' :: digits => (Text.integer? digits.reverse).map fun n => (.int n, true)
    | _ => (Text.integer? word).map fun n => (.int n, false)

/-- The value of a member, and whether it is a big integer. -/
def member? : List Item → Option (Value × Bool)
  | [.quoted raw] => (Text.unquote? raw).map fun s => (.text s, false)
  | items => (items.mapM Item.char?).bind ofWord?

/-- The values of a union of literals, each with whether it is a big integer. -/
def read? (text : String) : Option (List (Value × Bool)) :=
  (TypeText.items? text).bind fun items => (items.splitOnP (Item.is '|')).mapM member?

example : (read? "true | -5 | 7n | \"a | 1\"").map (·.map fun (v, bigint) => (v.text?, bigint)) =
    some [(none, false), (none, false), (none, true), (some "a | 1", false)] := by
  decide +kernel

end LiteralUnion

/-! ## One member -/

open LiteralUnion

theorem ofWord?_toString (n : Int) : ofWord? (toString n).toList = some (.int n, false) := by
  have htrue : (toString n).toList ≠ "true".toList :=
    Text.ne_toString (c := 't') (by decide) (by decide) (by decide)
  have hfalse : (toString n).toList ≠ "false".toList :=
    Text.ne_toString (c := 'f') (by decide) (by decide) (by decide)
  rw [ofWord?, if_neg htrue, if_neg hfalse]
  split
  · next digits hdigits =>
    have hn : 'n' ∈ (toString n).toList := by
      rw [← List.mem_reverse, hdigits]
      exact List.mem_cons_self
    exact absurd rfl (Text.ne_toString hn (by decide) (by decide))
  · rw [Text.integer?_toString]
    rfl

theorem ofWord?_bigint (n : Int) :
    ofWord? ((toString n).toList ++ ['n']) = some (.int n, true) := by
  have hlast : ∀ word : List Char, word.getLast? ≠ some 'n' →
      (toString n).toList ++ ['n'] ≠ word := by
    rintro _ hword rfl
    exact hword List.getLast?_concat
  rw [ofWord?, if_neg (hlast _ (by decide)), if_neg (hlast _ (by decide)), List.reverse_append,
    List.reverse_singleton, List.singleton_append]
  change (Text.integer? (toString n).toList.reverse.reverse).map _ = _
  rw [List.reverse_reverse, Text.integer?_toString]
  rfl

/-- A text is one member of a union of literals, and is decoded to the value. -/
def IsLiteral (text : String) (member : Value × Bool) : Prop :=
  ∃ items, Cuts text.toList items ∧ (∀ i ∈ items, i.is '|' = false) ∧
    LiteralUnion.member? items = some member

theorem isLiteral_word {word : String} {member : Value × Bool} (h : TypeText.IsWord word.toList)
    (hvalue : ofWord? word.toList = some member) : IsLiteral word member := by
  refine ⟨word.toList.map .char, h.cuts, fun i hi => ?_, ?_⟩
  · exact Item.is_eq_false_of_operator? (TypeText.bare_word h i hi) (.inl rfl)
  · obtain ⟨c, cs, hcs, -⟩ := h.head
    have hchars := Item.mapM_char? word.toList
    rw [hcs, List.map_cons] at hchars ⊢
    rw [LiteralUnion.member?, hchars, Option.bind_some, ← hcs, hvalue]
    rintro raw ⟨⟩

theorem isLiteral_text (s : String) : IsLiteral (Text.literal .unicode s) (.text s, false) := by
  refine ⟨_, .literal s, by simp [Item.is], ?_⟩
  rw [LiteralUnion.member?, Text.unquote?_literal]
  rfl

theorem exists_literal {kind v : Value} (hexact : v.isExact = true)
    (hbigint : kind.isBigint = true → ∃ n, v = .int n) :
    ∃ text, v.literalForm kind = .ok text ∧ IsLiteral text (v, kind.isBigint) := by
  by_cases hkind : kind = .text "bigint"
  · subst hkind
    obtain ⟨n, rfl⟩ := hbigint (by decide)
    refine ⟨toString n ++ "n", rfl, isLiteral_word ?_ ?_⟩
    · rw [String.toList_append]
      exact (TypeText.isWord_toString n).append rfl
    · rw [String.toList_append]
      exact ofWord?_bigint n
  · have hplain : kind.isBigint = false := by
      cases kind with
      | text s => simpa [Value.isBigint, Value.text?] using hkind
      | _ => rfl
    rw [hplain]
    cases v with
    | bool b =>
        refine ⟨_, rfl, ?_⟩
        cases b <;> exact isLiteral_word (by decide) rfl
    | int n =>
        refine ⟨toString n, ?_, isLiteral_word (TypeText.isWord_toString n) (ofWord?_toString n)⟩
        rw [Value.literalForm]
        exact hkind
    | text s =>
        refine ⟨_, ?_, isLiteral_text s⟩
        rw [Value.literalForm]
        · rfl
        · exact fun _ => nofun
        · exact fun _ => nofun
        · exact fun _ => nofun
        · exact hkind
    | null | float | list | map => cases hexact

/-! ## Constants -/

def Constant.pairs (constants : List Constant) : List (Value × Value) :=
  constants.flatMap fun k => k.values.map (k.kind, ·)

theorem Constant.int_of_bigint {data : Value} {k : Constant} (h : Constant.ofValue data = .ok k)
    (hkind : k.kind.isBigint = true) : ∀ v ∈ k.values, ∃ n, v = .int n := by
  obtain ⟨kind, -, h⟩ := Except.bind_eq_ok_iff.mp h
  obtain ⟨entries, -, h⟩ := Except.bind_eq_ok_iff.mp h
  obtain ⟨values, -, h⟩ := Except.bind_eq_ok_iff.mp h
  split at h
  · obtain ⟨numbers, hnumbers, h⟩ := Except.bind_eq_ok_iff.mp h
    cases h
    intro v hv
    obtain ⟨w, -, hw⟩ := Except.exists_of_mem_mapM hnumbers hv
    obtain ⟨n, -, hw⟩ := Except.bind_eq_ok_iff.mp hw
    cases hw
    exact ⟨n, rfl⟩
  · next hother =>
    cases h
    cases kind <;> simp_all [Value.isBigint, Value.text?]

theorem TypeExpr.ofConstants_eq_pure {constants : List Constant} {texts : List String}
    (h : List.Forall₂ (fun kv text => kv.2.literalType kv.1 = .ok text)
      (Constant.pairs constants) texts) :
    ofConstants constants = pure (texts.map .literal) := by
  rw [ofConstants, ← Constant.pairs]
  generalize Constant.pairs constants = pairs at h
  induction h with
  | nil => rfl
  | @cons kv text _ _ htext _ ih =>
      obtain ⟨kind, v⟩ := kv
      have hfirst : ofLiteral kind v = pure (.literal text) := by
        rw [ofLiteral, htext]
        rfl
      rw [List.mapM_cons, ih]
      dsimp only
      rw [hfirst]
      rfl

theorem TypeExpr.ofShape_constants (c : Config) (inEscape : Bool) (constants : List Constant) :
    ofShape c inEscape { constants } = unionOf <$> ofConstants constants := by
  rw [ofShape, map_eq_pure_bind]
  cases inEscape <;> simp [ofEscaped, ofTemplates, ofTuples, ofArrays, ofObjects, ofSwitches]

theorem TypeExpr.ofConstants_eq_fail {constants : List Constant}
    (h : ∀ kv ∈ Constant.pairs constants, ∃ form, kv.2.literalForm kv.1 = .ok form)
    (hlong : ∃ kv ∈ Constant.pairs constants, kv.2.isTooLong = true) :
    ofConstants constants = .fail (.value .tooLongToWrite) := by
  rw [ofConstants, ← Constant.pairs]
  generalize Constant.pairs constants = pairs at h hlong
  induction pairs with
  | nil => simp at hlong
  | cons kv rest ih =>
      obtain ⟨⟨form, hform⟩, hrest⟩ := List.forall_mem_cons.mp h
      obtain ⟨kind, v⟩ := kv
      rw [List.mapM_cons]
      dsimp only
      cases hv : v.isTooLong with
      | true =>
          rw [ofLiteral, Value.literalType_of_tooLong hv hform]
          rfl
      | false =>
          have htext : v.literalType kind = .ok form :=
            Value.literalType_eq_ok_iff.mpr ⟨hv, hform⟩
          have hother := ih hrest (by simpa [hv] using hlong)
          rw [hother, ofLiteral, htext]
          rfl

theorem TypeExpr.text_unionOf_literals {texts : List String} (hne : texts ≠ []) :
    (unionOf (texts.map .literal)).text = " | ".intercalate texts := by
  have hgroup : ∀ text : String, group (.literal text) text = text := fun _ => rfl
  match texts, hne with
  | [text], _ => simp [unionOf, TypeExpr.text]
  | first :: second :: rest, _ =>
      simp [unionOf, TypeExpr.text, groupedTexts_eq, Function.comp_def, hgroup]

theorem LiteralUnion.read?_intercalate {texts : List String} {members : List (Value × Bool)}
    (hne : texts ≠ []) (h : List.Forall₂ IsLiteral texts members) :
    read? (" | ".intercalate texts) = some members := by
  have hglue : Cuts " | ".toList [.char '|'] :=
    (Cuts.blank (.inl rfl)).append ((Cuts.char (by decide)).append (.blank (.inl rfl)))
  obtain ⟨itemss, hitems⟩ : ∃ itemss, List.Forall₂ (fun text items => Cuts text.toList items)
      texts itemss ∧ (∀ items ∈ itemss, ∀ i ∈ items, i.is '|' = false) ∧
      itemss.mapM member? = some members := by
    clear hne
    induction h with
    | nil => exact ⟨[], .nil, by simp, rfl⟩
    | cons hfirst _ ih =>
        obtain ⟨items, hcuts, hbare, hmember⟩ := hfirst
        obtain ⟨itemss, hcutss, hbares, hmembers⟩ := ih
        exact ⟨items :: itemss, .cons hcuts hcutss, List.forall_mem_cons.mpr ⟨hbare, hbares⟩,
          by simp [hmember, hmembers]⟩
  obtain ⟨hcuts, hbare, hmembers⟩ := hitems
  have hne' : itemss ≠ [] := by
    rintro rfl
    cases hcuts
    exact hne rfl
  have hwhole : Cuts (" | ".intercalate texts).toList ([.char '|'].intercalate itemss) := by
    rw [String.toList_intercalate]
    exact hglue.intercalate (List.forall₂_map_left_iff.mpr hcuts)
  rw [read?, TypeText.items?_of_cuts hwhole, Option.bind_some,
    TypeText.splitOnP_intercalate (by simp [Item.is]) hne' hbare, hmembers]

/-- For constants that a document gives, of which at least one has a value, and whose values are
truth values, integers and texts, the type is written without an import, and its text is read
back as the values in their order, with those of big integers marked as such, unless one of the
integers has too many digits: then nothing is written. -/
theorem TypeExpr.literals_read_back (c : Config) (l : Ledger) (inEscape : Bool)
    {data : List Value} {constants : List Constant}
    (hdata : data.mapM Constant.ofValue = .ok constants)
    (hexact : ∀ k ∈ constants, ∀ v ∈ k.values, v.isExact = true)
    (hsome : ∃ k ∈ constants, k.values ≠ []) :
    ((∀ k ∈ constants, ∀ v ∈ k.values, v.isTooLong = false) →
      ∃ t, l.fulfil (ofShape c inEscape { constants }) = (.ok t, l) ∧
        LiteralUnion.read? t.text = some (constants.flatMap fun k =>
          k.values.map fun v => (v, k.kind.isBigint))) ∧
    ((∃ k ∈ constants, ∃ v ∈ k.values, v.isTooLong = true) →
      l.fulfil (ofShape c inEscape { constants }) = (.error (.value .tooLongToWrite), l)) := by
  have hforms : ∀ kv ∈ Constant.pairs constants, ∃ text,
      kv.2.literalForm kv.1 = .ok text ∧ IsLiteral text (kv.2, kv.1.isBigint) := by
    intro kv hkv
    obtain ⟨k, hk, hkv⟩ := List.mem_flatMap.mp hkv
    obtain ⟨v, hv, rfl⟩ := List.mem_map.mp hkv
    obtain ⟨document, -, hdocument⟩ := Except.exists_of_mem_mapM hdata hk
    exact exists_literal (hexact k hk v hv) fun hkind =>
      Constant.int_of_bigint hdocument hkind v hv
  constructor
  · intro hshort
    have hliterals : ∀ kv ∈ Constant.pairs constants, ∃ text,
        kv.2.literalType kv.1 = .ok text ∧ IsLiteral text (kv.2, kv.1.isBigint) := by
      intro kv hkv
      obtain ⟨text, hform, hread⟩ := hforms kv hkv
      obtain ⟨k, hk, hkv⟩ := List.mem_flatMap.mp hkv
      obtain ⟨v, hv, rfl⟩ := List.mem_map.mp hkv
      exact ⟨text, Value.literalType_eq_ok_iff.mpr ⟨hshort k hk v hv, hform⟩, hread⟩
    obtain ⟨texts, htexts, hread⟩ := TypeText.exists_forall₂ hliterals
    have hne : texts ≠ [] := by
      obtain ⟨k, hk, hvalues⟩ := hsome
      obtain ⟨v, hv⟩ := List.exists_mem_of_ne_nil _ hvalues
      have hpair : (k.kind, v) ∈ Constant.pairs constants :=
        List.mem_flatMap.mpr ⟨k, hk, List.mem_map_of_mem hv⟩
      obtain ⟨text, htext, -⟩ := htexts.exists_of_mem hpair
      exact List.ne_nil_of_mem htext
    refine ⟨unionOf (texts.map .literal), ?_, ?_⟩
    · rw [ofShape_constants, ofConstants_eq_pure htexts]
      rfl
    · rw [text_unionOf_literals hne, LiteralUnion.read?_intercalate hne hread]
      simp [Constant.pairs, List.map_flatMap, Function.comp_def]
  · rintro ⟨k, hk, v, hv, hlong⟩
    have hpair : (k.kind, v) ∈ Constant.pairs constants :=
      List.mem_flatMap.mpr ⟨k, hk, List.mem_map_of_mem hv⟩
    have hfail := ofConstants_eq_fail
      (fun kv hkv => (hforms kv hkv).imp fun _ h => h.1) ⟨_, hpair, hlong⟩
    rw [ofShape_constants, hfail]
    rfl

/-- Constants of a document: big integers, of which one is given as a text, and texts with what
stands between members and around literals. -/
def mixedConstants : List Value := [
  .map [("type", .text "bigint"), ("values", .list [.text "-12", .int 7])],
  .map [("type", .text "string"), ("values", .list [.text "a\" | \"b\\", .text "1n\n", .text ""])],
  .map [("type", .text "number"), ("values", .list [.int (-3)])],
  .map [("type", .text "boolean"), ("values", .list [.bool false])]]

/-- The statement for constants of four kinds. -/
theorem TypeExpr.literals_read_back_of_mixedConstants :
    ∃ constants t, mixedConstants.mapM Constant.ofValue = .ok constants ∧
      ((Ledger.forFile .root "api/a.ts").fulfil
        (ofShape { output := "api" } false { constants })).1 = .ok t ∧
      LiteralUnion.read? t.text = some [(.int (-12), true), (.int 7, true),
        (.text "a\" | \"b\\", false), (.text "1n\n", false), (.text "", false),
        (.int (-3), false), (.bool false, false)] := by
  have hdata : mixedConstants.mapM Constant.ofValue = .ok [
      ⟨.text "bigint", [.int (-12), .int 7]⟩,
      ⟨.text "string", [.text "a\" | \"b\\", .text "1n\n", .text ""]⟩,
      ⟨.text "number", [.int (-3)]⟩, ⟨.text "boolean", [.bool false]⟩] := rfl
  obtain ⟨hwritten, -⟩ := literals_read_back { output := "api" } (.forFile .root "api/a.ts") false
    hdata (by simp [Value.isExact]) ⟨_, List.mem_cons_self, List.cons_ne_nil _ _⟩
  obtain ⟨t, ht, hread⟩ := hwritten (by decide +kernel)
  exact ⟨_, t, hdata, congrArg Prod.fst ht, hread⟩

theorem Value.isTooLong_of_le {k n : ℕ} (hk : integerDigitLimit ≤ k) (h : Nat.pow 10 k ≤ n) :
    (Value.int n).isTooLong = true := by
  rw [isTooLong, decide_eq_true_iff, Int.natAbs_natCast, ← Nat.not_le,
    Nat.length_toDigits_le_iff (by decide) (by decide)]
  exact Nat.not_lt.mpr ((Nat.pow_le_pow_right (by decide) hk).trans h)

/-- A document can give an integer in another base that has too many digits to be written. -/
theorem literals_of_long_integer :
    let n : ℕ := Nat.pow 16 3600
    let data : List Value :=
      [.map [("type", .text "number"), ("values", .list [.int n])]]
    ∃ constants, data.mapM Constant.ofValue = .ok constants ∧
      (∀ k ∈ constants, ∀ v ∈ k.values, v.isExact = true) ∧
      (∃ k ∈ constants, k.values ≠ []) ∧
      ((Ledger.forFile .root "api/a.ts").fulfil
        (TypeExpr.ofShape { output := "api" } false { constants })).1 =
          .error (.value .tooLongToWrite) := by
  intro n data
  have hlong : (Value.int n).isTooLong = true := by
    have hdigits (k : ℕ) : Nat.pow 10 (43 * k) ≤ Nat.pow 16 (36 * k) :=
      calc Nat.pow 10 (43 * k) = (10 ^ 43) ^ k := Nat.pow_mul 10 43 k
        _ ≤ (16 ^ 36) ^ k := Nat.pow_le_pow_left (by decide) k
        _ = Nat.pow 16 (36 * k) := (Nat.pow_mul 16 36 k).symm
    have hexponent : 3600 = 36 * 100 := rfl
    show (Value.int (Nat.pow 16 3600)).isTooLong = true
    rw [hexponent]
    exact Value.isTooLong_of_le (by decide) (hdigits 100)
  clear_value n
  refine ⟨[⟨.text "number", [.int n]⟩], rfl, by simp [Value.isExact], by simp, ?_⟩
  rw [TypeExpr.ofShape_constants, TypeExpr.ofConstants_eq_fail]
  · rfl
  · exact fun kv hkv => (exists_literal (by simp_all [Constant.pairs, Value.isExact])
      (by simp_all [Constant.pairs, Value.isBigint, Value.text?])).imp fun _ h => h.1
  · exact ⟨_, List.mem_cons_self, hlong⟩

end ClientSdk
