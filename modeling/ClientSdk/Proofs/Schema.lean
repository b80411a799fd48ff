import ClientSdk.Proofs.Table
import ClientSdk.Schema
import Mathlib.Data.List.Lex
import Mathlib.Data.String.Basic
import Mathlib.Tactic.ByContra

/-!
# What a grammar accepts and what it reports

A rule says which breaches a value may not have (`Rule.Breaks`) and which place the
part behind a step has (`Rule.Leads`).  From these two a grammar accepts a value at a
place (`Grammar.Keeps`) and leads to the places inside it (`Grammar.Leads`), without a
word on how violations are collected.

There are no violations if and only if the value keeps to the grammar
(`violations_eq_nil_iff`).  Each violation is a breach of the value that stands at its path,
at the place that the grammar leads to there (`of_mem_violations`), and where no rule asks
anything else of a value of a wrong kind, every breach is reported
(`mem_violations_of_breaks`).  All of it comes from what one rule finds in one value
(`mem_ruleViolations_iff`), by the depth of the value or along the path.
-/

namespace ClientSdk

/-! ## Parts of values -/

namespace Value

def part? : Value → Step → Option Value
  | .map members, .key k => Table.get? members k
  | .list items, .index i => items[i]?
  | _, _ => none

def at? : Value → List Step → Option Value
  | v, [] => some v
  | v, step :: path => (v.part? step).bind fun w => w.at? path

theorem depth_le_of_mem {items : List Value} {w : Value} (hw : w ∈ items) :
    w.depth ≤ depthOfItems items := by
  induction items with
  | nil => exact absurd hw List.not_mem_nil
  | cons v vs ih =>
      rw [depthOfItems]
      rcases List.mem_cons.mp hw with rfl | hw
      · exact Nat.le_max_left _ _
      · exact Nat.le_trans (ih hw) (Nat.le_max_right _ _)

theorem depth_le_of_get? {members : List (String × Value)} {key : String} {w : Value}
    (hw : Table.get? members key = some w) : w.depth ≤ depthOfMembers members := by
  induction members with
  | nil => cases hw
  | cons member members ih =>
      obtain ⟨k, v⟩ := member
      rw [depthOfMembers]
      rw [Table.get?] at hw
      split at hw
      · cases hw
        exact Nat.le_max_left _ _
      · exact Nat.le_trans (ih hw) (Nat.le_max_right _ _)

theorem depth_lt_of_part? {v w : Value} {step : Step} (h : v.part? step = some w) :
    w.depth < v.depth := by
  unfold part? at h
  split at h
  · exact Nat.lt_succ_of_le (depth_le_of_get? h)
  · exact Nat.lt_succ_of_le (depth_le_of_mem (List.mem_of_getElem? h))
  · cases h

end Value

/-- The values of each kind. -/
theorem Kind.holds_iff {k : Kind} {v : Value} : k.holds v = true ↔
    match k with
    | .null => v = .null
    | .boolean => ∃ b, v = .bool b
    | .integer => (∃ n, v = .int n) ∨ ∃ x n, v = .float x ∧ x.integer? = some n
    | .number => (∃ n, v = .int n) ∨ ∃ x, v = .float x
    | .string => ∃ s, v = .text s
    | .array => ∃ items, v = .list items
    | .object => ∃ members, v = .map members := by
  cases k <;> cases v <;> simp [Kind.holds, Option.isSome_iff_exists]

variable {π : Type}

/-! ## One rule -/

namespace Rule

def AllowsKind (r : Rule π) (v : Value) : Prop :=
  r.kinds = [] ∨ ∃ k ∈ r.kinds, k.holds v = true

/-- What the rule forbids and the value has, its parts left aside. -/
inductive Breaks (r : Rule π) : Value → Breach → Prop
  | wrongKind {v : Value} : ¬ r.AllowsKind v → Breaks r v (.wrongKind r.kinds)
  | missing {members : List (String × Value)} {key : String} : key ∈ r.required →
      Table.get? members key = none → Breaks r (.map members) (.missing key)
  | notAmong {v : Value} : r.choices ≠ [] → (∀ s ∈ r.choices, v ≠ .text s) →
      Breaks r v (.notAmong r.choices)
  | noIdentifier {s : String} : r.identifier = true → Text.isIdentifierLine s = false →
      Breaks r (.text s) .noIdentifier
  | shortText {s : String} : s.length < r.minLength →
      Breaks r (.text s) (.tooShort r.minLength)
  | fewItems {items : List Value} : items.length < r.minItems →
      Breaks r (.list items) (.tooShort r.minItems)
  | manyItems {items : List Value} {n : ℕ} : r.maxItems = some n → n < items.length →
      Breaks r (.list items) .tooLong

/-- A value in which the rule forbids nothing, its parts left aside. -/
def Fits (r : Rule π) (v : Value) : Prop :=
  ∀ b, ¬ r.Breaks v b

/-- The place that the rule gives to the part behind a step. -/
inductive Leads (r : Rule π) : Step → π → Prop
  | field {key : String} {inner : π} : (key, inner) ∈ r.fields → Leads r (.key key) inner
  | firstItem {i : ℕ} {inner : π} : r.firstItems[i]? = some inner → Leads r (.index i) inner
  | item {i : ℕ} {inner : π} : r.items = some inner → Leads r (.index i) inner

/-- A rule that asks nothing else of a value of a wrong kind, nor of its parts. -/
def Typed (r : Rule π) : Prop :=
  ∀ v, ¬ r.AllowsKind v → (∀ b, r.Breaks v b → b = .wrongKind r.kinds) ∧
    ∀ step inner, r.Leads step inner → v.part? step = none

variable {r : Rule π} {v : Value} {w : Violation}

theorem typed_of_any (h : r.kinds = []) : r.Typed :=
  fun _ hkind => absurd (.inl h) hkind

theorem typed_of_kinds (hchoices : r.choices = [])
    (htext : .string ∈ r.kinds ∨ r.identifier = false ∧ r.minLength = 0)
    (hlist : .array ∈ r.kinds ∨ (r.minItems = 0 ∧ r.maxItems = none) ∧
      r.firstItems = [] ∧ r.items = none)
    (hmap : .object ∈ r.kinds ∨ r.required = [] ∧ r.fields = []) : r.Typed := by
  intro v hkind
  have hwrong : ∀ k ∈ r.kinds, k.holds v ≠ true := fun k hk hv => hkind (.inr ⟨k, hk, hv⟩)
  constructor
  · intro b hb
    cases hb with
    | wrongKind => rfl
    | notAmong hne => exact absurd hchoices hne
    | missing hrequired =>
        rw [(hmap.resolve_left fun h => hwrong _ h rfl).1] at hrequired
        exact absurd hrequired List.not_mem_nil
    | noIdentifier hidentifier =>
        rw [(htext.resolve_left fun h => hwrong _ h rfl).1] at hidentifier
        exact absurd hidentifier Bool.false_ne_true
    | shortText hshort =>
        rw [(htext.resolve_left fun h => hwrong _ h rfl).2] at hshort
        exact absurd hshort (Nat.not_lt_zero _)
    | fewItems hfew =>
        rw [(hlist.resolve_left fun h => hwrong _ h rfl).1.1] at hfew
        exact absurd hfew (Nat.not_lt_zero _)
    | manyItems hmost =>
        rw [(hlist.resolve_left fun h => hwrong _ h rfl).1.2] at hmost
        cases hmost
  · intro step inner hleads
    cases hleads with
    | field hfield =>
        cases v with
        | map members =>
            rw [(hmap.resolve_left fun h => hwrong _ h rfl).2] at hfield
            exact absurd hfield List.not_mem_nil
        | _ => rfl
    | firstItem hfirst =>
        cases v with
        | list items =>
            rw [(hlist.resolve_left fun h => hwrong _ h rfl).2.1] at hfirst
            cases hfirst
        | _ => rfl
    | item hitems =>
        cases v with
        | list items =>
            rw [(hlist.resolve_left fun h => hwrong _ h rfl).2.2] at hitems
            cases hitems
        | _ => rfl

theorem allowsKind_iff :
    r.AllowsKind v ↔ ¬ (!r.kinds.isEmpty && !r.kinds.any (·.holds v)) = true := by
  simp [AllowsKind, Classical.or_iff_not_imp_left]

/-- The violations of the value itself, of a right kind. -/
def own (r : Rule π) (v : Value) : List Violation :=
  r.missingKeys v ++ r.badChoice v ++ r.badText v ++ r.badCount v

theorem violations_of_not_allowsKind {parts : Parts π} (h : ¬ r.AllowsKind v) :
    r.violations v parts = [here v (.wrongKind r.kinds)] := by
  rw [allowsKind_iff, not_not] at h
  rw [violations, if_pos h]

theorem violations_of_allowsKind {parts : Parts π} (h : r.AllowsKind v) :
    r.violations v parts = r.own v ++ (r.inMembers parts ++ r.inItems parts) := by
  rw [violations, if_neg (allowsKind_iff.mp h), own, List.append_assoc _ (r.inMembers parts)]

/-! ### What a rule finds in the value itself -/

theorem breaks_of_mem_missingKeys (h : w ∈ r.missingKeys v) :
    ∃ b, r.Breaks v b ∧ w = here v b := by
  unfold missingKeys at h
  split at h
  · obtain ⟨key, hkey, rfl⟩ := List.mem_map.mp h
    obtain ⟨hrequired, hnone⟩ := List.mem_filter.mp hkey
    exact ⟨_, .missing hrequired (Option.isNone_iff_eq_none.mp hnone), rfl⟩
  · exact absurd h List.not_mem_nil

theorem breaks_of_mem_badChoice (h : w ∈ r.badChoice v) :
    ∃ b, r.Breaks v b ∧ w = here v b := by
  unfold badChoice at h
  split at h
  · exact absurd h List.not_mem_nil
  next hchoices =>
  have hne : r.choices ≠ [] := by simpa using hchoices
  split at h
  · next s =>
      split at h
      · exact absurd h List.not_mem_nil
      · next hs =>
          refine ⟨_, .notAmong hne ?_, List.mem_singleton.mp h⟩
          rintro t ht hst
          cases hst
          exact hs (List.contains_iff_mem.mpr ht)
  · next htext =>
      exact ⟨_, .notAmong hne fun s _ => htext s, List.mem_singleton.mp h⟩

theorem breaks_of_mem_badText (h : w ∈ r.badText v) :
    ∃ b, r.Breaks v b ∧ w = here v b := by
  unfold badText at h
  split at h
  · next s =>
      rcases List.mem_append.mp h with h | h <;> split at h
      · next hidentifier =>
          simp only [Bool.and_eq_true, Bool.not_eq_true'] at hidentifier
          exact ⟨_, .noIdentifier hidentifier.1 hidentifier.2, List.mem_singleton.mp h⟩
      · exact absurd h List.not_mem_nil
      · next hshort => exact ⟨_, .shortText hshort, List.mem_singleton.mp h⟩
      · exact absurd h List.not_mem_nil
  · exact absurd h List.not_mem_nil

theorem breaks_of_mem_badCount (h : w ∈ r.badCount v) :
    ∃ b, r.Breaks v b ∧ w = here v b := by
  unfold badCount at h
  split at h
  · next items =>
      rcases List.mem_append.mp h with h | h <;> split at h
      · next hfew => exact ⟨_, .fewItems hfew, List.mem_singleton.mp h⟩
      · exact absurd h List.not_mem_nil
      · next n hmost =>
          split at h
          · next hmany => exact ⟨_, .manyItems hmost hmany, List.mem_singleton.mp h⟩
          · exact absurd h List.not_mem_nil
      · exact absurd h List.not_mem_nil
  · exact absurd h List.not_mem_nil

theorem here_mem_own {b : Breach} (hkind : r.AllowsKind v) (h : r.Breaks v b) :
    here v b ∈ r.own v := by
  simp only [own, List.mem_append]
  cases h with
  | wrongKind hwrong => exact absurd hkind hwrong
  | missing hrequired hnone =>
      refine .inl (.inl (.inl (List.mem_map.mpr ⟨_, List.mem_filter.mpr ⟨hrequired, ?_⟩, rfl⟩)))
      exact Option.isNone_iff_eq_none.mpr hnone
  | notAmong hne hnone =>
      refine .inl (.inl (.inr ?_))
      unfold badChoice
      rw [if_neg (by simpa using hne)]
      cases v with
      | text s =>
          dsimp only
          rw [if_neg fun hs => hnone s (List.contains_iff_mem.mp hs) rfl]
          exact List.mem_singleton_self _
      | _ => exact List.mem_singleton_self _
  | noIdentifier hidentifier hs => exact .inl (.inr (by simp [badText, hidentifier, hs]))
  | shortText hshort => exact .inl (.inr (by simp [badText, hshort]))
  | fewItems hfew => exact .inr (by simp [badCount, hfew])
  | manyItems hmost hmany => exact .inr (by simp [badCount, hmost, hmany])

theorem mem_own_iff (hkind : r.AllowsKind v) :
    w ∈ r.own v ↔ ∃ b, r.Breaks v b ∧ w = here v b := by
  constructor
  · intro h
    simp only [own, List.mem_append] at h
    rcases h with ((h | h) | h) | h
    · exact breaks_of_mem_missingKeys h
    · exact breaks_of_mem_badChoice h
    · exact breaks_of_mem_badText h
    · exact breaks_of_mem_badCount h
  · rintro ⟨b, hb, rfl⟩
    exact here_mem_own hkind hb

theorem allowsKind_of_fits (h : r.Fits v) : r.AllowsKind v := by
  by_contra hkind
  exact h _ (.wrongKind hkind)

theorem choice_of_fits (h : r.Fits v) : r.choices = [] ∨ ∃ s ∈ r.choices, v = .text s := by
  by_contra hnone
  obtain ⟨hne, hchoices⟩ := not_or.mp hnone
  exact h _ (.notAmong hne fun s hs hv => hchoices ⟨s, hs, hv⟩)

/-- What a rule asks of a value, kind by kind. -/
theorem fits_iff : r.Fits v ↔ r.AllowsKind v ∧
    (r.choices = [] ∨ ∃ s ∈ r.choices, v = .text s) ∧
    match v with
    | .text s => (r.identifier = true → Text.isIdentifierLine s = true) ∧ r.minLength ≤ s.length
    | .list items => r.minItems ≤ items.length ∧ ∀ n ∈ r.maxItems, items.length ≤ n
    | .map members => ∀ key ∈ r.required, (Table.get? members key).isSome = true
    | _ => True := by
  constructor
  · intro h
    refine ⟨allowsKind_of_fits h, choice_of_fits h, ?_⟩
    split
    · next s =>
        refine ⟨fun hidentifier => ?_, Nat.le_of_not_lt fun hshort => h _ (.shortText hshort)⟩
        by_contra hs
        exact h _ (.noIdentifier hidentifier (Bool.eq_false_of_not_eq_true hs))
    · next items =>
        exact ⟨Nat.le_of_not_lt fun hfew => h _ (.fewItems hfew),
          fun n hmost => Nat.le_of_not_lt fun hmany => h _ (.manyItems hmost hmany)⟩
    · next members =>
        intro key hkey
        by_contra hnone
        exact h _ (.missing hkey (Option.not_isSome_iff_eq_none.mp hnone))
    · trivial
  · rintro ⟨hkind, hchoice, hrest⟩ b hb
    cases hb with
    | wrongKind hwrong => exact hwrong hkind
    | missing hrequired hnone =>
        exact Option.not_isSome_iff_eq_none.mpr hnone (hrest _ hrequired)
    | notAmong hne hnone =>
        obtain ⟨s, hs, hv⟩ := hchoice.resolve_left hne
        exact hnone s hs hv
    | noIdentifier hidentifier hs => exact absurd (hrest.1 hidentifier) (by simp [hs])
    | shortText hshort => exact Nat.not_lt.mpr hrest.2 hshort
    | fewItems hfew => exact Nat.not_lt.mpr hrest.1 hfew
    | manyItems hmost hmany => exact Nat.not_lt.mpr (hrest.2 _ hmost) hmany

/-- What holds of the parts of a list, at the places that the rule leads to, holds of its
items. -/
theorem of_items {items : List Value} {inner : π} {P : Value → π → Prop}
    (hinner : r.items = some inner)
    (hparts : ∀ step inner x, r.Leads step inner → (Value.list items).part? step = some x →
      P x inner) : ∀ x ∈ items, P x inner := by
  intro x hx
  obtain ⟨i, hi⟩ := List.mem_iff_getElem?.mp hx
  exact hparts (.index i) inner x (.item hinner) hi

end Rule

/-! ### What it finds in the parts -/

/-- The violations of the part behind a step, for any place. -/
def Parts.part? (parts : Parts π) : Step → Option (π → List Violation)
  | .key k => Table.get? parts.members k
  | .index i => parts.items[i]?

namespace Rule

variable {r : Rule π} {w : Violation} {parts : Parts π}

theorem mem_inMembers_iff : w ∈ r.inMembers parts ↔ ∃ key inner check,
    (key, inner) ∈ r.fields ∧ Table.get? parts.members key = some check ∧
      w ∈ (check inner).map (Violation.behind (.key key)) := by
  rw [inMembers, List.mem_flatMap]
  constructor
  · rintro ⟨⟨key, inner⟩, hfield, hw⟩
    dsimp only at hw
    split at hw
    · next check hcheck => exact ⟨key, inner, check, hfield, hcheck, hw⟩
    · exact absurd hw List.not_mem_nil
  · rintro ⟨key, inner, check, hfield, hcheck, hw⟩
    refine ⟨(key, inner), hfield, ?_⟩
    dsimp only
    rw [hcheck]
    exact hw

theorem mem_inItemsFrom_iff {checks : List (π → List Violation)} {places : List π} {i : ℕ} :
    w ∈ inItemsFrom i checks places ↔ ∃ (j : ℕ) (check : π → List Violation) (inner : π),
      checks[j]? = some check ∧ places[j]? = some inner ∧
        w ∈ (check inner).map (Violation.behind (.index (i + j))) := by
  induction checks generalizing i places with
  | nil => simp [inItemsFrom]
  | cons check checks ih =>
      cases places with
      | nil => simp [inItemsFrom]
      | cons place places =>
          rw [inItemsFrom, List.mem_append, ih]
          constructor
          · rintro (hw | ⟨j, check', inner, hcheck, hinner, hw⟩)
            · exact ⟨0, check, place, rfl, rfl, hw⟩
            · rw [Nat.add_right_comm] at hw
              exact ⟨j + 1, check', inner, hcheck, hinner, hw⟩
          · rintro ⟨j, check', inner, hcheck, hinner, hw⟩
            cases j with
            | zero =>
                cases hcheck
                cases hinner
                exact .inl hw
            | succ j =>
                refine .inr ⟨j, check', inner, hcheck, hinner, ?_⟩
                rwa [Nat.add_right_comm]

theorem mem_inItems_iff : w ∈ r.inItems parts ↔ ∃ (i : ℕ) (inner : π)
    (check : π → List Violation), r.Leads (.index i) inner ∧ parts.items[i]? = some check ∧
      w ∈ (check inner).map (Violation.behind (.index i)) := by
  rw [inItems, List.mem_append, mem_inItemsFrom_iff]
  simp only [Nat.zero_add]
  constructor
  · rintro (⟨i, check, inner, hcheck, hinner, hw⟩ | hw)
    · exact ⟨i, inner, check, .firstItem hinner, hcheck, hw⟩
    · split at hw
      · next inner hitems =>
          obtain ⟨i, check, _, hcheck, hinner, hw⟩ := mem_inItemsFrom_iff.mp hw
          rw [List.getElem?_map, hcheck] at hinner
          cases hinner
          rw [Nat.zero_add] at hw
          exact ⟨i, inner, check, .item hitems, hcheck, hw⟩
      · exact absurd hw List.not_mem_nil
  · rintro ⟨i, inner, check, hleads, hcheck, hw⟩
    cases hleads with
    | firstItem hinner => exact .inl ⟨i, check, inner, hcheck, hinner, hw⟩
    | item hitems =>
        refine .inr ?_
        rw [hitems]
        refine mem_inItemsFrom_iff.mpr ⟨i, check, inner, hcheck, ?_, ?_⟩
        · rw [List.getElem?_map, hcheck]
          rfl
        · rwa [Nat.zero_add]

theorem mem_inside_iff : w ∈ r.inMembers parts ++ r.inItems parts ↔ ∃ step inner check,
    r.Leads step inner ∧ parts.part? step = some check ∧
      w ∈ (check inner).map (Violation.behind step) := by
  rw [List.mem_append, mem_inMembers_iff, mem_inItems_iff]
  constructor
  · rintro (⟨key, inner, check, hfield, hcheck, hw⟩ | ⟨i, inner, check, hleads, hcheck, hw⟩)
    · exact ⟨.key key, inner, check, .field hfield, hcheck, hw⟩
    · exact ⟨.index i, inner, check, hleads, hcheck, hw⟩
  · rintro ⟨step, inner, check, hleads, hcheck, hw⟩
    cases step with
    | key key =>
        cases hleads with
        | field hfield => exact .inl ⟨key, inner, check, hfield, hcheck, hw⟩
    | index i => exact .inr ⟨i, inner, check, hleads, hcheck, hw⟩

end Rule

/-! ## The whole grammar -/

namespace Grammar

variable {g : Grammar π} {place : π} {r : Rule π} {v : Value} {w : Violation}

/-- A value that one of the rules of the place accepts: the rule forbids nothing that the
value has, and its parts keep to the places that the rule leads to. -/
inductive Keeps (g : Grammar π) : Value → π → Prop
  | of_rule {v : Value} {place : π} {r : Rule π} : r ∈ g place → r.Fits v →
      (∀ step inner x, r.Leads step inner → v.part? step = some x → Keeps g x inner) →
      Keeps g v place

/-- A grammar leads from a place along a path to another.  It leads no further than to a
place that has several rules. -/
inductive Leads (g : Grammar π) : π → List Step → π → Prop
  | here (place : π) : Leads g place [] place
  | step {place inner last : π} {r : Rule π} {step : Step} {path : List Step} :
      g place = [r] → r.Leads step inner → Leads g inner path last →
      Leads g place (step :: path) last

/-- What is wrong with a value at a place: it breaks the rule of the place, or it keeps to
none of several. -/
inductive Breaks (g : Grammar π) (place : π) (v : Value) : Breach → Prop
  | rule {r : Rule π} {b : Breach} : g place = [r] → r.Breaks v b → Breaks g place v b
  | alternatives : (∀ r, g place ≠ [r]) → ¬ g.Keeps v place → Breaks g place v .noAlternative

section Keeps

variable {members : List (String × Value)} {items : List Value} {inner : π}

theorem keeps_scalar (hr : r ∈ g place) (hfits : r.Fits v) (hv : ∀ step, v.part? step = none) :
    g.Keeps v place := by
  refine .of_rule hr hfits fun step inner x _ hx => ?_
  rw [hv] at hx
  cases hx

theorem keeps_map (hr : r ∈ g place) (hfits : r.Fits (.map members))
    (hfields : ∀ f ∈ r.fields, ∀ w, Table.get? members f.1 = some w → g.Keeps w f.2) :
    g.Keeps (.map members) place := by
  refine .of_rule hr hfits fun step inner x hleads hx => ?_
  cases hleads with
  | field hfield => exact hfields _ hfield x hx
  | firstItem => cases hx
  | item => cases hx

theorem keeps_items (hr : r ∈ g place) (hfits : r.Fits (.list items)) (hfirst : r.firstItems = [])
    (hinner : r.items = some inner) (hitems : ∀ w ∈ items, g.Keeps w inner) :
    g.Keeps (.list items) place := by
  refine .of_rule hr hfits fun step inner' x hleads hx => ?_
  cases hleads with
  | field => cases hx
  | firstItem h => simp [hfirst] at h
  | item h =>
      cases hinner.symm.trans h
      exact hitems x (List.mem_of_getElem? hx)

end Keeps

theorem Breaks.not_keeps {b : Breach} (h : g.Breaks place v b) : ¬ g.Keeps v place := by
  cases h with
  | rule hg hb =>
      rintro ⟨hr, hfits, -⟩
      rw [hg, List.mem_singleton] at hr
      subst hr
      exact hfits _ hb
  | alternatives _ hkeeps => exact hkeeps

/-- The violations of the parts of a value, for any place. -/
def parts (g : Grammar π) : Value → Parts π
  | .list items => { items := g.inside items }
  | .map members => { members := g.insideMembers members }
  | _ => {}

theorem violations_eq_judge (v : Value) (place : π) :
    g.violations v place = g.judge place v (g.parts v) := by
  cases v <;> (rw [violations]; rfl)

theorem getElem?_inside (items : List Value) (i : ℕ) :
    (g.inside items)[i]? = items[i]?.map fun v place => g.violations v place := by
  induction items generalizing i with
  | nil => rfl
  | cons v vs ih =>
      cases i with
      | zero => rfl
      | succ i => exact ih i

theorem get?_insideMembers (members : List (String × Value)) (key : String) :
    Table.get? (g.insideMembers members) key =
      (Table.get? members key).map fun v place => g.violations v place := by
  induction members with
  | nil => rfl
  | cons member members ih =>
      obtain ⟨k, v⟩ := member
      rw [insideMembers, Table.get?, Table.get?, ih]
      split <;> rfl

theorem part?_parts (v : Value) (step : Step) :
    (g.parts v).part? step = (v.part? step).map fun x inner => g.violations x inner := by
  cases step with
  | key k =>
      cases v with
      | map members => exact get?_insideMembers members k
      | _ => rfl
  | index i =>
      cases v with
      | list items => exact getElem?_inside items i
      | _ => rfl

/-- What a rule finds in a value of a right kind: its breaches of the rule, and the violations
of its parts. -/
theorem mem_ruleViolations_iff (hkind : r.AllowsKind v) :
    w ∈ r.violations v (g.parts v) ↔ (∃ b, r.Breaks v b ∧ w = Rule.here v b) ∨
      ∃ step inner x, r.Leads step inner ∧ v.part? step = some x ∧
        w ∈ (g.violations x inner).map (Violation.behind step) := by
  rw [Rule.violations_of_allowsKind hkind, List.mem_append, Rule.mem_own_iff hkind,
    Rule.mem_inside_iff]
  refine or_congr_right ?_
  simp only [part?_parts, Option.map_eq_some_iff]
  constructor
  · rintro ⟨step, inner, _, hleads, ⟨x, hx, rfl⟩, hw⟩
    exact ⟨step, inner, x, hleads, hx, hw⟩
  · rintro ⟨step, inner, x, hleads, hx, hw⟩
    exact ⟨step, inner, _, hleads, ⟨x, hx, rfl⟩, hw⟩

theorem ruleViolations_eq_nil_iff : r.violations v (g.parts v) = [] ↔ r.Fits v ∧
    ∀ step inner x, r.Leads step inner → v.part? step = some x → g.violations x inner = [] := by
  by_cases hkind : r.AllowsKind v
  · rw [List.eq_nil_iff_forall_not_mem]
    constructor
    · intro h
      refine ⟨fun b hb => ?_, fun step inner x hleads hx => ?_⟩
      · exact h _ ((mem_ruleViolations_iff hkind).mpr (.inl ⟨b, hb, rfl⟩))
      · refine List.eq_nil_iff_forall_not_mem.mpr fun y hy => ?_
        exact h _ ((mem_ruleViolations_iff hkind).mpr
          (.inr ⟨step, inner, x, hleads, hx, List.mem_map_of_mem hy⟩))
    · rintro ⟨hfits, hparts⟩ w hw
      rcases (mem_ruleViolations_iff hkind).mp hw with ⟨b, hb, -⟩ | ⟨step, inner, x, hleads, hx, hw⟩
      · exact hfits b hb
      · rw [hparts step inner x hleads hx] at hw
        exact absurd hw List.not_mem_nil
  · rw [Rule.violations_of_not_allowsKind hkind]
    exact iff_of_false (List.cons_ne_nil _ _) fun h => h.1 _ (.wrongKind hkind)

theorem judge_of_rule {parts : Parts π} (hg : g place = [r]) :
    g.judge place v parts = r.violations v parts := by
  rw [judge, hg]

theorem judge_eq_nil_iff {parts : Parts π} :
    g.judge place v parts = [] ↔ ∃ r ∈ g place, r.violations v parts = [] := by
  unfold judge
  split
  · next r hg => simp [hg]
  · split
    · next hany => simpa using hany
    · next hany => simpa using hany

/-- A value has no violations at a place if and only if it keeps to the grammar there. -/
theorem violations_eq_nil_iff : g.violations v place = [] ↔ g.Keeps v place := by
  induction hn : v.depth using Nat.strong_induction_on generalizing v place with
  | _ n ih =>
      subst hn
      rw [violations_eq_judge, judge_eq_nil_iff]
      simp only [ruleViolations_eq_nil_iff]
      constructor
      · rintro ⟨r, hr, hfits, hparts⟩
        refine .of_rule hr hfits fun step inner x hleads hx => ?_
        exact (ih _ (Value.depth_lt_of_part? hx) rfl).mp (hparts step inner x hleads hx)
      · rintro ⟨hr, hfits, hparts⟩
        refine ⟨_, hr, hfits, fun step inner x hleads hx => ?_⟩
        exact (ih _ (Value.depth_lt_of_part? hx) rfl).mpr (hparts step inner x hleads hx)

/-- At a place with one rule: the value fits the rule, and its parts have no violations at the
places that the rule leads to. -/
theorem violations_eq_nil_iff_of_rule (hg : g place = [r]) : g.violations v place = [] ↔
    r.Fits v ∧ ∀ step inner x, r.Leads step inner → v.part? step = some x →
      g.violations x inner = [] := by
  rw [violations_eq_judge, judge_of_rule hg, ruleViolations_eq_nil_iff]

/-- A violation is a breach of the value at its path, at the place that the grammar leads to
there. -/
theorem of_mem_violations (h : w ∈ g.violations v place) : ∃ last,
    g.Leads place w.path last ∧ v.at? w.path = some w.value ∧
      g.Breaks last w.value w.breach := by
  induction hn : v.depth using Nat.strong_induction_on generalizing v place w with
  | _ n ih =>
      subst hn
      have hkeeps : ¬ g.Keeps v place := by
        intro hv
        rw [violations_eq_nil_iff.mpr hv] at h
        exact absurd h List.not_mem_nil
      rw [violations_eq_judge] at h
      unfold judge at h
      split at h
      · next r hg =>
          by_cases hkind : r.AllowsKind v
          · rcases (mem_ruleViolations_iff hkind).mp h with
              ⟨b, hb, rfl⟩ | ⟨step, inner, x, hleads, hx, hw⟩
            · exact ⟨place, .here place, rfl, .rule hg hb⟩
            · obtain ⟨y, hy, rfl⟩ := List.mem_map.mp hw
              obtain ⟨last, hlast, hat, hbreaks⟩ := ih _ (Value.depth_lt_of_part? hx) hy rfl
              refine ⟨last, .step hg hleads hlast, ?_, hbreaks⟩
              show (v.part? step).bind (fun x => x.at? y.path) = some y.value
              rw [hx]
              exact hat
          · rw [Rule.violations_of_not_allowsKind hkind, List.mem_singleton] at h
            subst h
            exact ⟨place, .here place, rfl, .rule hg (.wrongKind hkind)⟩
      · next hg =>
          split at h
          · exact absurd h List.not_mem_nil
          · rw [List.mem_singleton] at h
            subst h
            exact ⟨place, .here place, rfl, .alternatives (fun r hr => hg r hr) hkeeps⟩

/-- Every breach is reported, where the rules ask nothing of values of a wrong kind. -/
theorem mem_violations_of_breaks (htyped : ∀ place r, g place = [r] → r.Typed) {last : π}
    {path : List Step} (hleads : g.Leads place path last) {x : Value} {b : Breach}
    (hx : v.at? path = some x) (hb : g.Breaks last x b) :
    ⟨path, x, b⟩ ∈ g.violations v place := by
  induction hleads generalizing v with
  | here place =>
      obtain rfl : v = x := Option.some.inj hx
      have hviolations := violations_eq_nil_iff.not.mpr hb.not_keeps
      rw [violations_eq_judge] at hviolations ⊢
      cases hb with
      | @rule r _ hg hb =>
          rw [judge_of_rule hg]
          by_cases hkind : r.AllowsKind v
          · exact (mem_ruleViolations_iff hkind).mpr (.inl ⟨b, hb, rfl⟩)
          · rw [Rule.violations_of_not_allowsKind hkind, (htyped place r hg v hkind).1 b hb]
            exact List.mem_singleton_self _
      | alternatives hg _ =>
          unfold judge at hviolations ⊢
          split
          · next r hr => exact absurd hr (hg r)
          · split
            · next hany => simp [hany] at hviolations
            · exact List.mem_singleton_self _
  | @step place inner last r step path hg hr _ ih =>
      obtain ⟨y, hy, hrest⟩ := Option.bind_eq_some_iff.mp hx
      have hkind : r.AllowsKind v := by
        by_contra hkind
        rw [(htyped place r hg v hkind).2 step inner hr] at hy
        cases hy
      rw [violations_eq_judge, judge_of_rule hg]
      exact (mem_ruleViolations_iff hkind).mpr
        (.inr ⟨step, inner, y, hr, hy, List.mem_map_of_mem (ih hrest hb)⟩)

/-! ## What is put into words -/

/-- What is put into words about the parts of a value, for any place. -/
def said (g : Grammar π) : Value → Parts π
  | .list items => { items := g.remarksInside items }
  | .map members => { members := g.remarksInMembers members }
  | _ => {}

theorem remarks_eq_remark (v : Value) (place : π) :
    g.remarks v place = g.remark place v (g.parts v) (g.said v) := by
  cases v <;> (rw [remarks]; rfl)

theorem getElem?_remarksInside (items : List Value) (i : ℕ) :
    (g.remarksInside items)[i]? = items[i]?.map fun v place => g.remarks v place := by
  induction items generalizing i with
  | nil => rfl
  | cons v vs ih =>
      cases i with
      | zero => rfl
      | succ i => exact ih i

theorem get?_remarksInMembers (members : List (String × Value)) (key : String) :
    Table.get? (g.remarksInMembers members) key =
      (Table.get? members key).map fun v place => g.remarks v place := by
  induction members with
  | nil => rfl
  | cons member members ih =>
      obtain ⟨k, v⟩ := member
      rw [remarksInMembers, Table.get?, Table.get?, ih]
      split <;> rfl

theorem part?_said (v : Value) (step : Step) :
    (g.said v).part? step = (v.part? step).map fun x inner => g.remarks x inner := by
  cases step with
  | key k =>
      cases v with
      | map members => exact get?_remarksInMembers members k
      | _ => rfl
  | index i =>
      cases v with
      | list items => exact getElem?_remarksInside items i
      | _ => rfl

/-- Every violation is put into words, at whatever place. -/
theorem mem_remarks_of_mem_violations (h : w ∈ g.violations v place) :
    w ∈ g.remarks v place := by
  induction hn : v.depth using Nat.strong_induction_on generalizing v place w with
  | _ n ih =>
      subst hn
      rw [violations_eq_judge] at h
      rw [remarks_eq_remark]
      unfold judge at h
      unfold remark
      split at h
      · next r hg =>
          by_cases hkind : r.AllowsKind v
          · rw [Rule.violations_of_allowsKind hkind, List.mem_append]
            rcases (mem_ruleViolations_iff hkind).mp h with hown | ⟨step, inner, x, hleads, hx, hw⟩
            · exact .inl ((Rule.mem_own_iff hkind).mpr hown)
            · obtain ⟨y, hy, rfl⟩ := List.mem_map.mp hw
              refine .inr (Rule.mem_inside_iff.mpr ⟨step, inner, _, hleads, ?_,
                List.mem_map_of_mem (ih _ (Value.depth_lt_of_part? hx) hy rfl)⟩)
              rw [part?_said, hx]
              rfl
          · rw [Rule.violations_of_not_allowsKind hkind] at h ⊢
            exact h
      · split at h
        · exact absurd h List.not_mem_nil
        · next hnone =>
            dsimp only
            rw [if_neg hnone]
            exact List.mem_append_right _ h

/-! ## The order of violations -/

theorem pathLe_iff (as bs : List String) : pathLe as bs = true ↔ as ≤ bs := by
  rw [← not_lt]
  induction as generalizing bs with
  | nil => exact iff_of_true rfl (List.not_lt_nil bs)
  | cons a as ih =>
      cases bs with
      | nil => exact iff_of_false Bool.false_ne_true (not_not_intro (List.nil_lt_cons a as))
      | cons b bs =>
          have hcons : b :: bs < a :: as ↔ b < a ∨ b = a ∧ bs < as := List.cons_lt_cons_iff
          rw [pathLe, hcons]
          split
          · next hab =>
              subst hab
              simp [ih]
          · next hab =>
              rw [decide_eq_true_iff]
              constructor
              · rintro hlt (hgt | ⟨heq, -⟩)
                · exact lt_asymm hlt hgt
                · exact hab heq.symm
              · exact fun h => lt_of_le_of_ne (not_lt.mp fun hgt => h (.inl hgt)) hab

theorem pairwise_sorted (vs : List Violation) :
    (sorted vs).Pairwise fun v w => v.path.map Step.label ≤ w.path.map Step.label := by
  unfold sorted
  refine (List.pairwise_mergeSort ?_ ?_ vs).imp fun h => (pathLe_iff _ _).mp h
  · intro u v w huv hvw
    rw [pathLe_iff] at huv hvw ⊢
    exact le_trans huv hvw
  · intro v w
    simpa [pathLe_iff] using le_total (v.path.map Step.label) (w.path.map Step.label)

theorem mem_sorted {vs : List Violation} : w ∈ sorted vs ↔ w ∈ vs :=
  (List.mergeSort_perm vs _).mem_iff

theorem sorted_eq_nil_iff {vs : List Violation} : sorted vs = [] ↔ vs = [] := by
  simp only [List.eq_nil_iff_forall_not_mem, mem_sorted]

end Grammar

end ClientSdk
