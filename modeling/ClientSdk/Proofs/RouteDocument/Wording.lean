import ClientSdk.Host.Usual
import ClientSdk.Proofs.RouteDocument.Grammar

/-!
# Words for what is wrong

The rules of route documents can be broken in some thirty ways (`Asked`).  Words name the
rule that is broken if no two of these ways are put into the same words about one value
(`NamesRules`), which is so of the usual words (`namesRules_usual`): apart from the value, with
which most of them begin, they end differently.
-/

namespace ClientSdk

/-- The ways in which a rule can be broken, by values of any kind. -/
def Rule.asks {π : Type} (r : Rule π) : List Breach :=
  (if r.kinds = [] then [] else [.wrongKind r.kinds]) ++ r.required.map .missing ++
    (if r.choices = [] then [] else [.notAmong r.choices]) ++
    (if r.identifier then [.noIdentifier] else []) ++
    (if 0 < r.minLength then [.tooShort r.minLength] else []) ++
    (if 0 < r.minItems then [.tooShort r.minItems] else []) ++
    (if r.maxItems.isSome then [.tooLong] else [])

theorem Rule.Breaks.mem_asks {π : Type} {r : Rule π} {v : Value} {b : Breach}
    (h : r.Breaks v b) : b ∈ r.asks := by
  simp only [asks, List.mem_append, List.mem_map]
  cases h with
  | wrongKind hkind =>
      have hkinds : r.kinds ≠ [] := fun h => hkind (.inl h)
      simp [hkinds]
  | missing hrequired => simp [hrequired]
  | notAmong hchoices => simp [hchoices]
  | noIdentifier hidentifier => simp [hidentifier]
  | shortText hshort =>
      have hpos : 0 < r.minLength := Nat.zero_lt_of_lt hshort
      simp [hpos]
  | fewItems hfew =>
      have hpos : 0 < r.minItems := Nat.zero_lt_of_lt hfew
      simp [hpos]
  | manyItems hmost => simp [hmost]

def Breach.isMissing : Breach → Bool
  | .missing _ => true
  | _ => false

namespace RouteDocument

/-- A breach that a value can have at some place of a document. -/
def Asked (b : Breach) : Prop :=
  ∃ place v, grammar.Breaks place v b

/-- No two breaches are put into the same words about one value. -/
def NamesRules (wording : Wording) : Prop :=
  ∀ v b b' said, Asked b → Asked b' → wording b v = .ok said → wording b' v = .ok said → b = b'

def places : List Place :=
  [.document, .route, .parameter, .namedType, .shape, .escaped, .aliasName, .object, .property,
    .tuple, .array, .atomic, .constant, .validationTag, .literal, .docTag, .docText, .docPart,
    .importEntry, .accessors, .category, .method, .atomicKind, .constantKind, .identifier,
    .boolean, .status, .text, .nonEmptyText, .optionalText, .listOf .text]

def breaches : List Breach :=
  (.noAlternative :: places.flatMap fun place => (grammar place).flatMap Rule.asks).eraseDups

theorem Asked.mem_breaches {b : Breach} (h : Asked b) : b ∈ breaches := by
  obtain ⟨place, v, hbreaks⟩ := h
  rw [breaches, List.mem_eraseDups]
  cases hbreaks with
  | alternatives => exact List.mem_cons_self
  | @rule r _ hg hbreaks =>
      have hlisted : ∃ p ∈ places, ∃ r' ∈ grammar p, r'.asks = r.asks := by
        cases place with
        | listOf items =>
            obtain rfl := List.mem_singleton.mp (hg ▸ List.mem_singleton_self r)
            exact ⟨.listOf .text, by decide, _, List.mem_singleton_self _, rfl⟩
        | _ => exact ⟨_, by decide, r, hg ▸ List.mem_singleton_self r, rfl⟩
      obtain ⟨p, hp, r', hr', hsame⟩ := hlisted
      refine List.mem_cons_of_mem _ (List.mem_flatMap.mpr ⟨p, hp, List.mem_flatMap.mpr
        ⟨r', hr', ?_⟩⟩)
      rw [hsame]
      exact hbreaks.mem_asks

/-- What the usual words say behind the value, or in its stead. -/
def ending : Breach → String
  | .missing key => Text.quoted key ++ " is a required property"
  | .wrongKind allowed =>
      " is not of type " ++ ", ".intercalate (allowed.map fun k => Text.quoted k.name)
  | .notAmong choices => " is not one of " ++ (Value.list (choices.map Value.text)).shown
  | .noIdentifier => " does not match " ++ Text.quoted identifierPattern
  | .tooShort least => if least = 1 then " should be non-empty" else " is too short"
  | .tooLong => " is too long"
  | .noAlternative => " is not valid under any of the given schemas"

theorem eq_ending_of_missing {key : String} {v : Value} {said : String}
    (h : usualWording (.missing key) v = .ok said) : said = ending (.missing key) :=
  (Except.ok.inj h).symm

theorem eq_shown_append_ending {b : Breach} {v : Value} {said : String}
    (hb : ∀ key, b ≠ .missing key) (h : usualWording b v = .ok said) :
    said = v.shown ++ ending b := by
  cases b with
  | missing key => exact absurd rfl (hb key)
  | _ => exact (Value.unlessTooLong_eq_ok_iff.mp h).2.symm

theorem ending_inj : ∀ b ∈ breaches, ∀ b' ∈ breaches, ending b = ending b' → b = b' := by
  decide +kernel

/-- The last characters of a text, from its end. -/
def lastFive (s : String) : List Char :=
  s.toList.reverse.take 5

theorem lastFive_append (s t : String) (h : 5 ≤ t.toList.length) :
    lastFive (s ++ t) = lastFive t := by
  rw [lastFive, String.toList_append, List.reverse_append,
    List.take_append_of_le_length (by rwa [List.length_reverse])]
  rfl

theorem lastFive_ending : ∀ b ∈ breaches, (∃ key, b = .missing key) ∨
    5 ≤ (ending b).toList.length ∧ lastFive (ending b) ≠ "ytrep".toList := by
  have hall : ∀ b ∈ breaches, b.isMissing = true ∨
      5 ≤ (ending b).toList.length ∧ lastFive (ending b) ≠ "ytrep".toList := by
    decide +kernel
  intro b hb
  refine (hall b hb).imp_left fun hmissing => ?_
  cases b with
  | missing key => exact ⟨key, rfl⟩
  | _ => exact absurd hmissing Bool.false_ne_true

theorem append_ending_ne {b : Breach} (hb : b ∈ breaches) (hkey : ∀ key, b ≠ .missing key)
    (head key : String) : head ++ ending b ≠ ending (.missing key) := by
  obtain ⟨hlength, hlast⟩ := (lastFive_ending b hb).resolve_left fun ⟨k, hk⟩ => hkey k hk
  intro h
  have hproperty : lastFive (ending (.missing key)) = "ytrep".toList :=
    lastFive_append (Text.quoted key) " is a required property" (by decide)
  rw [← h, lastFive_append head _ hlength] at hproperty
  exact hlast hproperty

theorem eq_tooLongToWrite {b : Breach} {v : Value} {fault : Fault}
    (h : usualWording b v = .error fault) : fault = .value .tooLongToWrite := by
  have hsaid : ∀ message, v.said message = .error fault → fault = .value .tooLongToWrite := by
    intro message hsaid
    unfold Value.said Value.unlessTooLong at hsaid
    split at hsaid
    · exact (Except.error.inj hsaid).symm
    · exact absurd hsaid nofun
  cases b with
  | missing key => exact absurd h nofun
  | _ => exact hsaid _ h

/-- The usual words name the rule that is broken. -/
theorem namesRules_usual : NamesRules usualWording := by
  intro v b b' said hb hb' h h'
  have hmem := hb.mem_breaches
  have hmem' := hb'.mem_breaches
  by_cases hkey : ∃ key, b = .missing key
  · obtain ⟨key, rfl⟩ := hkey
    rw [eq_ending_of_missing h] at h'
    by_cases hkey' : ∃ key', b' = .missing key'
    · obtain ⟨key', rfl⟩ := hkey'
      exact ending_inj _ hmem _ hmem' (eq_ending_of_missing h')
    · rw [not_exists] at hkey'
      exact absurd (eq_shown_append_ending hkey' h').symm (append_ending_ne hmem' hkey' _ key)
  · rw [not_exists] at hkey
    rw [eq_shown_append_ending hkey h] at h'
    by_cases hkey' : ∃ key', b' = .missing key'
    · obtain ⟨key', rfl⟩ := hkey'
      exact absurd (eq_ending_of_missing h') (append_ending_ne hmem hkey _ key')
    · rw [not_exists] at hkey'
      have hsame := eq_shown_append_ending hkey' h'
      exact ending_inj _ hmem _ hmem' ((String.append_right_inj _).mp hsame)

end RouteDocument

end ClientSdk
