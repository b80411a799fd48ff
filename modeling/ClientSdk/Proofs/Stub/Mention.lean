import ClientSdk.Proofs.Stub.Location

/-!
# Parameters that a path mentions

A path mentions a field by a colon in front of it, and the last path parameter with the field is
filled in there.  The places are looked for when the path is already escaped, and the escape of a
span ends the identifier in front of it.  So what is mentioned is found, unless a span begins with
the last character of the field, its dollar (`finds_or_cutIn`).

A parameter is filled in if and only if its field is found (`hole_mem_location_iff`).
-/

namespace ClientSdk

open TypeExpr (escapeTemplate)
open Text (leadingIdentifier? beforeSpan)

/-- Whether a path mentions a field: it has a colon, and the field is the longest identifier
behind it. -/
def Mentions (path field : List Char) : Prop :=
  ∃ before behind, path = before ++ ':' :: behind ∧ leadingIdentifier? behind = some field

/-- Whether a field is found in a path: it has a colon, and the field is the longest identifier
behind it and in front of the next span. -/
def Finds (path field : List Char) : Prop :=
  ∃ before behind, path = before ++ ':' :: behind ∧
    leadingIdentifier? (beforeSpan behind) = some field

/-- Whether a span begins with the last character of a field that a path mentions. -/
def CutIn (path field : List Char) : Prop :=
  ∃ before front more, field = front ++ ['$'] ∧ path = before ++ ':' :: (field ++ '\x7b' :: more)

/-! ## Identifiers in front of spans -/

section BeforeSpan

variable {cs field rest : List Char}

theorem head?_beforeSpan {c : Char} (h : (beforeSpan cs).head? = some c) : cs.head? = some c := by
  cases cs with
  | nil => exact h
  | cons d cs =>
      rw [beforeSpan] at h
      split at h
      · cases h
      · exact h

theorem beforeSpan_append (hfield : ∀ c ∈ field, Text.continuesIdentifier c = true)
    (rest : List Char) : beforeSpan (field ++ rest) = field ++ beforeSpan rest ∨
      ∃ front more, field = front ++ ['$'] ∧ rest = '\x7b' :: more := by
  induction field with
  | nil => exact .inl rfl
  | cons c field ih =>
      have hlater := (List.forall_mem_cons.mp hfield).2
      rw [List.cons_append, beforeSpan]
      by_cases hspan : c = '$' ∧ (field ++ rest).head? = some '\x7b'
      · obtain ⟨rfl, hbrace⟩ := hspan
        cases field with
        | nil =>
            obtain ⟨more, rfl⟩ := List.head?_eq_some_iff.mp hbrace
            exact .inr ⟨[], more, rfl, rfl⟩
        | cons d field =>
            obtain rfl : d = '\x7b' := Option.some.inj hbrace
            exact absurd (hlater _ List.mem_cons_self) (by decide)
      · rw [if_neg hspan]
        rcases ih hlater with hrest | ⟨front, more, rfl, rfl⟩
        · exact .inl (by rw [hrest, List.cons_append])
        · exact .inr ⟨c :: front, more, rfl, rfl⟩

end BeforeSpan

/-- What is mentioned is found, unless a span begins with the last character. -/
theorem finds_or_cutIn {path field : List Char} (h : Mentions path field) :
    Finds path field ∨ CutIn path field := by
  obtain ⟨before, behind, rfl, hidentifier⟩ := h
  obtain ⟨hfield, rest, rfl, hrest⟩ := Text.leadingIdentifier?_eq_some_iff.mp hidentifier
  have hgoes := (Text.continues_of_isIdentifierChars hfield).2
  rcases beforeSpan_append hgoes rest with hspan | ⟨front, more, hfront, rfl⟩
  · refine .inl ⟨before, field ++ rest, rfl, Text.leadingIdentifier?_eq_some_iff.mpr ?_⟩
    exact ⟨hfield, beforeSpan rest, hspan, fun c hc => hrest c (head?_beforeSpan hc)⟩
  · exact .inr ⟨before, front, more, hfront, rfl⟩

/-! ## Colons in escaped paths -/

theorem exists_escapeTemplate_append (before rest : List Char) :
    ∃ before', escapeTemplate (before ++ ':' :: rest) = before' ++ ':' :: escapeTemplate rest := by
  induction before with
  | nil => exact ⟨[], if_neg (by simp)⟩
  | cons c before ih =>
      obtain ⟨before', h⟩ := ih
      rw [List.cons_append, escapeTemplate, h]
      split
      · exact ⟨'\\' :: c :: before', rfl⟩
      · exact ⟨c :: before', rfl⟩

theorem exists_of_escapeTemplate_colon {cs before behind : List Char}
    (h : escapeTemplate cs = before ++ ':' :: behind) :
    ∃ before' rest, cs = before' ++ ':' :: rest ∧ behind = escapeTemplate rest := by
  induction cs generalizing before with
  | nil => exact absurd h.symm (by simp [escapeTemplate])
  | cons c cs ih =>
      rw [escapeTemplate] at h
      split at h
      · next hc =>
        -- Neither the backslash nor what it stands in front of is a colon.
        rcases before with _ | ⟨d, _ | ⟨d', before⟩⟩
        · exact absurd (List.cons.inj h).1 (by decide)
        · obtain rfl : c = ':' := (List.cons.inj (List.cons.inj h).2).1
          exact absurd hc (by simp)
        · obtain ⟨before', rest, rfl, hrest⟩ := ih (List.cons.inj (List.cons.inj h).2).2
          exact ⟨c :: before', rest, rfl, hrest⟩
      · cases before with
        | nil =>
            obtain ⟨rfl, rfl⟩ := List.cons.inj h
            exact ⟨[], cs, rfl, rfl⟩
        | cons d before =>
            obtain ⟨before', rest, rfl, hrest⟩ := ih (List.cons.inj h).2
            exact ⟨c :: before', rest, rfl, hrest⟩

theorem finds_iff_mentions_escapeTemplate {path field : List Char} :
    Finds path field ↔ Mentions (escapeTemplate path) field := by
  constructor
  · rintro ⟨before, behind, rfl, hfield⟩
    obtain ⟨before', h⟩ := exists_escapeTemplate_append before behind
    exact ⟨before', escapeTemplate behind, h, by rwa [Text.leadingIdentifier?_escape]⟩
  · rintro ⟨before, behind, h, hfield⟩
    obtain ⟨before', rest, rfl, rfl⟩ := exists_of_escapeTemplate_colon h
    exact ⟨before', rest, rfl, by rwa [← Text.leadingIdentifier?_escape]⟩

/-! ## Places in a path -/

section Places

variable {fields : Table Value} {c : Char} {cs field back : List Char} {v : Value}

/-- Whether a field that has a name is the longest identifier that a text begins with. -/
structure NamedAt (fields : Table Value) (cs field : List Char) (v : Value) : Prop where
  identifier : leadingIdentifier? cs = some field
  name : Table.get? fields (String.ofList field) = some v
  named : v ≠ .null

theorem pathPieces_of_stays (h : c = ':' → ∀ field v, ¬ NamedAt fields cs field v) :
    pathPieces fields 0 (c :: cs) = .char c :: pathPieces fields 0 cs := by
  rw [pathPieces]
  split
  · next field hfield =>
      obtain ⟨rfl, hidentifier⟩ := Option.ite_none_right_eq_some.mp hfield
      split
      · rfl
      · rfl
      · next v hnull hname => exact absurd ⟨hidentifier, hname, hnull⟩ (h rfl field v)
  · rfl

theorem pathPieces_of_namedAt (h : NamedAt fields (field ++ back) field v) :
    pathPieces fields 0 (':' :: (field ++ back)) =
      .hole v.display :: pathPieces fields 0 back := by
  rw [pathPieces, if_pos rfl, h.identifier]
  simp only [h.name]
  split
  · next hnone => cases hnone
  · next hnull => exact absurd (Option.some.inj hnull) h.named
  · next name _ hsome =>
      obtain rfl := Option.some.inj hsome
      rw [Route.pathPieces_skip]

def NameAt (fields : Table Value) (name : String) (path : List Char) : Prop :=
  ∃ before behind field v, path = before ++ ':' :: behind ∧ NamedAt fields behind field v ∧
    v.display = name

theorem nameAt_of_stays {name : String} (h : c = ':' → ∀ field v, ¬ NamedAt fields cs field v) :
    NameAt fields name (c :: cs) ↔ NameAt fields name cs := by
  constructor
  · rintro ⟨before, behind, field, v, hcs, hnamed, hname⟩
    cases before with
    | nil =>
        obtain ⟨rfl, rfl⟩ := List.cons.inj hcs
        exact absurd hnamed (h rfl field v)
    | cons d before =>
        exact ⟨before, behind, field, v, (List.cons.inj hcs).2, hnamed, hname⟩
  · rintro ⟨before, behind, field, v, rfl, hnamed, hname⟩
    exact ⟨c :: before, behind, field, v, rfl, hnamed, hname⟩

theorem nameAt_of_namedAt {name : String} (h : NamedAt fields (field ++ back) field v) :
    NameAt fields name (':' :: (field ++ back)) ↔ v.display = name ∨ NameAt fields name back := by
  constructor
  · rintro ⟨before, behind, field', v', hcs, hnamed, hname⟩
    cases before with
    | nil =>
        obtain ⟨-, rfl⟩ := List.cons.inj hcs
        obtain rfl : field = field' :=
          Option.some.inj (h.identifier.symm.trans hnamed.identifier)
        obtain rfl : v = v' := Option.some.inj (h.name.symm.trans hnamed.name)
        exact .inl hname
    | cons d before =>
        have hfield := (Text.leadingIdentifier?_eq_some_iff.mp h.identifier).1
        obtain ⟨more, rfl, rfl⟩ := Route.exists_of_append_colon hfield (List.cons.inj hcs).2
        exact .inr ⟨more, behind, field', v', rfl, hnamed, hname⟩
  · rintro (hname | ⟨before, behind, field', v', rfl, hnamed, hname⟩)
    · exact ⟨[], field ++ back, field, v, rfl, h, hname⟩
    · exact ⟨':' :: field ++ before, behind, field', v', by simp, hnamed, hname⟩

/-- The places in a location are those of the names whose fields are mentioned. -/
theorem hole_mem_pathPieces_iff {name : String} {cs : List Char} :
    .hole name ∈ pathPieces fields 0 cs ↔ NameAt fields name cs := by
  match cs with
  | [] =>
      refine iff_of_false List.not_mem_nil ?_
      rintro ⟨before, behind, field, v, hnil, -⟩
      exact absurd hnil.symm (by simp)
  | c :: cs =>
      by_cases hstays : c = ':' → ∀ field v, ¬ NamedAt fields cs field v
      · rw [pathPieces_of_stays hstays, nameAt_of_stays hstays, List.mem_cons,
          or_iff_right (by simp), hole_mem_pathPieces_iff]
      · simp only [not_forall, not_not] at hstays
        obtain ⟨rfl, field, v, hnamed⟩ := hstays
        obtain ⟨-, back, rfl, -⟩ := Text.leadingIdentifier?_eq_some_iff.mp hnamed.identifier
        rw [pathPieces_of_namedAt hnamed, nameAt_of_namedAt hnamed, List.mem_cons,
          PathPiece.hole.injEq, hole_mem_pathPieces_iff, eq_comm]
termination_by cs.length

end Places

/-! ## Parameters in a location -/

namespace Route

variable {r : Route} {location : List PathPiece}

/-- A parameter is filled into a location if and only if the path has its field where it is
found, and no later parameter has this field. -/
theorem hole_mem_location_iff (h : r.location = .ok location)
    (hnames : ∀ p ∈ r.parametersOf .path, ∃ name, p.name = .text name) :
    ∃ path, r.path = .text path ∧ ∀ name, .hole name ∈ location ↔
      ∃ p field, r.holder? field = some p ∧ p.label = name ∧
        Finds path.toList field.toList := by
  obtain ⟨fields, hfields, h⟩ := Except.bind_eq_ok_iff.mp h
  obtain ⟨path, hpath, h⟩ := Except.bind_eq_ok_iff.mp h
  obtain rfl := Except.ok.inj h
  have htext : r.path = .text path := by
    cases hvalue : r.path with
    | text s =>
        rw [hvalue] at hpath
        rw [Except.ok.inj hpath]
    | _ =>
        rw [hvalue] at hpath
        cases hpath
  refine ⟨path, htext, fun name => ?_⟩
  simp only [hole_mem_pathPieces_iff, finds_iff_mentions_escapeTemplate]
  constructor
  · rintro ⟨before, behind, field, v, hescaped, hnamed, hname⟩
    have hholder := hnamed.name
    rw [get?_of_pathFields hfields] at hholder
    obtain ⟨p, hp, rfl⟩ := Option.map_eq_some_iff.mp hholder
    exact ⟨p, String.ofList field, hp, hname, before, behind, hescaped,
      by rw [String.toList_ofList, hnamed.identifier]⟩
  · rintro ⟨p, field, hp, hlabel, before, behind, hescaped, hidentifier⟩
    obtain ⟨s, hs⟩ := hnames p (mem_of_holder? hp).1
    refine ⟨before, behind, field.toList, p.name, hescaped, ⟨hidentifier, ?_, ?_⟩, hlabel⟩
    · rw [String.ofList_toList, get?_of_pathFields hfields, hp, Option.map_some]
    · rw [hs]
      exact Value.noConfusion

end Route

end ClientSdk
