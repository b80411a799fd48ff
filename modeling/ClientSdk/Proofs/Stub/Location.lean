import ClientSdk.Proofs.Except
import ClientSdk.Proofs.Table
import ClientSdk.Proofs.Text.Identifier
import ClientSdk.Proofs.Text.Template
import ClientSdk.Stub.Location
import Mathlib.Data.List.Nodup
import Mathlib.Data.List.TakeWhile

/-!
# Locations read back

The location of a request is a template literal: the path of the route, escaped, with a
span in the place of each parameter.  The places are found in the escaped path, so what
matters is how the two cuts go together: an identifier holds no backslash, so it is never
cut by an escape, and no span begins where a text goes on (`exists_cut`).  Read as a
template literal, the location gives the path back (`location_reads`).
-/

namespace ClientSdk

open Template (Piece Inside Reads)
open TypeExpr (escapeTemplate)

/-! ## Identifiers in escaped texts -/

namespace Text

variable {cs field rest : List Char}

/-- What begins an escaped text and goes on an identifier begins the text itself, as it
needs no backslash. -/
theorem exists_of_escapeTemplate_eq {front back : List Char}
    (hfront : ∀ c ∈ front, continuesIdentifier c = true)
    (h : escapeTemplate cs = front ++ back) :
    ∃ behind, cs = front ++ behind ∧ back = escapeTemplate behind := by
  induction front generalizing cs with
  | nil => exact ⟨cs, rfl, h.symm⟩
  | cons c front ih =>
      obtain ⟨hc, hrest⟩ := List.forall_mem_cons.mp hfront
      cases cs with
      | nil => exact absurd h (by simp [escapeTemplate])
      | cons d cs =>
          rw [escapeTemplate, List.cons_append] at h
          split at h
          · obtain rfl : '\\' = c := (List.cons.inj h).1
            exact absurd hc (by decide)
          · obtain ⟨rfl, hback⟩ := List.cons.inj h
            obtain ⟨behind, rfl, rfl⟩ := ih hrest hback
            exact ⟨behind, rfl, rfl⟩

theorem exists_of_leadingIdentifier? (h : leadingIdentifier? (escapeTemplate cs) = some field) :
    isIdentifierChars field = true ∧ ∃ behind, cs = field ++ behind ∧
      escapeTemplate cs = field ++ escapeTemplate behind := by
  obtain ⟨hfield, rest, hrest, -⟩ := leadingIdentifier?_eq_some_iff.mp h
  obtain ⟨behind, hcs, rfl⟩ :=
    exists_of_escapeTemplate_eq (continues_of_isIdentifierChars hfield).2 hrest
  exact ⟨hfield, behind, hcs, hrest⟩

/-- The characters in front of the first dollar before a brace. -/
def beforeSpan : List Char → List Char
  | [] => []
  | c :: cs => if c = '$' ∧ cs.head? = some '\x7b' then [] else c :: beforeSpan cs

theorem beforeSpan_eq_self (h : ¬ ['$', '\x7b'] <:+: cs) : beforeSpan cs = cs := by
  induction cs with
  | nil => rfl
  | cons c cs ih =>
      have hrest : ¬ ['$', '\x7b'] <:+: cs := fun hcs =>
        h (hcs.trans (List.suffix_cons c cs).isInfix)
      have hfirst : ¬ (c = '$' ∧ cs.head? = some '\x7b') := by
        rintro ⟨rfl, hbrace⟩
        obtain ⟨more, rfl⟩ := List.head?_eq_some_iff.mp hbrace
        exact h (List.prefix_append ['$', '\x7b'] more).isInfix
      rw [beforeSpan, if_neg hfirst, ih hrest]

theorem takeWhile_escapeTemplate (cs : List Char) :
    (escapeTemplate cs).takeWhile continuesIdentifier =
      (beforeSpan cs).takeWhile continuesIdentifier := by
  have hslash : continuesIdentifier '\\' = false := by decide
  have htick : continuesIdentifier '`' = false := by decide
  induction cs with
  | nil => rfl
  | cons c cs ih =>
      rw [escapeTemplate, beforeSpan]
      by_cases hspan : c = '$' ∧ cs.head? = some '\x7b'
      · rw [if_pos (.inr (.inr hspan)), if_pos hspan, List.takeWhile_cons, hslash]
        rfl
      rw [if_neg hspan]
      split
      · next hc =>
        have hstop : continuesIdentifier c = false := by
          rcases hc with rfl | rfl | hc
          · exact hslash
          · exact htick
          · exact absurd hc hspan
        simp [hslash, hstop]
      · rw [List.takeWhile_cons, List.takeWhile_cons, ih]

theorem leadingIdentifier?_takeWhile (cs : List Char) :
    leadingIdentifier? (cs.takeWhile continuesIdentifier) = leadingIdentifier? cs := by
  cases cs with
  | nil => rfl
  | cons c cs =>
      rw [List.takeWhile_cons]
      by_cases hstart : startsIdentifier c = true
      · rw [if_pos (continuesIdentifier_of_starts hstart), leadingIdentifier?, leadingIdentifier?,
          List.takeWhile_idem]
      · rw [leadingIdentifier?, if_neg hstart]
        split
        · rw [leadingIdentifier?, if_neg hstart]
        · rfl

theorem leadingIdentifier?_escape (cs : List Char) :
    leadingIdentifier? (escapeTemplate cs) = leadingIdentifier? (beforeSpan cs) := by
  rw [← leadingIdentifier?_takeWhile, takeWhile_escapeTemplate, leadingIdentifier?_takeWhile]

theorem leadingIdentifier?_escapeTemplate (h : ¬ ['$', '\x7b'] <:+: cs) :
    leadingIdentifier? (escapeTemplate cs) = leadingIdentifier? cs := by
  rw [leadingIdentifier?_escape, beforeSpan_eq_self h]

end Text

theorem head?_of_escapeTemplate {cs : List Char} (h : (escapeTemplate cs).head? = some '\x7b') :
    cs.head? = some '\x7b' := by
  cases cs with
  | nil => exact h
  | cons c cs =>
      rw [escapeTemplate] at h
      split at h
      · exact absurd h (by simp)
      · exact h

/-! ## The fields of parameters -/

namespace Parameter

def filled (p : Parameter) : List Char :=
  "encodeURIComponent(".toList ++ p.label.toList ++ " ?? \"null\")".toList

def IsNamed (p : Parameter) : Prop :=
  ∃ name, p.name = .text name ∧ Text.isIdentifierChars name.toList = true

theorem filled_eq (p : Parameter) : p.filled =
    "encodeURIComponent(".toList ++ p.label.toList ++ " ?? \"null\")".toList := rfl

theorem chars_hole (p : Parameter) :
    (PathPiece.hole p.label).chars = '$' :: '\x7b' :: (p.filled ++ ['\x7d']) := by
  have hchars : (PathPiece.hole p.label).chars = "$\x7bencodeURIComponent(".toList ++
      p.label.toList ++ " ?? \"null\")\x7d".toList := rfl
  have hopen : "$\x7bencodeURIComponent(".toList =
      '$' :: '\x7b' :: "encodeURIComponent(".toList := by simp
  have hclose : " ?? \"null\")\x7d".toList = " ?? \"null\")".toList ++ ['\x7d'] := by simp
  rw [hchars, filled_eq, hopen, hclose]
  simp only [List.cons_append, List.append_assoc]

theorem head?_chars_hole (name : String) : (PathPiece.hole name).chars.head? = some '$' := by
  have hchars : (PathPiece.hole name).chars = "$\x7bencodeURIComponent(".toList ++
      name.toList ++ " ?? \"null\")\x7d".toList := rfl
  rw [hchars]
  simp

theorem label_of_filled {p q : Parameter} (h : p.filled = q.filled) : p.label = q.label :=
  String.toList_inj.mp (List.append_cancel_left (List.append_cancel_right h))

theorem not_mem_filled {p : Parameter} (h : p.IsNamed) : '\x7d' ∉ p.filled := by
  obtain ⟨name, hname, hchars⟩ := h
  have hlabel : p.label = name := by rw [label, hname]; rfl
  have hbrace : '\x7d' ∉ name.toList := fun hmem =>
    absurd ((Text.continues_of_isIdentifierChars hchars).2 _ hmem) (by decide)
  simp [filled_eq, hlabel, hbrace]

end Parameter

namespace Route

def holder? (r : Route) (field : String) : Option Parameter :=
  (r.parametersOf .path).reverse.find? fun p => p.sentName.text? == some field

def filling? (r : Route) (code : List Char) : Option Parameter :=
  (r.parametersOf .path).find? fun p => p.filled == code

/-- The pieces of a location with a colon and the field of the parameter in the place of each
span. -/
def restore? (r : Route) : List Piece → Option (List Char)
  | [] => some []
  | .char c :: pieces => (r.restore? pieces).map (c :: ·)
  | .span code :: pieces => do
      let p ← r.filling? code
      return ':' :: (p.sentName.display.toList ++ (← r.restore? pieces))

/-- The path parameters have different identifiers as names, and fields that can be looked
up. -/
structure Addressable (r : Route) : Prop where
  named : ∀ p ∈ r.parametersOf .path, p.IsNamed
  distinct : ((r.parametersOf .path).map Parameter.label).Nodup
  keyed : ∀ p ∈ r.parametersOf .path, p.field.hasKey = true

variable {r : Route}

theorem Addressable.hasKey (h : r.Addressable) {p : Parameter} (hp : p ∈ r.parametersOf .path) :
    p.sentName.hasKey = true := by
  rw [Parameter.sentName]
  split
  · exact h.keyed p hp
  · obtain ⟨name, hname, -⟩ := h.named p hp
    rw [hname]
    rfl

theorem mem_of_holder? {field : String} {p : Parameter} (h : r.holder? field = some p) :
    p ∈ r.parametersOf .path ∧ p.sentName = .text field := by
  refine ⟨List.mem_reverse.mp (List.mem_of_find?_eq_some h), ?_⟩
  have htext := List.find?_some h
  rw [beq_iff_eq] at htext
  cases hsent : p.sentName with
  | text s => rw [hsent] at htext; exact congrArg Value.text (Option.some.inj htext)
  | _ => rw [hsent] at htext; cases htext

theorem Addressable.filling? (h : r.Addressable) {p : Parameter}
    (hp : p ∈ r.parametersOf .path) : r.filling? p.filled = some p := by
  cases hfind : r.filling? p.filled with
  | none =>
      have hnone := List.find?_eq_none.mp hfind p hp
      exact absurd (beq_self_eq_true p.filled) hnone
  | some q =>
      have hq := List.mem_of_find?_eq_some hfind
      have hcode : q.filled = p.filled := by simpa using List.find?_some hfind
      rw [List.inj_on_of_nodup_map h.distinct hq hp (Parameter.label_of_filled hcode)]

theorem get?_ofPairs (ps : List Parameter) (field : String) :
    Table.get? (Table.ofPairs (ps.filterMap fun p => p.sentName.text?.map (·, p.name))) field =
      (ps.reverse.find? fun p => p.sentName.text? == some field).map Parameter.name := by
  induction ps using List.reverseRecOn with
  | nil => rfl
  | append_singleton ps p ih =>
      rw [List.filterMap_append, List.reverse_concat, List.find?_cons]
      cases hsent : p.sentName.text? with
      | none => simpa [hsent] using ih
      | some key =>
          have htable : Table.ofPairs ((ps.filterMap fun p => p.sentName.text?.map (·, p.name)) ++
              [p].filterMap fun p => p.sentName.text?.map (·, p.name)) =
              Table.insert (Table.ofPairs (ps.filterMap fun p => p.sentName.text?.map (·, p.name)))
                key p.name := by
            simp [Table.ofPairs, hsent]
          rw [htable, Table.insert]
          by_cases hkey : key = field
          · simp [hkey]
          · have hne : (key == field) = false := beq_false_of_ne hkey
            rw [Table.get?_alter_of_ne _ _ (Ne.symm hkey), ih, Option.some_beq_some, hne]

theorem get?_of_pathFields {fields : Table Value} (h : r.pathFields = .ok fields)
    (field : String) : Table.get? fields field = (r.holder? field).map Parameter.name := by
  obtain ⟨keys, hkeys, hfields⟩ := Except.bind_eq_ok_iff.mp h
  obtain rfl := Except.ok.inj hfields
  have hall : (r.parametersOf .path).map (fun p => (p.sentName.text?, p.name)) = keys := by
    refine ((Except.forall₂_of_mapM hkeys).imp fun p key hkey => ?_).map_eq
    obtain ⟨sent, hsent, hpair⟩ := Except.bind_eq_ok_iff.mp hkey
    unfold Comment.asKey at hsent
    split at hsent
    · cases hsent
      exact Except.ok.inj hpair
    · cases hsent
  rw [← hall, List.filterMap_map]
  exact get?_ofPairs _ field

theorem Addressable.pathFields (h : r.Addressable) :
    ∃ fields, r.pathFields = .ok fields ∧
      ∀ field, Table.get? fields field = (r.holder? field).map Parameter.name := by
  have hkeys : (r.parametersOf .path).mapM (fun p => do
      let key ← Comment.asKey p.sentName
      return (key.text?, p.name)) =
        Except.ok ((r.parametersOf .path).map fun p => (p.sentName.text?, p.name)) := by
    refine Except.mapM_eq_ok fun p hp => ?_
    rw [Comment.asKey, if_pos (h.hasKey hp)]
    rfl
  have hfields : ∃ fields, r.pathFields = .ok fields := ⟨_, by rw [Route.pathFields, hkeys]; rfl⟩
  obtain ⟨fields, hfields⟩ := hfields
  exact ⟨fields, hfields, get?_of_pathFields hfields⟩

/-! ## Places of parameters -/

/-- Behind a colon there is the place of a parameter: the longest identifier is a field, and
the parameter is the last one with it. -/
structure PlaceOf (r : Route) (cs field : List Char) (p : Parameter) : Prop where
  identifier : Text.leadingIdentifier? cs = some field
  holder : r.holder? (String.ofList field) = some p

section PlaceOf

variable {cs field field' : List Char} {p p' : Parameter}

theorem PlaceOf.unique (h : r.PlaceOf cs field p) (h' : r.PlaceOf cs field' p') :
    field = field' ∧ p = p' := by
  obtain rfl : field = field' := Option.some.inj (h.identifier.symm.trans h'.identifier)
  exact ⟨rfl, Option.some.inj (h.holder.symm.trans h'.holder)⟩

theorem PlaceOf.mem (h : r.PlaceOf cs field p) : p ∈ r.parametersOf .path :=
  (mem_of_holder? h.holder).1

/-- What stands at the place is the field of the parameter. -/
theorem PlaceOf.display (h : r.PlaceOf cs field p) : p.sentName.display.toList = field := by
  rw [(mem_of_holder? h.holder).2]
  exact String.toList_ofList

theorem PlaceOf.isIdentifierChars (h : r.PlaceOf cs field p) :
    Text.isIdentifierChars field = true :=
  (Text.leadingIdentifier?_eq_some_iff.mp h.identifier).1

theorem placeOf_escapeTemplate (h : ¬ ['$', '\x7b'] <:+: cs) :
    r.PlaceOf (escapeTemplate cs) field p ↔ r.PlaceOf cs field p := by
  have heq := Text.leadingIdentifier?_escapeTemplate h
  exact ⟨fun hplace => ⟨heq ▸ hplace.identifier, hplace.holder⟩,
    fun hplace => ⟨heq ▸ hplace.identifier, hplace.holder⟩⟩

end PlaceOf

/-- The character stays as it is: it is no colon in front of a place. -/
def Stays (r : Route) (c : Char) (cs : List Char) : Prop :=
  c = ':' → ∀ field p, ¬ r.PlaceOf cs field p

/-- The path is cut into characters and the places of parameters, which are found in the
escaped path. -/
inductive Cut (r : Route) : List Char → List Piece → Prop
  | nil : Cut r [] []
  | char {c : Char} {cs : List Char} {pieces : List Piece} :
      r.Stays c (escapeTemplate cs) → Cut r cs pieces → Cut r (c :: cs) (.char c :: pieces)
  | hole {field behind : List Char} {p : Parameter} {pieces : List Piece} :
      r.PlaceOf (escapeTemplate (field ++ behind)) field p → Cut r behind pieces →
      Cut r (':' :: (field ++ behind)) (.span p.filled :: pieces)

/-! ## What is written for a path -/

/-- The rest of a location, up to the backtick at its end. -/
def written (fields : Table Value) (cs : List Char) : List Char :=
  (pathPieces fields 0 cs).flatMap PathPiece.chars ++ ['`']

section Written

variable {fields : Table Value} {cs : List Char} {c : Char}

theorem pathPieces_skip (field back : List Char) :
    pathPieces fields field.length (field ++ back) = pathPieces fields 0 back := by
  induction field with
  | nil => rfl
  | cons c field ih => exact ih

theorem written_of_char (h : pathPieces fields 0 (c :: cs) = .char c :: pathPieces fields 0 cs) :
    written fields (c :: cs) = c :: written fields cs := by
  rw [written, h]
  rfl

theorem written_plain (h : c ≠ ':') : written fields (c :: cs) = c :: written fields cs :=
  written_of_char (by simp [pathPieces, h])

theorem head?_written (h : (written fields cs).head? = some '\x7b') : cs.head? = some '\x7b' := by
  cases cs with
  | nil => exact absurd h (by simp [written, pathPieces])
  | cons c cs =>
      by_cases hc : c = ':'
      · -- A colon stays or becomes the dollar of a span.
        subst hc
        obtain ⟨piece, rest, d, hpieces, hhead, hd⟩ : ∃ piece rest d,
            pathPieces fields 0 (':' :: cs) = piece :: rest ∧
              piece.chars.head? = some d ∧ d ≠ '\x7b' := by
          rw [pathPieces]
          split
          · split
            · exact ⟨.char ':', _, ':', rfl, rfl, by decide⟩
            · exact ⟨.char ':', _, ':', rfl, rfl, by decide⟩
            · exact ⟨_, _, '$', rfl, Parameter.head?_chars_hole _, by decide⟩
          · exact ⟨.char ':', _, ':', rfl, rfl, by decide⟩
        rw [written, hpieces, List.flatMap_cons, List.append_assoc, List.head?_append, hhead,
          Option.some_or, Option.some.injEq] at h
        exact absurd h hd
      · rwa [written_plain hc] at h

variable (hfields : ∀ field, Table.get? fields field = (r.holder? field).map Parameter.name)
include hfields

theorem written_char (h : r.Stays c cs) : written fields (c :: cs) = c :: written fields cs := by
  by_cases hc : c = ':'
  · subst hc
    refine written_of_char ?_
    rw [pathPieces, if_pos rfl]
    cases hfield : Text.leadingIdentifier? cs with
    | none => rfl
    | some field =>
        have hnone : r.holder? (String.ofList field) = none :=
          Option.eq_none_iff_forall_ne_some.mpr fun p hp => h rfl field p ⟨hfield, hp⟩
        have hget : Table.get? fields (String.ofList field) = none := by
          rw [hfields, hnone, Option.map_none]
        simp only [hget]
  · exact written_plain hc

theorem written_hole {field back : List Char} {p : Parameter} (hnamed : p.IsNamed)
    (h : r.PlaceOf (field ++ back) field p) :
    written fields (':' :: (field ++ back)) =
      '$' :: '\x7b' :: (p.filled ++ '\x7d' :: written fields back) := by
  obtain ⟨name, hname, -⟩ := hnamed
  have hget : Table.get? fields (String.ofList field) = some (.text name) := by
    rw [hfields, h.holder, Option.map_some, hname]
  have hlabel : p.label = name := by rw [Parameter.label, hname]; rfl
  have hpieces : pathPieces fields 0 (':' :: (field ++ back)) =
      .hole p.label :: pathPieces fields 0 back := by
    rw [pathPieces, if_pos rfl, h.identifier]
    simp only [hget]
    rw [pathPieces_skip, hlabel]
    rfl
  rw [written, hpieces, List.flatMap_cons, Parameter.chars_hole, written]
  simp

theorem inside_char {pieces : List Piece} (hstays : r.Stays c (escapeTemplate cs))
    (h : Inside (written fields (escapeTemplate cs)) pieces) :
    Inside (written fields (escapeTemplate (c :: cs))) (.char c :: pieces) := by
  rw [escapeTemplate]
  split
  · next hescaped =>
    have hcolon : c ≠ ':' := by
      rintro rfl
      exact absurd hescaped (by simp)
    rw [written_plain (by decide), written_plain hcolon]
    exact h.escaped c
  · next hplain =>
    simp only [not_or, not_and] at hplain
    obtain ⟨hslash, htick, hdollar⟩ := hplain
    rw [written_char hfields hstays]
    refine h.plain ?_ hslash
    rintro (hc | ⟨hc, hbrace⟩)
    · exact htick hc
    · exact hdollar hc (head?_of_escapeTemplate (head?_written hbrace))

theorem inside_hole {field behind : List Char} {p : Parameter} {pieces : List Piece}
    (hnamed : p.IsNamed) (hplace : r.PlaceOf (escapeTemplate (field ++ behind)) field p)
    (hescaped : escapeTemplate (field ++ behind) = field ++ escapeTemplate behind)
    (h : Inside (written fields (escapeTemplate behind)) pieces) :
    Inside (written fields (escapeTemplate (':' :: (field ++ behind))))
      (.span p.filled :: pieces) := by
  have hcolon : escapeTemplate (':' :: (field ++ behind)) =
      ':' :: (field ++ escapeTemplate behind) := by
    rw [escapeTemplate, if_neg (by simp), hescaped]
  rw [hescaped] at hplace
  rw [hcolon, written_hole hfields hnamed hplace]
  exact h.hole (Parameter.not_mem_filled hnamed)

/-- What is written for an escaped path reads as a cut of the path. -/
theorem exists_cut (hnamed : ∀ p ∈ r.parametersOf .path, p.IsNamed) (cs : List Char) :
    ∃ pieces, r.Cut cs pieces ∧ Inside (written fields (escapeTemplate cs)) pieces := by
  match cs with
  | [] => exact ⟨[], .nil, .nil⟩
  | c :: cs =>
      by_cases hstays : r.Stays c (escapeTemplate cs)
      · obtain ⟨pieces, hcut, hinside⟩ := exists_cut hnamed cs
        exact ⟨_, .char hstays hcut, inside_char hfields hstays hinside⟩
      · simp only [Stays, not_forall, not_not] at hstays
        obtain ⟨rfl, field, p, hplace⟩ := hstays
        -- The place has no escapes in it, so the path goes on behind it.
        obtain ⟨-, behind, rfl, hescaped⟩ := Text.exists_of_leadingIdentifier? hplace.identifier
        obtain ⟨pieces, hcut, hinside⟩ := exists_cut hnamed behind
        exact ⟨_, .hole hplace hcut,
          inside_hole hfields (hnamed p hplace.mem) hplace hescaped hinside⟩
termination_by cs.length

end Written

/-! ## Reading a cut -/

theorem Addressable.restore?_span (h : r.Addressable) {cs field : List Char} {p : Parameter}
    (hplace : r.PlaceOf cs field p) (pieces : List Piece) :
    r.restore? (.span p.filled :: pieces) = (r.restore? pieces).map (':' :: field ++ ·) := by
  rw [Route.restore?, h.filling? hplace.mem, ← hplace.display]
  cases r.restore? pieces <;> rfl

section Cut

variable {cs : List Char} {pieces : List Piece}

/-- A cut of a path gives the path back. -/
theorem Cut.restore? (h : r.Addressable) (hcut : r.Cut cs pieces) :
    r.restore? pieces = some cs := by
  induction hcut with
  | nil => rfl
  | char _ _ ih => rw [Route.restore?, ih, Option.map_some]
  | hole hplace _ ih => rw [h.restore?_span hplace, ih, Option.map_some, List.cons_append]

theorem Cut.exists_of_mem (hcut : r.Cut cs pieces) {code : List Char}
    (hcode : .span code ∈ pieces) : ∃ p ∈ r.parametersOf .path, code = p.filled := by
  induction hcut with
  | nil => exact absurd hcode List.not_mem_nil
  | char _ _ ih => exact ih ((List.mem_cons.mp hcode).resolve_left (by simp))
  | hole hplace _ ih =>
      rcases List.mem_cons.mp hcode with heq | hcode
      · exact ⟨_, hplace.mem, Piece.span.inj heq⟩
      · exact ih hcode

end Cut

/-- Among the pieces of a location there is a span, and those before it give back the part of
the path in front of its place. -/
def SpanAt (r : Route) (pieces : List Piece) (before code : List Char) : Prop :=
  ∃ front back, pieces = front ++ .span code :: back ∧ r.restore? front = some before

/-- In the path there is a colon in front of a place, and the code fills in its parameter. -/
def FillsAt (r : Route) (path before code : List Char) : Prop :=
  ∃ behind field p, path = before ++ ':' :: behind ∧ r.PlaceOf behind field p ∧ code = p.filled

section Steps

variable {c : Char} {cs field behind before code : List Char} {p : Parameter}
  {pieces : List Piece}

theorem spanAt_char : r.SpanAt (.char c :: pieces) before code ↔
    ∃ more, before = c :: more ∧ r.SpanAt pieces more code := by
  constructor
  · rintro ⟨front, back, hpieces, hbefore⟩
    cases front with
    | nil => exact absurd (List.cons.inj hpieces).1 (by simp)
    | cons piece front =>
        rw [List.cons_append, List.cons.injEq] at hpieces
        obtain ⟨rfl, rfl⟩ := hpieces
        obtain ⟨more, hmore, rfl⟩ := Option.map_eq_some_iff.mp hbefore
        exact ⟨more, rfl, front, back, rfl, hmore⟩
  · rintro ⟨more, rfl, front, back, rfl, hmore⟩
    exact ⟨.char c :: front, back, rfl, by rw [restore?, hmore, Option.map_some]⟩

theorem Addressable.spanAt_span (h : r.Addressable) (hplace : r.PlaceOf cs field p) :
    r.SpanAt (.span p.filled :: pieces) before code ↔ before = [] ∧ code = p.filled ∨
      ∃ more, before = ':' :: field ++ more ∧ r.SpanAt pieces more code := by
  constructor
  · rintro ⟨front, back, hpieces, hbefore⟩
    cases front with
    | nil =>
        obtain rfl : [] = before := Option.some.inj hbefore
        exact .inl ⟨rfl, (Piece.span.inj (List.cons.inj hpieces).1).symm⟩
    | cons piece front =>
        rw [List.cons_append, List.cons.injEq] at hpieces
        obtain ⟨rfl, rfl⟩ := hpieces
        rw [h.restore?_span hplace] at hbefore
        obtain ⟨more, hmore, rfl⟩ := Option.map_eq_some_iff.mp hbefore
        exact .inr ⟨more, rfl, front, back, rfl, hmore⟩
  · rintro (⟨rfl, rfl⟩ | ⟨more, rfl, front, back, rfl, hmore⟩)
    · exact ⟨[], pieces, rfl, rfl⟩
    · exact ⟨.span p.filled :: front, back, rfl, by rw [h.restore?_span hplace, hmore]; rfl⟩

theorem Stays.fillsAt_iff (hstays : r.Stays c cs) : r.FillsAt (c :: cs) before code ↔
    ∃ more, before = c :: more ∧ r.FillsAt cs more code := by
  constructor
  · rintro ⟨behind, field, p, hcs, hplace, rfl⟩
    cases before with
    | nil =>
        obtain ⟨rfl, rfl⟩ := List.cons.inj hcs
        exact absurd hplace (hstays rfl field p)
    | cons d more =>
        rw [List.cons_append, List.cons.injEq] at hcs
        obtain ⟨rfl, rfl⟩ := hcs
        exact ⟨more, rfl, behind, field, p, rfl, hplace, rfl⟩
  · rintro ⟨more, rfl, behind, field, p, rfl, hplace, rfl⟩
    exact ⟨behind, field, p, rfl, hplace, rfl⟩

theorem exists_of_append_colon {rest : List Char} (hfield : Text.isIdentifierChars field = true)
    (h : field ++ behind = before ++ ':' :: rest) :
    ∃ more, before = field ++ more ∧ behind = more ++ ':' :: rest := by
  rcases List.append_eq_append_iff.mp h with ⟨more, hbefore, hbehind⟩ | ⟨more, hhead, hrest⟩
  · exact ⟨more, hbefore, hbehind⟩
  · cases more with
    | nil => exact ⟨[], by simpa using hhead.symm, by simpa using hrest.symm⟩
    | cons c more =>
        obtain rfl : ':' = c := (List.cons.inj hrest).1
        have hcolon : ':' ∈ field := hhead ▸ List.mem_append_right before List.mem_cons_self
        exact absurd ((Text.continues_of_isIdentifierChars hfield).2 _ hcolon) (by decide)

theorem PlaceOf.fillsAt_iff (hplace : r.PlaceOf (field ++ behind) field p) :
    r.FillsAt (':' :: (field ++ behind)) before code ↔ before = [] ∧ code = p.filled ∨
      ∃ more, before = ':' :: field ++ more ∧ r.FillsAt behind more code := by
  constructor
  · rintro ⟨rest, field', p', hcs, hplace', rfl⟩
    cases before with
    | nil =>
        obtain ⟨-, rfl⟩ := List.cons.inj hcs
        obtain ⟨rfl, rfl⟩ := hplace.unique hplace'
        exact .inl ⟨rfl, rfl⟩
    | cons d before =>
        rw [List.cons_append, List.cons.injEq] at hcs
        obtain ⟨rfl, hcs⟩ := hcs
        obtain ⟨more, rfl, rfl⟩ := exists_of_append_colon hplace.isIdentifierChars hcs
        exact .inr ⟨more, rfl, rest, field', p', rfl, hplace', rfl⟩
  · rintro (⟨rfl, rfl⟩ | ⟨more, rfl, rest, field', p', rfl, hplace', rfl⟩)
    · exact ⟨field ++ behind, field, p, rfl, hplace, rfl⟩
    · exact ⟨rest, field', p', by simp, hplace', rfl⟩

end Steps

/-- In a path without a dollar in front of a brace, the spans stand at the places of the
parameters. -/
theorem Cut.spanAt_iff (h : r.Addressable) {cs : List Char} {pieces : List Piece}
    (hcut : r.Cut cs pieces) (hspan : ¬ ['$', '\x7b'] <:+: cs) (before code : List Char) :
    r.SpanAt pieces before code ↔ r.FillsAt cs before code := by
  induction hcut generalizing before with
  | nil =>
      refine iff_of_false ?_ ?_
      · rintro ⟨front, back, hnil, -⟩
        exact absurd hnil.symm (by simp)
      · rintro ⟨behind, field, p, hnil, -⟩
        exact absurd hnil.symm (by simp)
  | @char c cs pieces hstays hcut ih =>
      have hbehind : ¬ ['$', '\x7b'] <:+: cs := fun hcs =>
        hspan (hcs.trans (List.suffix_cons c cs).isInfix)
      have hstays' : r.Stays c cs := fun hc field p hplace =>
        hstays hc field p ((placeOf_escapeTemplate hbehind).mpr hplace)
      simp only [spanAt_char, hstays'.fillsAt_iff, ih hbehind]
  | @hole field behind p pieces hplace hcut ih =>
      have htail : ¬ ['$', '\x7b'] <:+: field ++ behind := fun hcs =>
        hspan (hcs.trans (List.suffix_cons ':' _).isInfix)
      have hbehind : ¬ ['$', '\x7b'] <:+: behind := fun hcs =>
        htail (hcs.trans (List.suffix_append field behind).isInfix)
      have hplace' := (placeOf_escapeTemplate htail).mp hplace
      simp only [h.spanAt_span hplace', hplace'.fillsAt_iff, ih hbehind]

/-- The location of a route is a template literal.  However it is read, each span fills in a
path parameter, and with a colon and the field of the parameter in the place of each span it
gives the path back.  If the path has no dollar in front of a brace, the spans stand at the
colons behind which the longest identifier is a field, and fill in the last parameter with
that field. -/
theorem location_reads {path : String} (h : r.Addressable) (hpath : r.path = .text path) :
    ∃ location, r.location = .ok location ∧ ∀ parameters queries,
      let text := (PathFunction.mk parameters location queries).literal
      (∃ pieces, Reads text pieces) ∧ ∀ pieces, Reads text pieces →
        (∀ code, .span code ∈ pieces → ∃ p ∈ r.parametersOf .path, code = p.filled) ∧
        r.restore? pieces = some path.toList ∧
        (¬ ['$', '\x7b'] <:+: path.toList → ∀ before code,
          r.SpanAt pieces before code ↔ r.FillsAt path.toList before code) := by
  obtain ⟨fields, htable, hfields⟩ := h.pathFields
  refine ⟨pathPieces fields 0 (escapeTemplate path.toList), ?_, fun parameters queries => ?_⟩
  · rw [Route.location, htable, hpath]
    rfl
  obtain ⟨pieces, hcut, hinside⟩ := exists_cut hfields h.named path.toList
  have hreads : Reads (PathFunction.mk parameters
      (pathPieces fields 0 (escapeTemplate path.toList)) queries).literal pieces :=
    ⟨_, String.toList_ofList, hinside⟩
  refine ⟨⟨pieces, hreads⟩, fun pieces' hreads' => ?_⟩
  obtain rfl := hreads.unique hreads'
  exact ⟨fun code hcode => hcut.exists_of_mem hcode, hcut.restore? h, hcut.spanAt_iff h⟩

/-- A route whose path has a dollar in front of a parameter, an identifier that goes on behind
the name of one, a field that two parameters share, and characters to be escaped. -/
def crowdedRoute : Route :=
  { name := .text "read", method := "GET", path := .text "/$:a/:ab/:id\\`", accessors := [],
    output := { name := .text "void" },
    parameters := [
      { name := .text "a", category := .path, type := { name := .text "string" } },
      { name := .text "first", category := .path, type := { name := .text "string" },
        field := .text "id" },
      { name := .text "$last", category := .path, type := { name := .text "string" },
        field := .text "id" }] }

/-- The statement for this route: the colon in front of the shared field is the place of the
last parameter. -/
theorem location_reads_of_crowdedRoute :
    crowdedRoute.Addressable ∧ ∃ location, crowdedRoute.location = .ok location ∧
      ∃ pieces, Reads (PathFunction.mk [] location []).literal pieces ∧
        crowdedRoute.restore? pieces = some "/$:a/:ab/:id\\`".toList ∧
        crowdedRoute.SpanAt pieces "/$:a/:ab/".toList
          "encodeURIComponent($last ?? \"null\")".toList := by
  have hparameters : crowdedRoute.parametersOf .path = crowdedRoute.parameters := rfl
  have haddressable : crowdedRoute.Addressable := by
    refine ⟨?_, ?_, ?_⟩ <;> rw [hparameters]
    · simp only [crowdedRoute, List.forall_mem_cons, Parameter.IsNamed]
      exact ⟨⟨"a", rfl, by decide⟩, ⟨"first", rfl, by decide⟩, ⟨"$last", rfl, by decide⟩, by simp⟩
    · decide
    · simp [crowdedRoute, Value.hasKey, Value.scalar?]
  obtain ⟨location, hlocation, hliteral⟩ := location_reads haddressable rfl
  obtain ⟨⟨pieces, hreads⟩, hall⟩ := hliteral [] []
  obtain ⟨-, hrestore, hspans⟩ := hall pieces hreads
  have hcode : "encodeURIComponent($last ?? \"null\")".toList =
      crowdedRoute.parameters[2].filled := by
    have hlabel : crowdedRoute.parameters[2].label = "$last" := rfl
    rw [Parameter.filled_eq, hlabel]
    simp
  have hplace : crowdedRoute.FillsAt "/$:a/:ab/:id\\`".toList "/$:a/:ab/".toList
      "encodeURIComponent($last ?? \"null\")".toList :=
    ⟨"id\\`".toList, "id".toList, crowdedRoute.parameters[2], by simp, ⟨by decide, rfl⟩, hcode⟩
  have hbrace : ¬ ['$', '\x7b'] <:+: "/$:a/:ab/:id\\`".toList := by simp [List.infix_cons_iff]
  exact ⟨haddressable, location, hlocation, pieces, hreads, hrestore,
    (hspans hbrace _ _).mpr hplace⟩

end Route

end ClientSdk
