import ClientSdk.Proofs.Ledger.Gains
import ClientSdk.Proofs.Text.Identifier
import ClientSdk.Proofs.Text.Occurs
import ClientSdk.Proofs.TypeExpr.Children

/-!
# The names in a type

A type is written with the names of validation tags and of declared types, and these have
to be imported.  What is wanted for a type is accounted for by the names in it, part by part
(`names_accounted`).  Every validation tag is wanted where it is written
(`tagsWanted_ofShape`).  Where all names are dotted, a draft of a type wants what the names in
its result need, in the same order and nothing else (`names_ofShape`); so writing a type
registers just those names (`names_registered`), and what is not written registers nothing.
-/

namespace ClientSdk

/-- A name in a type that has to be imported: a validation tag or a declared type. -/
inductive Mention where
  | tag (name : String)
  | declared (name : String)

/-- The name as it is written, without arguments. -/
def Mention.name : Mention → String
  | .tag name => name
  | .declared name => name

/-- How the name is told in a text: a tag goes on with its argument. -/
def Mention.mark : Mention → String
  | .tag name => name ++ "<"
  | .declared name => name

/-- What is registered for a name: a tag from its own library, a declared type from the
file of its first identifier, unless that is the file itself. -/
def Mention.registration (c : Config) : Mention → Registration
  | .tag name => .fromLibrary (c.tagLibrary name) name
  | .declared name =>
      { Registration.fromFile (c.fileOfRoot (Text.firstPart name)) (Text.firstPart name) with
        unlessOwn := true }

namespace TypeExpr

mutual

/-- The names in a type, in the order of its text. -/
def mentions : TypeExpr → List Mention
  | .keyword _ => []
  | .literal _ => []
  | .reference name => [.declared name]
  | .tag name _ => [.tag name]
  | .template _ spans => mentionsOfSpans spans
  | .array element => element.mentions
  | .tuple elements => mentionsOfElements elements
  | .object members => mentionsOfMembers members
  | .union members => mentionsOfTypes members
  | .intersection members => mentionsOfTypes members
  | .documented _ body => body.mentions

def mentionsOfTypes : List TypeExpr → List Mention
  | [] => []
  | t :: ts => t.mentions ++ mentionsOfTypes ts

def mentionsOfSpans : List (TypeExpr × String) → List Mention
  | [] => []
  | (t, _) :: spans => t.mentions ++ mentionsOfSpans spans

def mentionsOfElements : List (ElementMark × TypeExpr) → List Mention
  | [] => []
  | (_, t) :: elements => t.mentions ++ mentionsOfElements elements

def mentionsOfMembers : List TypeMember → List Mention
  | [] => []
  | .property _ _ _ value :: members => value.mentions ++ mentionsOfMembers members
  | .index _ key value :: members =>
      key.mentions ++ value.mentions ++ mentionsOfMembers members

end

end TypeExpr

def TypeMember.mentions : TypeMember → List Mention
  | .property _ _ _ value => value.mentions
  | .index _ key value => key.mentions ++ value.mentions

namespace TypeExpr

@[simp] theorem mentionsOfTypes_eq (ts : List TypeExpr) :
    mentionsOfTypes ts = ts.flatMap mentions := by
  induction ts with
  | nil => rfl
  | cons t ts ih => simp [mentionsOfTypes, ih]

@[simp] theorem mentionsOfSpans_eq (spans : List (TypeExpr × String)) :
    mentionsOfSpans spans = spans.flatMap fun span => span.1.mentions := by
  induction spans with
  | nil => rfl
  | cons span spans ih => simp [mentionsOfSpans, ih]

@[simp] theorem mentionsOfElements_eq (elements : List (ElementMark × TypeExpr)) :
    mentionsOfElements elements = elements.flatMap fun element => element.2.mentions := by
  induction elements with
  | nil => rfl
  | cons element elements ih => simp [mentionsOfElements, ih]

@[simp] theorem mentionsOfMembers_eq (members : List TypeMember) :
    mentionsOfMembers members = members.flatMap TypeMember.mentions := by
  induction members with
  | nil => rfl
  | cons member members ih =>
      cases member <;> simp [mentionsOfMembers, TypeMember.mentions, ih]

def ownMentions : TypeExpr → List Mention
  | .reference name => [.declared name]
  | .tag name _ => [.tag name]
  | _ => []

theorem mentions_eq (t : TypeExpr) :
    t.mentions = t.ownMentions ++ t.children.flatMap mentions := by
  have hmember : TypeMember.mentions = fun m => m.types.flatMap mentions := by
    funext m
    cases m <;> simp [TypeMember.mentions, TypeMember.types]
  cases t <;>
    simp [mentions, ownMentions, children, hmember, List.flatMap_map, List.flatMap_assoc]

theorem exists_own_of_mem_mentions {t : TypeExpr} {m : Mention} (h : m ∈ t.mentions) :
    ∃ u, t.Has u ∧ m ∈ u.ownMentions := by
  rw [mentions_eq, List.mem_append] at h
  rcases h with h | h
  · exact ⟨t, .self t, h⟩
  · obtain ⟨child, hchild, hm⟩ := List.mem_flatMap.mp h
    have hlt := sizeOf_lt_of_mem_children hchild
    obtain ⟨u, hu, hown⟩ := exists_own_of_mem_mentions hm
    exact ⟨u, .inside hchild hu, hown⟩
termination_by sizeOf t

@[simp] theorem mentions_unionOf (ts : List TypeExpr) :
    (unionOf ts).mentions = ts.flatMap mentions := by
  match ts with
  | [] | [_] | _ :: _ :: _ => simp [unionOf, mentions]

@[simp] theorem mentions_intersectionOf (ts : List TypeExpr) :
    (intersectionOf ts).mentions = ts.flatMap mentions := by
  match ts with
  | [] | [_] | _ :: _ :: _ => simp [intersectionOf, mentions]

@[simp] theorem mentions_objectOf (regular dynamic : List TypeMember) :
    (objectOf regular dynamic).mentions = (regular ++ dynamic).flatMap TypeMember.mentions := by
  cases regular with
  | nil => cases dynamic <;> simp [objectOf, mentions, List.flatMap_map]
  | cons member members => simp [objectOf, mentions, List.flatMap_map]

@[simp] theorem mentions_withComment (comment : String) (t : TypeExpr) :
    (withComment comment t).mentions = t.mentions := by
  unfold withComment
  split <;> simp [mentions]

end TypeExpr

/-! ## What drafts of types want -/

def ShapePart.NamesDotted : ShapePart → Prop
  | .declared a => ∀ name, a.name = .text name → Text.IsDotted name
  | .object o => ∀ name, o.anonymous = .ok false → o.name = .text name → Text.IsDotted name
  | .atomic a => ∀ row ∈ a.tags, ∀ tag ∈ row, Text.IsDotted tag.instanceName
  | .array a => ∀ row ∈ a.tags, ∀ tag ∈ row, Text.IsDotted tag.instanceName
  | _ => True

/-- All names of declared types and validation tags in the shape are dotted. -/
def TypeShape.NamesDotted (s : TypeShape) : Prop :=
  ∀ part, s.Contains part → part.NamesDotted

def ShapePart.NamesOf (kind : Mention → Prop) : ShapePart → Prop
  | .declared a => ∀ name, a.name = .text name → kind (.declared name)
  | .object o => ∀ name, o.anonymous = .ok false → o.name = .text name → kind (.declared name)
  | .atomic a => ∀ row ∈ a.tags, ∀ tag ∈ row, kind (.tag tag.instanceName)
  | .array a => ∀ row ∈ a.tags, ∀ tag ∈ row, kind (.tag tag.instanceName)
  | _ => True

theorem ShapePart.NamesDotted.namesOf {part : ShapePart} (h : part.NamesDotted) :
    part.NamesOf fun m => Text.IsDotted m.name := by
  cases part <;> exact h

/-- A relation of what is wanted to the names that it is wanted for.  It holds of the whole
if it holds of the parts, and of each name of a kind where that is written. -/
structure Accounts (c : Config) (kind : Mention → Prop)
    (R : List Registration → List Mention → Prop) : Prop where
  nil : R [] []
  append : ∀ {wants more names others}, R wants names → R more others →
    R (wants ++ more) (names ++ others)
  tag : ∀ {name}, kind (.tag name) → R [(Mention.tag name).registration c] [.tag name]
  declared : ∀ {name}, kind (.declared name) →
    (TypeExpr.ofName c name).Yields fun wants t => R wants t.mentions
  format : kind (.tag "Format")

/-- A draft whose wants stand in a relation to the names in its result. -/
abbrev Draft.Names {α : Type} (R : List Registration → List Mention → Prop)
    (names : α → List Mention) (d : Draft α) : Prop :=
  d.Yields fun wants a => R wants (names a)

namespace TypeExpr

open Draft (Yields Names)

section Accounts

variable {c : Config} {kind : Mention → Prop} {R : List Registration → List Mention → Prop}

section Names

variable {α β : Type} {d : Draft α} {names : α → List Mention}

theorem names_map {f : α → β} {names' : β → List Mention} (hd : d.Names R names)
    (h : ∀ a, names' (f a) = names a) : (do return f (← d) : Draft β).Names R names' :=
  hd.bind fun wants a hwants => .pure (by rw [List.append_nil, h]; exact hwants)

variable (hR : Accounts c kind R)
include hR

theorem names_pure {a : α} (h : names a = []) : (pure a : Draft α).Names R names :=
  .pure (h ▸ hR.nil)

theorem names_lift (x : Except Fault α) : (liftM x : Draft α).Names R fun _ => [] :=
  .lift fun _ _ => hR.nil

theorem names_mapM {as : List α} {f : α → Draft β} {names : β → List Mention}
    (h : ∀ a ∈ as, (f a).Names R names) : (as.mapM f).Names R (List.flatMap names) := by
  induction as with
  | nil => exact names_pure hR rfl
  | cons a as ih =>
      rw [List.mapM_cons]
      refine (h a List.mem_cons_self).bind fun _ b hb => ?_
      refine (ih fun a' ha' => h a' (List.mem_cons_of_mem _ ha')).bind fun _ bs hbs => .pure ?_
      simpa using hR.append hb hbs

end Names

variable (hR : Accounts c kind R)
include hR

theorem names_ofTag {tag : ValidationTag} (h : kind (.tag tag.instanceName)) :
    (ofTag c tag).Names R mentions := by
  have hwant : (Draft.want (.fromLibrary (c.tagLibrary tag.instanceName) tag.instanceName)).Yields
      fun wants name => R wants [.tag name] := by
    rintro _ ⟨⟩
    exact hR.tag h
  refine hwant.bind fun _ name hname => ?_
  refine (names_lift hR _).bind fun _ argument hnone => .pure ?_
  simpa [mentions] using hR.append hname hnone

theorem names_ofRow {row : List ValidationTag}
    (h : ∀ tag ∈ row, kind (.tag tag.instanceName)) : (ofRow c row).Names R mentions := by
  rw [ofRow, map_eq_pure_bind]
  refine names_map (names_mapM hR fun tag htag => names_ofTag hR (h tag htag)) ?_
  exact mentions_intersectionOf

theorem yields_withTags_names (base : TypeExpr) {tags : TagMatrix} {before : List Registration}
    (hbase : R before base.mentions)
    (h : ∀ row ∈ tags, ∀ tag ∈ row, kind (.tag tag.instanceName)) :
    (withTags c base tags).Yields fun wants t => R (before ++ wants) t.mentions := by
  have hrows : ∀ row ∈ tags.filter fun row => !row.isEmpty, ∀ tag ∈ row,
      kind (.tag tag.instanceName) := fun row hrow => h row (List.mem_of_mem_filter hrow)
  unfold withTags
  split
  · exact .pure (by simpa using hbase)
  · next row heq =>
    rw [heq] at hrows
    refine (names_mapM hR fun tag htag => names_ofTag hR (hrows row (by simp) tag htag)).bind
      fun _ ts hts => .pure ?_
    simpa using hR.append hbase hts
  · next rows _ _ =>
    refine (names_mapM hR fun row hrow => names_ofRow hR (hrows row hrow)).bind
      fun _ ts hts => .pure ?_
    simpa using hR.append hbase hts

theorem names_ofAtomic {a : Atomic}
    (h : ∀ row ∈ a.tags, ∀ tag ∈ row, kind (.tag tag.instanceName)) :
    (ofAtomic c a).Names R mentions :=
  (names_lift hR _).bind fun _ word hnone =>
    yields_withTags_names hR (.keyword word) hnone h

theorem names_dateTime : (dateTime c).Names R mentions :=
  names_map (names_ofTag hR hR.format) fun format => by simp [mentions]

theorem names_asText {v : Value} : (liftM v.asText : Draft String).Yields fun wants name =>
    R wants [] ∧ v = .text name :=
  Yields.lift fun _ hname => ⟨hR.nil, Value.eq_text_of_asText hname⟩

theorem names_ofAlias {a : Alias} (h : ∀ name, a.name = .text name → kind (.declared name)) :
    (ofAlias c a).Names R mentions := by
  refine (names_asText hR).bind fun _ name hname => ?_
  intro t ht
  simpa using hR.append hname.1 (hR.declared (h name hname.2) t ht)

/-! ### Parts -/

theorem names_ofSegments {segments : List TypeShape}
    (h : ∀ s ∈ segments, (ofShape c false s).Names R mentions) :
    (ofSegments c segments).Names R fun written => mentionsOfSpans written.2 := by
  induction segments with
  | nil =>
      rw [ofSegments]
      exact names_pure hR rfl
  | cons segment rest ih =>
      have hrest := ih fun s hs => h s (List.mem_cons_of_mem _ hs)
      rw [ofSegments]
      split
      · refine (names_lift hR _).bind fun _ _ hnone => ?_
        exact hrest.bind fun _ written hwritten => .pure (by simpa using hR.append hnone hwritten)
      · refine (h segment List.mem_cons_self).bind fun _ t ht => ?_
        exact hrest.bind fun _ written hwritten => .pure (by simpa using hR.append ht hwritten)

theorem names_ofElements {elements : List TypeShape}
    (h : ∀ s ∈ elements ++ elements.filterMap TypeShape.rest,
      (ofShape c false s).Names R mentions) :
    (ofElements c elements).Names R mentionsOfElements := by
  induction elements with
  | nil =>
      rw [ofElements]
      exact names_pure hR rfl
  | cons element rest ih =>
      have hrest := ih fun s hs => h s (by
        rw [List.mem_append] at hs ⊢
        exact hs.imp (List.mem_cons_of_mem _)
          ((List.Sublist.filterMap _ (List.sublist_cons_self _ _)).subset ·))
      obtain ⟨any, required, optional, nullable, escaped, constants, templates, atomics,
        tuples, arrays, objects, aliases, natives, repeated⟩ := element
      cases repeated with
      | some repeated =>
          rw [ofElements]
          refine (h repeated (by simp)).bind fun _ t ht => ?_
          exact hrest.bind fun _ written hwritten => .pure (by simpa using hR.append ht hwritten)
      | none =>
          rw [ofElements]
          · refine (h _ (by simp)).bind fun _ t ht => ?_
            exact hrest.bind fun _ written hwritten => .pure (by simpa using hR.append ht hwritten)
          · simp

theorem names_ofRegular {properties : List PropertyShape}
    (h : ∀ s ∈ properties.flatMap fun p => [p.key, p.value],
      (ofShape c false s).Names R mentions) :
    (ofRegular c properties).Names R mentionsOfMembers := by
  induction properties with
  | nil =>
      rw [ofRegular]
      exact names_pure hR rfl
  | cons p rest ih =>
      have hrest := ih fun s hs => h s (List.mem_append_right _ hs)
      obtain ⟨key, value, description, docTags⟩ := p
      rw [ofRegular]
      split
      · exact hrest
      · refine (names_lift hR _).bind fun _ text htext => ?_
        refine (h value (by simp)).bind fun _ t ht => ?_
        refine (names_lift hR _).bind fun _ comment hnone => ?_
        refine hrest.bind fun _ members hmembers => .pure ?_
        simpa [TypeMember.mentions] using
          hR.append htext (hR.append ht (hR.append hnone hmembers))

theorem names_ofDynamic {properties : List PropertyShape}
    (h : ∀ s ∈ properties.flatMap fun p => [p.key, p.value],
      (ofShape c false s).Names R mentions) :
    (ofDynamic c properties).Names R mentionsOfMembers := by
  induction properties with
  | nil =>
      rw [ofDynamic]
      exact names_pure hR rfl
  | cons p rest ih =>
      have hrest := ih fun s hs => h s (List.mem_append_right _ hs)
      obtain ⟨key, value, description, docTags⟩ := p
      rw [ofDynamic]
      split
      · exact hrest
      · refine (h key (by simp)).bind fun _ keyType hkey => ?_
        refine (h value (by simp)).bind fun _ t ht => ?_
        refine (names_lift hR _).bind fun _ comment hnone => ?_
        refine hrest.bind fun _ members hmembers => .pure ?_
        simpa [TypeMember.mentions] using
          hR.append hkey (hR.append ht (hR.append hnone hmembers))

theorem names_ofObjects {o : ObjectShape} (hnames : (ShapePart.object o).NamesOf kind)
    (h : ∀ s ∈ (ShapePart.object o).shapes, (ofShape c false s).Names R mentions) :
    (ofObjects c [o]).Names R mentionsOfTypes := by
  obtain ⟨properties, name, description, docTags⟩ := o
  have hanonymous : (liftM (ObjectShape.anonymous { name }) : Draft Bool).Yields
      fun wants anonymous => R wants [] ∧
        ObjectShape.anonymous { name } = .ok anonymous :=
    Yields.lift fun _ h => ⟨hR.nil, h⟩
  rw [ofObjects]
  refine hanonymous.bind fun _ anonymous hanonymous => ?_
  dsimp only
  simp only [ofObjects_last]
  split
  · refine (names_ofRegular hR h).bind fun _ regular hregular => ?_
    refine (names_ofDynamic hR h).bind fun _ dynamic hdynamic => ?_
    refine (names_lift hR _).bind fun _ comment hnothing => ?_
    rw [pure_bind]
    refine .pure ?_
    simpa using
      hR.append hanonymous.1 (hR.append hregular (hR.append hdynamic hnothing))
  · next hnamed =>
    have hfalse : anonymous = false := by simpa using hnamed
    refine (names_asText hR).bind fun _ text htext => ?_
    refine (hR.declared (hnames text (hfalse ▸ hanonymous.2) htext.2)).bind
      fun _ t ht => .pure ?_
    simpa using hR.append hanonymous.1 (hR.append htext.1 ht)

theorem names_ofPart {part : ShapePart} (hnames : part.NamesOf kind)
    (h : ∀ s ∈ part.shapes, ∀ inEscape, (ofShape c inEscape s).Names R mentions) :
    (ofPart c part).Names R mentionsOfTypes := by
  have hone : ∀ {d : Draft TypeExpr}, d.Names R mentions →
      (do return [← d] : Draft (List TypeExpr)).Names R mentionsOfTypes :=
    fun hd => names_map hd fun t => by simp
  cases part with
  | any | null | undefined | native => exact names_pure hR rfl
  | escaped e =>
      obtain ⟨declared, sent⟩ := e
      rw [ofPart, ofEscaped]
      split
      · exact hone (names_dateTime hR)
      · exact hone (h sent (by simp [ShapePart.shapes]) true)
  | literal kind value => exact hone (names_map (names_lift hR _) fun _ => rfl)
  | template segments =>
      rw [ofPart, ofTemplates, ofTemplates]
      refine (names_ofSegments hR fun s hs => h s hs false).bind fun _ written hspans => ?_
      obtain ⟨head, spans⟩ := written
      dsimp only
      rw [pure_bind]
      exact .pure (by simpa [mentions] using hspans)
  | atomic a => exact hone (names_ofAtomic hR hnames)
  | tuple t =>
      obtain ⟨elements, name⟩ := t
      rw [ofPart, ofTuples, ofTuples]
      refine (names_ofElements hR fun s hs => h s hs false).bind fun _ elements helements => ?_
      rw [pure_bind]
      exact .pure (by simpa [mentions] using helements)
  | array a =>
      obtain ⟨value, tags, name⟩ := a
      rw [ofPart, ofArrays, ofArrays]
      refine (h value (by simp [ShapePart.shapes]) false).bind fun _ element helement => ?_
      refine Yields.bind (yields_withTags_names hR (.array element) helement hnames)
        fun _ t ht => ?_
      rw [pure_bind]
      exact .pure (by simpa using ht)
  | object o => exact names_ofObjects hR hnames fun s hs => h s hs false
  | declared a => exact hone (names_ofAlias hR hnames)

/-- What is wanted for a type stands in the relation to the names in the type. -/
theorem names_accounted {s : TypeShape} (hnames : ∀ part, s.Contains part → part.NamesOf kind)
    (inEscape : Bool) : (ofShape c inEscape s).Names R mentions := by
  induction s using TypeShape.induction generalizing inEscape with
  | step s ih =>
      rw [ofShape_eq, ofParts, Functor.map_map, map_eq_pure_bind]
      refine names_map
        (names_mapM hR fun part hpart => names_ofPart hR (hnames part (.part ?_)) ?_) ?_
      · exact TypeShape.mem_parts_of_mem hpart
      · intro inner hinner inEscape
        have hpart := TypeShape.mem_parts_of_mem hpart
        exact ih part hpart inner hinner
          (fun deeper hdeeper => hnames deeper (.inside hpart hinner hdeeper)) inEscape
      · intro tss
        have hflat : mentionsOfTypes = List.flatMap mentions := funext mentionsOfTypes_eq
        rw [mentions_unionOf, hflat, ← List.flatMap_id, List.flatMap_assoc]
        rfl

end Accounts

end TypeExpr

/-! ## Declared types -/

/-- The import of a declared type by the first identifier of its name, unless the file declares
it itself. -/
def Config.rootImport (c : Config) (root : String) : Registration :=
  { Registration.fromFile (c.fileOfRoot root) root with unlessOwn := true }

/-- The import of a declared type is left out in the file that declares it. -/
theorem Ledger.skips_rootImport (l : Ledger) (c : Config) (root : String) :
    l.skips (c.rootImport root) = l.isOwn (c.fileOfRoot root) := by
  rw [Bool.eq_iff_iff]
  simp [skips, isOwn, Config.rootImport, Registration.fromFile, Origin.ofPath]

/-- A type is referred to by its whole name, and wanted by the first identifier of that with
the names in its arguments. -/
theorem TypeExpr.ofName_eq (c : Config) {name root : String} (h : typeRoot name = .ok root) :
    ofName c name =
      ⟨(root :: TypeName.references ((Text.trimChars name.toList).drop root.length)).map
        c.rootImport, .ok (.reference name)⟩ := by
  unfold ofName
  rw [h]
  change (pure root >>= _ : Draft TypeExpr) = _
  rw [pure_bind]
  dsimp only
  rw [Draft.mapM_of_ok (f := wantRoot c) (g := fun root => (c.rootImport root).name.display)
    fun _ _ => rfl, Draft.bind_ok rfl, Draft.pure_def]
  rw [List.append_nil, List.map_eq_flatMap (f := c.rootImport)]
  rfl

/-! ## Dotted names -/

/-- Registrations that are those of names, all of them dotted. -/
structure WantedFor (c : Config) (wants : List Registration) (names : List Mention) :
    Prop where
  wants : wants = names.map (Mention.registration c)
  dotted : ∀ m ∈ names, Text.IsDotted m.name

namespace WantedFor

variable {c : Config} {wants more : List Registration} {names others : List Mention}

theorem single {m : Mention} (h : Text.IsDotted m.name) :
    WantedFor c [m.registration c] [m] where
  wants := rfl
  dotted _ hm := List.mem_singleton.mp hm ▸ h

theorem append (h : WantedFor c wants names) (h' : WantedFor c more others) :
    WantedFor c (wants ++ more) (names ++ others) where
  wants := by rw [h.wants, h'.wants, List.map_append]
  dotted m hm := (List.mem_append.mp hm).elim (h.dotted m) (h'.dotted m)

theorem of_ofName {name : String} (h : Text.IsDotted name) :
    (TypeExpr.ofName c name).Yields fun wants t => WantedFor c wants t.mentions := by
  rw [TypeExpr.ofName_eq c (Text.typeRoot_of_isDotted h), TypeName.references_of_isDotted h]
  rintro _ ⟨⟩
  exact .single (m := .declared name) h

theorem accounts (c : Config) : Accounts c (fun m => Text.IsDotted m.name) (WantedFor c) where
  nil := ⟨rfl, fun _ h => absurd h List.not_mem_nil⟩
  append := append
  tag h := single h
  declared := of_ofName
  format := by decide

end WantedFor

/-! ## Validation tags -/

/-- Registrations among which are those of the validation tags in a type, whatever else it
is made of. -/
def TagsWanted (c : Config) (wants : List Registration) (names : List Mention) : Prop :=
  ∀ name, .tag name ∈ names → (Mention.tag name).registration c ∈ wants

theorem TagsWanted.accounts (c : Config) : Accounts c (fun _ => True) (TagsWanted c) where
  nil _ h := absurd h List.not_mem_nil
  append h h' name hname := by
    rcases List.mem_append.mp hname with hname | hname
    · exact List.mem_append_left _ (h name hname)
    · exact List.mem_append_right _ (h' name hname)
  tag _ name hname := by
    rw [List.mem_singleton.mp hname]
    exact List.mem_singleton.mpr rfl
  declared {declared} _ := by
    refine Draft.Yields.bind (P := fun _ _ => True) (fun _ _ => trivial) fun _ _ _ => ?_
    refine Draft.Yields.bind (P := fun _ _ => True) (fun _ _ => trivial) fun _ _ _ => ?_
    refine .pure fun name hname => ?_
    exact nomatch List.mem_singleton.mp hname
  format := trivial

namespace TypeExpr

variable (c : Config)

theorem names_ofShape {s : TypeShape} (hnames : s.NamesDotted) (inEscape : Bool) :
    (ofShape c inEscape s).Names (WantedFor c) mentions :=
  names_accounted (WantedFor.accounts c) (fun part hpart => (hnames part hpart).namesOf) inEscape

section Marks

variable {m : Mention}

theorem not_mem_mark (h : Text.IsDotted m.name) : '\n' ∉ m.mark.toList := by
  have hname : '\n' ∉ m.name.toList := fun hbreak =>
    absurd (Text.isDottedChar_of_mem h hbreak) (by decide)
  cases m with
  | tag name => simpa [Mention.mark, Mention.name] using hname
  | declared name => exact hname

/-- Every name that a type mentions stands in its text. -/
theorem occurs_mark (hbreak : '\n' ∉ m.mark.toList) (t : TypeExpr) (h : m ∈ t.mentions) :
    Text.Occurs m.mark t.text := by
  obtain ⟨u, hu, hown⟩ := exists_own_of_mem_mentions h
  refine (standsIn_of_has hu).occurs hbreak ?_
  cases u with
  | reference name =>
      rw [List.mem_singleton.mp hown]
      exact .refl name
  | tag name argument =>
      rw [List.mem_singleton.mp hown]
      exact ((Text.Occurs.refl _).append_right argument).append_right ">"
  | _ => exact absurd hown List.not_mem_nil

end Marks

/-- Writing a type registers the names in it and nothing else: every validation tag from
its own library, and the first identifier of every declared type from its file, unless
that is the file itself.  The names stand in the text of the type. -/
theorem names_registered {l l' : Ledger} {s : TypeShape} {inEscape : Bool} {t : TypeExpr}
    (hnames : s.NamesDotted) (hwrite : l.fulfil (ofShape c inEscape s) = (.ok t, l')) :
    l.Gains (l.wanted (t.mentions.map (Mention.registration c))) l' ∧
      ∀ m ∈ t.mentions, Text.Occurs m.mark t.text := by
  obtain ⟨hgranted, hresult⟩ := Ledger.registerAll_of_fulfil hwrite
  have hwanted := names_ofShape c hnames inEscape t hresult
  rw [hwanted.wants] at hgranted
  refine ⟨Ledger.gains_of_registerAll ?_ hgranted, fun m hm => ?_⟩
  · intro r hr
    obtain ⟨m, -, rfl⟩ := List.mem_map.mp hr
    cases m <;> exact ⟨rfl, rfl⟩
  · exact occurs_mark (not_mem_mark (hwanted.dotted m hm)) t hm

/-- A number with a minimum, a type of another file or a type of the file itself. -/
def taggedShape : TypeShape :=
  { atomics := [{ kind := .text "number", tags := [[
      { name := "Minimum<0>", kind := .text "minimum", value := .int 0 }]] }],
    aliases := [{ name := .text "IPage.IInfo" }, { name := .text "ISelf" }] }

/-- The statement for a tag, for a type of another file and for one of the file itself. -/
theorem names_registered_of_taggedShape :
    let written := (Ledger.forFile .root "api/structures/ISelf.ts").fulfil
      (ofShape { output := "api" } false taggedShape)
    written.1 = .ok (.union [.intersection [.keyword "number", .tag "Minimum" "0"],
        .reference "IPage.IInfo", .reference "ISelf"]) ∧
      (Ledger.forFile .root "api/structures/ISelf.ts").Gains
        [.fromLibrary "typia/lib/tags/Minimum" "Minimum",
          { Registration.fromFile "api/structures/IPage.ts" "IPage" with unlessOwn := true }]
        written.2 := by
  have hnames : taggedShape.NamesDotted := by
    have hparts : taggedShape.parts false = [.atomic { kind := .text "number", tags := [[
        { name := "Minimum<0>", kind := .text "minimum", value := .int 0 }]] },
        .declared { name := .text "IPage.IInfo" }, .declared { name := .text "ISelf" }] := rfl
    intro part hpart
    cases hpart with
    | part hpart =>
        simp only [hparts, List.mem_cons, List.not_mem_nil, or_false] at hpart
        rcases hpart with rfl | rfl | rfl
        · simp only [ShapePart.NamesDotted, List.forall_mem_singleton]
          decide
        · rintro _ ⟨⟩
          decide
        · rintro _ ⟨⟩
          decide
    | inside hpart hinner _ =>
        simp only [hparts, List.mem_cons, List.not_mem_nil, or_false] at hpart
        rcases hpart with rfl | rfl | rfl <;> cases hinner
  have hwritten : ((Ledger.forFile .root "api/structures/ISelf.ts").fulfil
      (ofShape { output := "api" } false taggedShape)).1 =
        .ok (.union [.intersection [.keyword "number", .tag "Minimum" "0"],
          .reference "IPage.IInfo", .reference "ISelf"]) := rfl
  have hgains := (names_registered { output := "api" } hnames (Prod.ext hwritten rfl)).1
  have hwanted : (Ledger.forFile .root "api/structures/ISelf.ts").wanted
      ((TypeExpr.union [.intersection [.keyword "number", .tag "Minimum" "0"],
        .reference "IPage.IInfo", .reference "ISelf"]).mentions.map
          (Mention.registration { output := "api" })) =
      [.fromLibrary "typia/lib/tags/Minimum" "Minimum",
        { Registration.fromFile "api/structures/IPage.ts" "IPage" with unlessOwn := true }] := by
    decide +kernel
  exact ⟨hwritten, hwanted ▸ hgains⟩

end TypeExpr

end ClientSdk
