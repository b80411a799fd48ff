import ClientSdk.Proofs.Path.Join
import ClientSdk.Proofs.Text.Occurs

/-!
# Names as they are read

A declaration is read by its characters: its name goes on as far as an identifier does.  So a
name with a line break at its end, which passes for an identifier, is read without it
(`readName_of_identifierLine`), whatever else is written behind it
(`introduces_of_occurs`).
-/

namespace ClientSdk.Text

/-- A name as it is read where it is declared: the identifier that it begins with.  What begins
with none is no name, and stays as it is. -/
def readName (s : String) : String :=
  String.ofList ((leadingIdentifier? s.toList).getD s.toList)

/-- Somewhere in the text the keyword stands with the name behind it. -/
def Introduces (keyword name text : String) : Prop :=
  ∃ behind, keyword.toList ++ behind <:+ text.toList ∧
    leadingIdentifier? behind = some name.toList

theorem leadingIdentifier?_append {cs : List Char} (h : isIdentifierChars cs = true)
    {rest : List Char} (hrest : ∀ c, rest.head? = some c → continuesIdentifier c = false) :
    leadingIdentifier? (cs ++ rest) = some cs :=
  leadingIdentifier?_eq_some_iff.mpr ⟨h, rest, rfl, hrest⟩

theorem leadingIdentifier?_self {cs : List Char} (h : isIdentifierChars cs = true) :
    leadingIdentifier? cs = some cs :=
  leadingIdentifier?_eq_some_iff.mpr ⟨h, [], (List.append_nil cs).symm, by simp⟩

theorem not_continuesIdentifier_break (rest : List Char) {c : Char}
    (hc : ('\n' :: rest).head? = some c) : continuesIdentifier c = false := by
  cases hc
  decide

theorem readName_of_identifierLine {s : String} (h : isIdentifierLine s = true) :
    isIdentifierChars (readName s).toList = true ∧
      (s = readName s ∨ s = readName s ++ "\n") := by
  obtain ⟨cs, hcs, hs⟩ := isIdentifierLine_iff.mp h
  have hread : readName s = String.ofList cs := by
    have hlead : leadingIdentifier? s.toList = some cs := by
      rcases hs with hs | hs <;> rw [hs]
      · exact leadingIdentifier?_self hcs
      · exact leadingIdentifier?_append hcs fun _ => not_continuesIdentifier_break []
    rw [readName, hlead]
    rfl
  rw [hread, String.toList_ofList]
  refine ⟨hcs, hs.imp (fun hs => ?_) fun hs => ?_⟩
  · rw [← hs, String.ofList_toList]
  · exact String.toList_injective (by simp [hs])

/-- A name is read wherever it is written in front of something that no identifier goes on
with. -/
theorem leadingIdentifier?_identifierLine {s : String} (h : isIdentifierLine s = true)
    {rest : List Char} (hrest : ∀ c, rest.head? = some c → continuesIdentifier c = false) :
    leadingIdentifier? (s.toList ++ rest) = some (readName s).toList := by
  obtain ⟨hread, hs⟩ := readName_of_identifierLine h
  rcases hs with hs | hs
  · have hchars : s.toList = (readName s).toList := congrArg String.toList hs
    rw [hchars]
    exact leadingIdentifier?_append hread hrest
  · have hchars : s.toList = (readName s).toList ++ ['\n'] :=
      (congrArg String.toList hs).trans String.toList_append
    rw [hchars, List.append_assoc]
    exact leadingIdentifier?_append hread fun _ => not_continuesIdentifier_break rest

theorem introduces_of_occurs {keyword s text : String} {c : Char} {rest : List Char}
    (h : isIdentifierLine s = true) (hc : continuesIdentifier c = false)
    (hoccurs : Occurs (keyword ++ s ++ String.ofList (c :: rest)) text) :
    Introduces keyword (readName s) text := by
  obtain ⟨before, behind, htext⟩ := hoccurs
  refine ⟨s.toList ++ (c :: rest ++ behind), ⟨before, ?_⟩, ?_⟩
  · rw [← htext]
    simp [List.append_assoc]
  · refine leadingIdentifier?_identifierLine h fun d hd => ?_
    cases hd
    exact hc

end ClientSdk.Text
