import ClientSdk.Text.Identifier

/-!
# Names inside type names

The declared types that the arguments of a type name refer to.  String literals
are cut out first; then every identifier counts that neither goes on another
word nor follows a point.
-/

namespace ClientSdk.TypeName

/-- The number of characters up to the closing quote of a string literal, the
quote included.  A backslash takes the next character with it, which cannot be a
line break. -/
def literalLength? (quote : Char) : List Char → Option Nat
  | [] => none
  | [c] => if c = quote then some 1 else none
  | c :: d :: cs =>
      if c = quote then some 1
      else if c = '\\' then
        if d = '\n' then none else (literalLength? quote cs).map (· + 2)
      else (literalLength? quote (d :: cs)).map (· + 1)

/-- The characters without string literals, after `skipped` more of them.  A
quote that is never closed stays. -/
def dropLiterals : Nat → List Char → List Char
  | _, [] => []
  | skipped + 1, _ :: cs => dropLiterals skipped cs
  | 0, c :: cs =>
      if c = '"' ∨ c = '\'' then
        match literalLength? c cs with
        | some n => dropLiterals n cs
        | none => c :: dropLiterals 0 cs
      else c :: dropLiterals 0 cs

/-- The identifiers that begin a name; `inside` says that the character before
is part of a word or a point. -/
def leadingNames (inside : Bool) : List Char → List (List Char)
  | [] => []
  | c :: cs =>
      let rest := leadingNames (Text.continuesIdentifier c || c == '.') cs
      if !inside && Text.startsIdentifier c then
        (c :: cs.takeWhile Text.continuesIdentifier) :: rest
      else rest

/-- The names that type arguments refer to, built-in types left out. -/
def references (arguments : List Char) : List String :=
  ((leadingNames false (dropLiterals 0 arguments)).map String.ofList).filter
    fun name => !Text.isKnownWord name

example : references "<IA.B, 'IX', Array<IC[]>>".toList = ["IA", "IC"] := by
  decide
example : references "<\"a\\\"IB\", IC".toList = ["IC"] := by decide

end ClientSdk.TypeName
