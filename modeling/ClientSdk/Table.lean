/-!
# Tables

Finite maps that keep the order in which their keys first came, mostly with texts
as keys.  Writing to a key that is there leaves it at its place.
-/

namespace ClientSdk

/-- An association list with each key once, in the order of first use. -/
abbrev Table (α : Type) := List (String × α)

namespace Table

variable {κ α : Type} [DecidableEq κ]

def get? (t : List (κ × α)) (key : κ) : Option α :=
  match t with
  | [] => none
  | (k, a) :: rest => if k = key then some a else get? rest key

def keys {κ α : Type} (t : List (κ × α)) : List κ :=
  t.map Prod.fst

/-- The table with the entry of `key` made from the one before, at its place, or
appended if there was none. -/
def alter (t : List (κ × α)) (key : κ) (f : Option α → α) : List (κ × α) :=
  match t with
  | [] => [(key, f none)]
  | (k, a) :: rest =>
      if k = key then (k, f (some a)) :: rest
      else (k, a) :: alter rest key f

/-- The first entry whose key fits, with the key. -/
def find? {κ α : Type} (fits : κ → Bool) (t : List (κ × α)) : Option (κ × α) :=
  List.find? (fun p => fits p.1) t

/-- The table with the first entry whose key fits made from the one before, at
its place and under its key, or appended under `key` if there was none. -/
def alterWhere {κ α : Type} (fits : κ → Bool) (key : κ) (f : Option α → α) :
    List (κ × α) → List (κ × α)
  | [] => [(key, f none)]
  | (k, a) :: rest =>
      if fits k then (k, f (some a)) :: rest
      else (k, a) :: alterWhere fits key f rest

def insert (t : List (κ × α)) (key : κ) (a : α) : List (κ × α) :=
  alter t key fun _ => a

/-- The table of the pairs, where a later pair of a key replaces the entry. -/
def ofPairs (pairs : List (κ × α)) : List (κ × α) :=
  pairs.foldl (fun t (k, a) => insert t k a) []

@[simp]
theorem get?_alter_self (t : List (κ × α)) (key : κ) (f : Option α → α) :
    get? (alter t key f) key = some (f (get? t key)) := by
  induction t with
  | nil => simp [alter, get?]
  | cons p rest ih =>
    obtain ⟨k, a⟩ := p
    by_cases h : k = key <;> simp [alter, get?, h, ih]

theorem get?_alter_of_ne (t : List (κ × α)) {key key' : κ}
    (f : Option α → α) (h : key' ≠ key) :
    get? (alter t key f) key' = get? t key' := by
  induction t with
  | nil => simp [alter, get?, Ne.symm h]
  | cons p rest ih =>
    obtain ⟨k, a⟩ := p
    by_cases hk : k = key
    · subst hk; simp [alter, get?, Ne.symm h]
    · by_cases hk' : k = key'
      · subst hk'; simp [alter, get?, hk]
      · simp [alter, get?, hk, hk', ih]

/-- Writing to a key adds it at the end if it is new. -/
theorem keys_alter (t : List (κ × α)) (key : κ) (f : Option α → α) :
    keys (alter t key f) =
      if key ∈ keys t then keys t else keys t ++ [key] := by
  induction t with
  | nil => simp [alter, keys]
  | cons p rest ih =>
    obtain ⟨k, a⟩ := p
    unfold keys at ih ⊢
    by_cases hk : k = key
    · simp [alter, hk]
    · have hk' : ¬ key = k := fun h => hk h.symm
      simp only [alter, if_neg hk, List.map_cons, ih, List.mem_cons, hk', false_or]
      split <;> simp

end Table

end ClientSdk
