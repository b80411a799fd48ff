import ClientSdk.Fault

/-!
# Taking values apart

Members, entries and whole numbers of a value, with the fault that arises where
a value is not of the kind that the question needs or too long to be written.
-/

namespace ClientSdk.Value

/-- The member of a mapping, if it is there. -/
def member? (v : Value) (key : String) : Except Fault (Option Value) :=
  match v with
  | .map members => .ok (Table.get? members key)
  | _ => .error noOperation

/-- The member of a mapping, or null if it is not there. -/
def memberOrNull (v : Value) (key : String) : Except Fault Value :=
  return (← v.member? key).getD .null

/-- The member of a mapping, which has to be there. -/
def member (v : Value) (key : String) : Except Fault Value :=
  match v with
  | .map members =>
      match Table.get? members key with
      | some w => .ok w
      | none => .error (.value (.missingKey (.text key)))
  | _ => .error wrongKind

/-- The flag under a key, or `default` if the key is not there. -/
def flag (v : Value) (key : String) (default : Bool) : Except Fault Bool :=
  return match ← v.member? key with
    | some w => w.truthy
    | none => default

/-- The entries of a value: items, characters or keys. -/
def entries : Value → Except Fault (List Value)
  | .list items => .ok items
  | .text s => .ok (s.toList.map fun c => .text (String.singleton c))
  | .map members => .ok (members.map fun (k, _) => .text k)
  | _ => .error wrongKind

/-- The entries under a key; none if it is not there or counts as not given. -/
def entriesAt (v : Value) (key : String) : Except Fault (List Value) := do
  let w ← v.memberOrNull key
  if w.truthy then w.entries else return []

/-- The whole number that a value denotes, a fraction cut off. -/
def toInteger : Value → Except Fault Int
  | .bool b => .ok (if b then 1 else 0)
  | .int n => .ok n
  | .float .nan => .error (.value .nanNotInteger)
  | .float (.infinite _) => .error (.value .infinityNotInteger)
  | .float (.finite negative m e) =>
      .ok (Binary64.signed negative (Binary64.wholePart m e).1)
  | .text s =>
      match readInteger s with
      | .ok n => .ok n
      | .error .malformed => .error (.value (.notInteger 10 s))
      | .error (.tooLong count) => .error (.value (.tooManyDigits count))
  | _ => .error wrongKind

/-- What is written for the value, unless an integer in it is too long. -/
def unlessTooLong {α : Type} (v : Value) (written : α) : Except Fault α :=
  if v.isTooLong then .error (.value .tooLongToWrite) else .ok written

theorem unlessTooLong_eq_ok_iff {α : Type} {v : Value} {written a : α} :
    v.unlessTooLong written = .ok a ↔ v.isTooLong = false ∧ written = a := by
  cases h : v.isTooLong <;> simp [unlessTooLong, h]

def asText : Value → Except Fault String
  | .text s => .ok s
  | _ => .error noOperation

def asName : Value → Except Fault String
  | .text s => .ok s
  | _ => .error wrongKind

end ClientSdk.Value
