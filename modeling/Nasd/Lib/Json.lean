import Mathlib.Algebra.Group.Int.Defs
import Nasd.Lib.Text

/-!
# Nasd.Lib.Json

JSON values, and how Go's `encoding/json` reads one over a typed record: a member goes to the field
of its name, or else to the first field of that name in another case; a value of the wrong kind
leaves the field as it is and reading goes on.

* `readObj_cons`     — an object is read member by member.
* `readObj_skip`     — members that name no field do not count.
-/

namespace Json

open Text

/-- A number is kept as its literal. -/
inductive Value where
  | null
  | bool (b : Bool)
  | num (lit : Str)
  | str (s : Str)
  | arr (vs : List Value)
  | obj (ms : List (Str × Value))

/-- Reading a value over what a field holds. -/
abbrev Reader (α : Type) := Value → α → α

variable {α β : Type}

def readBool : Reader Bool
  | .bool b, _ => b
  | _, old => old

def readStr : Reader Str
  | .str s, _ => s
  | _, old => old

/-- An integer literal of 64 bits; a literal with a fraction or an exponent is refused. -/
def parseInt (lit : Str) : Option Int :=
  let digits := if lit.head? = some '-' then lit.tail else lit
  let n := digits.foldl (fun n c => 10 * n + (c.toNat - '0'.toNat)) 0
  let z : Int := if lit.head? = some '-' then -n else n
  if digits ≠ [] ∧ digits.all Char.isDigit ∧ -2 ^ 63 ≤ z ∧ z < 2 ^ 63 then some z else none

def readInt : Reader Int
  | .num lit, old => (parseInt lit).getD old
  | _, old => old

def readList (zero : α) (r : Reader α) : Reader (List α)
  | .arr vs, _ => vs.map fun v => r v zero
  | .null, _ => []
  | _, old => old

/-! ## Objects -/

/-- Case folding as far as ASCII names are concerned: two letters beyond ASCII fold to ASCII. -/
def foldChar (c : Char) : Char :=
  if c = '\u017f' then 's' else if c = '\u212a' then 'k' else c.toLower

def foldName (name : Str) : Str := name.map foldChar

/-- A record's fields, each with the reading of its part of the record. -/
abbrev Fields (α : Type) := List (Str × Reader α)

def field (name : Str) (get : α → β) (set : β → α → α) (r : Reader β) : Str × Reader α :=
  (name, fun v a => set (r v (get a)) a)

def findField (fs : Fields α) (name : Str) : Option (Reader α) :=
  ((fs.find? fun f => f.1 = name).or (fs.find? fun f => foldName f.1 = foldName name)).map (·.2)

def readMember (fs : Fields α) (m : Str × Value) (a : α) : α :=
  match findField fs m.1 with
  | some r => r m.2 a
  | none => a

def readObj (fs : Fields α) : Reader α
  | .obj ms, old => ms.foldl (fun a m => readMember fs m a) old
  | _, old => old

variable {fs : Fields α} {m : Str × Value} {ms : List (Str × Value)} {old : α}

@[simp] theorem readObj_nil : readObj fs (.obj []) old = old := rfl

theorem readObj_cons :
    readObj fs (.obj (m :: ms)) old = readObj fs (.obj ms) (readMember fs m old) := rfl

theorem readObj_append (ms' : List (Str × Value)) :
    readObj fs (.obj (ms ++ ms')) old = readObj fs (.obj ms') (readObj fs (.obj ms) old) := by
  simp [readObj]

theorem readMember_unknown (h : findField fs m.1 = none) : readMember fs m old = old := by
  simp [readMember, h]

theorem readObj_skip (h : findField fs m.1 = none) :
    readObj fs (.obj (m :: ms)) old = readObj fs (.obj ms) old := by
  rw [readObj_cons, readMember_unknown h]

end Json
