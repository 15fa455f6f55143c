import QueryKernel.Value
import QueryKernel.Error

/-!
# Maps and arrays

Maps as lists of entries with different keys, in the order in which the keys came first, and arrays as
lists of members counted from one.
-/

namespace QueryKernel

variable {F : Type}

/-- Entries of a map. -/
abbrev Entries (F : Type) := List (Atom × ValueOf F)

namespace Entries

/-- The entries with a key set to a value.  A key that is there already keeps its place and form. -/
def set (key : Atom) (value : ValueOf F) : Entries F → Entries F
  | [] => [(key, value)]
  | (other, bound) :: rest =>
      if other.sameKey key then (other, value) :: rest else (other, bound) :: set key value rest

/-- The entries of a map made from key and value pairs; a later pair replaces an earlier one. -/
def ofPairs (pairs : List (Atom × ValueOf F)) : Entries F :=
  pairs.foldl (fun entries (key, value) => set key value entries) []

/-- The value of a key. -/
def get? (entries : Entries F) (key : Atom) : Option (ValueOf F) :=
  (entries.find? fun (other, _) => other.sameKey key).map Prod.snd

end Entries

/-- The member of an array at a position counted from one. -/
def arrayMember (members : List (ValueOf F)) (i : Int64) : Except (Cause F) (ValueOf F) :=
  let outside : Except (Cause F) (ValueOf F) := .error (.arrayIndex i members.length)
  if i.toInt < 1 then outside
  else match members[i.toInt.toNat - 1]? with
    | some member => .ok member
    | none => outside

end QueryKernel
