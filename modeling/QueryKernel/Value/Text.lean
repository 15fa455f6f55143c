import QueryKernel.Value

/-!
# The text of items and values

Printed forms, as they appear in printed expressions and in messages.  Of a long sequence only the
first items are shown.
-/

namespace QueryKernel

variable {F : Type}

/-- How many items of a sequence are shown. -/
def shownItems : Nat := 16

/-- Texts with a comma between them. -/
def commaSeparated (texts : List String) : String := ", ".intercalate texts

/-- Local name and number of parameters. -/
def FunctionItem.text (f : FunctionItem F) : String :=
  (match f.name with
    | some name => name.localPart
    | none => "function") ++ "#" ++ toString f.parameters.length

mutual

/-- The printed form of an item. -/
def ItemOf.text : ItemOf F → String
  | .atom a => a.literal
  | .node n => n.text
  | .function f => f.text
  | .map _ entries _ =>
      "map \x7b " ++
        commaSeparated (entries.attach.map fun ⟨(key, value), _⟩ => key.literal ++ ": " ++ value.text) ++
        " \x7d"
  | .array _ members _ =>
      "[ " ++ commaSeparated (members.attach.map fun ⟨member, _⟩ => member.text) ++ " ]"
termination_by i => sizeOf i
decreasing_by
  · rename_i member
    have := List.sizeOf_lt_of_mem member
    simp only [Prod.mk.sizeOf_spec] at this
    simp only [ItemOf.map.sizeOf_spec]
    omega
  · rename_i inMembers
    have := List.sizeOf_lt_of_mem inMembers
    simp only [ItemOf.array.sizeOf_spec]
    omega

/-- The printed form of a value. -/
def ValueOf.text : ValueOf F → String
  | .empty => "()"
  | .one item => item.text
  | .range r => "(" ++ toString r.first.toInt ++ " to " ++ toString r.last.toInt ++ ")"
  | .flat items _ =>
      "(" ++ commaSeparated ((items.take shownItems).attach.map fun ⟨item, _⟩ => item.text) ++
        (if shownItems < items.length then ", ..." else "") ++ ")"
  | .tree rope _ =>
      "(" ++ commaSeparated ((rope.firstItems shownItems).attach.map fun ⟨item, _⟩ => item.text) ++
        (if shownItems < rope.size then ", ..." else "") ++ ")"
termination_by v => sizeOf v
decreasing_by
  · simp only [ValueOf.one.sizeOf_spec]
    omega
  · rename_i shown
    have := List.sizeOf_lt_of_mem (List.mem_of_mem_take shown)
    simp only [ValueOf.flat.sizeOf_spec]
    omega
  · rename_i shown
    have := Rope.sizeOf_lt_of_mem (Rope.mem_toList_of_mem_firstItems shown)
    simp only [ValueOf.tree.sizeOf_spec]
    omega

end

end QueryKernel
