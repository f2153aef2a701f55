import SqlFerry.Tree.Arena

/-! Looking up in an arena. -/
namespace SqlFerry

variable {κ : Type}

namespace Arena

variable {arena : Arena κ} {id : Nat}

@[simp] theorem size_link (arena : Arena κ) (parent : Nat) (children : List Nat) :
    (arena.link parent children).size = arena.size := by
  unfold link
  induction children generalizing arena with
  | nil => rfl
  | cons child rest ih => rw [List.foldl_cons, ih, Array.size_modify]

theorem size_addLeaf (arena : Arena κ) (token : Nat) : (arena.addLeaf token).size = arena.size + 1 :=
  Array.size_push _

theorem size_addRule (arena : Arena κ) (kind : κ) (first : Nat) (rest : List Nat) :
    (arena.addRule kind first rest).size = arena.size + 1 := by
  rw [addRule, Array.size_push, size_link]

/-- Linking changes nothing but the parents of the children. -/
theorem getElem?_link (arena : Arena κ) (parent : Nat) (children : List Nat) (id : Nat) :
    (arena.link parent children)[id]? =
      arena[id]?.map fun entry => if id ∈ children then { entry with parent := some parent } else entry := by
  unfold link
  induction children generalizing arena with
  | nil => simp
  | cons child rest ih =>
    rw [List.foldl_cons, ih, Array.getElem?_modify]
    by_cases same : child = id
    · subst same
      cases arena[child]? <;> simp
    · cases arena[id]? <;> simp [same, Ne.symm same]

end Arena

end SqlFerry
