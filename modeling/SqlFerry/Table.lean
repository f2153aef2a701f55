/-! Tables from texts to values. A key stands in a table once; putting it again changes its
value. -/
namespace SqlFerry

abbrev Table (α : Type) := List (String × α)

namespace Table

variable {α : Type}

def find? (t : Table α) (key : String) : Option α := List.lookup key t

def put (t : Table α) (key : String) (value : α) : Table α :=
  match t with
  | [] => [(key, value)]
  | (k, v) :: rest => if k = key then (key, value) :: rest else (k, v) :: put rest key value

/-- The table of some pairs; of two pairs with the same key the later counts. -/
def ofPairs (pairs : List (String × α)) : Table α :=
  pairs.foldl (fun t (key, value) => t.put key value) []

theorem find?_put_self (t : Table α) (key : String) (value : α) :
    (t.put key value).find? key = some value := by
  induction t with
  | nil => simp [put, find?]
  | cons pair rest ih =>
    obtain ⟨k, v⟩ := pair
    simp only [put]
    split
    · simp [find?]
    · next h =>
      have h : (key == k) = false := by simp; exact fun e => h e.symm
      simpa [find?, List.lookup_cons, h] using ih

theorem find?_put_of_ne {key other : String} (h : other ≠ key) (t : Table α) (value : α) :
    (t.put key value).find? other = t.find? other := by
  have h : (other == key) = false := beq_false_of_ne h
  induction t with
  | nil => simp [put, find?, List.lookup_cons, h]
  | cons pair rest ih =>
    obtain ⟨k, v⟩ := pair
    simp only [put]
    split
    · next hk => subst hk; simp [find?, List.lookup_cons, h]
    · cases hk : other == k with
      | true => simp [find?, List.lookup_cons, hk]
      | false => simpa [find?, List.lookup_cons, hk] using ih

end Table

end SqlFerry
