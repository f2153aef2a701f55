import SqlFerry.Text.Column

/-! What stands at a column. A text stands in a line at the column that counts the bytes in front of
it, so such a column is always a character boundary, and the empty text stands exactly at the
boundaries. Replacing a stretch keeps what stands wholly on either side of it. -/
namespace SqlFerry.Text

@[simp] theorem byteLength_nil : byteLength [] = 0 := rfl

theorem byteLength_eq_zero {cs : List Char} : byteLength cs = 0 ↔ cs = [] := by
  cases cs with
  | nil => simp [byteLength]
  | cons c cs => have := c.utf8Size_pos; simp [byteLength]; omega

@[simp] theorem size_ofList (cs : List Char) : size (.ofList cs) = byteLength cs := by
  simp [size]

@[simp] theorem takeBytes_append (xs ys : List Char) :
    takeBytes (byteLength xs) (xs ++ ys) = xs := by
  induction xs with
  | nil => cases ys with
    | nil => rfl
    | cons c ys => have := c.utf8Size_pos; simp [takeBytes, byteLength]; omega
  | cons c xs ih => simp [takeBytes, byteLength, ih]

@[simp] theorem dropBytes_append (xs ys : List Char) :
    dropBytes (byteLength xs) (xs ++ ys) = ys := by
  have whole := takeBytes_append_dropBytes (byteLength xs) (xs ++ ys)
  rw [takeBytes_append] at whole
  exact List.append_cancel_left whole

/-- Of two ways to cut a list of characters the one with fewer bytes in front comes first. -/
theorem cut_of_byteLength_le {xs ys zs ws : List Char} (same : xs ++ ys = zs ++ ws)
    (shorter : byteLength xs ≤ byteLength zs) : ∃ mid, zs = xs ++ mid ∧ ys = mid ++ ws := by
  rcases List.append_eq_append_iff.mp same with ⟨mid, rfl, rfl⟩ | ⟨mid, rfl, rfl⟩
  · exact ⟨mid, rfl, rfl⟩
  · have empty : mid = [] := by
      rw [byteLength_append] at shorter
      exact byteLength_eq_zero.mp (by omega)
    subst empty
    exact ⟨[], by simp, by simp⟩

/-- `text` stands in the line at the column. -/
def StandsAt (line : String) (column : Nat) (text : String) : Prop :=
  ∃ before after, line.toList = before ++ text.toList ++ after ∧ byteLength before = column

theorem standsAt_iff {line text : String} {column : Nat} : StandsAt line column text ↔
    floorColumn line column = column ∧ text.toList <+: dropBytes column line.toList := by
  constructor
  · rintro ⟨before, after, shape, rfl⟩
    rw [floorColumn, shape, List.append_assoc, takeBytes_append, dropBytes_append]
    exact ⟨rfl, List.prefix_append _ _⟩
  · rintro ⟨boundary, after, shape⟩
    refine ⟨takeBytes column line.toList, after, ?_, boundary⟩
    rw [List.append_assoc, shape, takeBytes_append_dropBytes]

instance (line text : String) (column : Nat) : Decidable (StandsAt line column text) :=
  decidable_of_iff _ standsAt_iff.symm

theorem standsAt_floorColumn (line : String) (column : Nat) :
    StandsAt line (floorColumn line column) "" :=
  ⟨takeBytes column line.toList, dropBytes column line.toList,
    by simp [takeBytes_append_dropBytes], rfl⟩

theorem standsAt_zero (line : String) : StandsAt line 0 "" := ⟨[], line.toList, by simp, rfl⟩

theorem standsAt_size (line : String) : StandsAt line (size line) "" := ⟨line.toList, [], by simp, rfl⟩

theorem StandsAt.size_le {line text : String} {column : Nat} (stands : StandsAt line column text) :
    column + size text ≤ size line := by
  obtain ⟨before, after, shape, rfl⟩ := stands
  simp [size, shape]

theorem StandsAt.boundary {line text : String} {column : Nat} (stands : StandsAt line column text) :
    StandsAt line column "" := by
  obtain ⟨before, after, shape, rfl⟩ := stands
  exact ⟨before, text.toList ++ after, by simp [shape], rfl⟩

theorem StandsAt.boundary_behind {line text : String} {column : Nat}
    (stands : StandsAt line column text) : StandsAt line (column + size text) "" := by
  obtain ⟨before, after, shape, rfl⟩ := stands
  exact ⟨before ++ text.toList, after, by simp [shape], by simp [size]⟩

theorem StandsAt.floorColumn_eq {line text : String} {column : Nat}
    (stands : StandsAt line column text) : floorColumn line column = column :=
  (standsAt_iff.mp stands).1

theorem StandsAt.slice_eq {line text : String} {column : Nat}
    (stands : StandsAt line column text) : slice line column (column + size text) = text := by
  obtain ⟨before, after, shape, rfl⟩ := stands
  have upto : byteLength before + size text = byteLength (before ++ text.toList) := by simp [size]
  rw [slice, upto, shape, takeBytes_append, dropBytes_append, String.ofList_toList]

theorem cut_at_boundaries {line : String} {start stop : Nat} (left : StandsAt line start "")
    (right : StandsAt line stop "") (ordered : start ≤ stop) :
    ∃ front middle back, line.toList = front ++ middle ++ back ∧ byteLength front = start ∧
      byteLength front + byteLength middle = stop := by
  obtain ⟨front, back, shape, rfl⟩ := left
  obtain ⟨front', back', shape', rfl⟩ := right
  simp only [String.toList_empty, List.append_nil] at shape shape'
  obtain ⟨middle, rfl, rfl⟩ := cut_of_byteLength_le (shape.symm.trans shape') ordered
  exact ⟨front, middle, back', shape', rfl, by simp⟩

section Splice

variable {line text new : String} {start stop column : Nat}

theorem splice_toList {front middle back : List Char}
    (shape : line.toList = front ++ middle ++ back) :
    (splice line (byteLength front) (byteLength front + byteLength middle) new).toList =
      front ++ new.toList ++ back := by
  have upto : byteLength front + byteLength middle = byteLength (front ++ middle) := by simp
  rw [splice, String.toList_ofList, shape, upto, dropBytes_append, List.append_assoc front,
    takeBytes_append]

theorem size_splice (new : String) (left : StandsAt line start "") (right : StandsAt line stop "")
    (ordered : start ≤ stop) :
    size (splice line start stop new) + stop = size line + start + size new := by
  obtain ⟨front, middle, back, shape, rfl, rfl⟩ := cut_at_boundaries left right ordered
  simp only [size, splice_toList shape, shape, byteLength_append]
  omega

theorem StandsAt.splice_before (stands : StandsAt line column text)
    (left : StandsAt line start "") (right : StandsAt line stop "") (ordered : start ≤ stop)
    (before : column + size text ≤ start) : StandsAt (splice line start stop new) column text := by
  obtain ⟨front, middle, back, shape, rfl, rfl⟩ := cut_at_boundaries left right ordered
  obtain ⟨pre, post, shape', rfl⟩ := stands
  rw [shape, List.append_assoc] at shape'
  obtain ⟨mid, rfl, -⟩ := cut_of_byteLength_le shape'.symm (by simpa [size] using before)
  refine ⟨pre, mid ++ new.toList ++ back, ?_, rfl⟩
  rw [splice_toList shape]
  simp

/-- What stands behind the replaced stretch moves with the end of the new text. -/
theorem StandsAt.splice_behind (stands : StandsAt line column text)
    (left : StandsAt line start "") (right : StandsAt line stop "") (ordered : start ≤ stop)
    (behind : stop ≤ column) :
    StandsAt (splice line start stop new) (column - stop + start + size new) text := by
  obtain ⟨front, middle, back, shape, rfl, rfl⟩ := cut_at_boundaries left right ordered
  obtain ⟨pre, post, shape', rfl⟩ := stands
  rw [shape, List.append_assoc pre] at shape'
  obtain ⟨mid, rfl, rfl⟩ := cut_of_byteLength_le shape' (by simpa using behind)
  refine ⟨front ++ new.toList ++ mid, post, ?_, ?_⟩
  · rw [splice_toList shape]
    simp
  · simp only [byteLength_append, size]
    omega

theorem standsAt_splice (new : String) (left : StandsAt line start "")
    (right : StandsAt line stop "") (ordered : start ≤ stop) :
    StandsAt (splice line start stop new) start new := by
  obtain ⟨front, middle, back, shape, rfl, rfl⟩ := cut_at_boundaries left right ordered
  exact ⟨front, back, splice_toList shape, rfl⟩

end Splice

end SqlFerry.Text
