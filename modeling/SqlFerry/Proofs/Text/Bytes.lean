import SqlFerry.Proofs.Text.Column

/-! The bytes of a line. A line is held as UTF-8, and its bytes may be cut only between two boundaries of
characters. Here a range of bytes is taken out or replaced on the bytes themselves, and the attempt fails if
the range is out of order, leaves the line, begins or ends inside a character, or if what comes out is no
UTF-8. Between boundaries the bytes are those of the characters that `slice` and `splice` count. -/
namespace SqlFerry.Text

/-- A range of bytes that can be cut out of a line. -/
structure Cuttable (line : String) (start stop : Nat) : Prop where
  ordered : start ≤ stop
  inside : stop ≤ line.utf8ByteSize
  startsWhole : (String.Pos.Raw.mk start).IsValid line
  stopsWhole : (String.Pos.Raw.mk stop).IsValid line

theorem cuttable_iff {line : String} {start stop : Nat} : Cuttable line start stop ↔
    start ≤ stop ∧ stop ≤ line.utf8ByteSize ∧ (String.Pos.Raw.mk start).IsValid line ∧
      (String.Pos.Raw.mk stop).IsValid line :=
  ⟨fun ⟨a, b, c, d⟩ => ⟨a, b, c, d⟩, fun ⟨a, b, c, d⟩ => ⟨a, b, c, d⟩⟩

instance (line : String) (start stop : Nat) : Decidable (Cuttable line start stop) :=
  decidable_of_iff _ cuttable_iff.symm

def slice? (line : String) (start stop : Nat) : Option String :=
  if Cuttable line start stop then String.fromUTF8? (line.toByteArray.extract start stop) else none

/-- The bytes from one column to another as a text, which is empty if the columns are not in order. -/
def between? (line : String) (left right : Nat) : Option String :=
  if left < right then slice? line left right else some ""

def splice? (line : String) (start stop : Nat) (text : String) : Option String :=
  if Cuttable line start stop then
    String.fromUTF8? (line.toByteArray.extract 0 start ++ text.toByteArray ++
      line.toByteArray.extract stop line.utf8ByteSize)
  else none

section Encoding

theorem size_utf8Encode (cs : List Char) : cs.utf8Encode.size = byteLength cs := by
  induction cs with
  | nil => rfl
  | cons c cs ih =>
    rw [List.utf8Encode_cons, ByteArray.size_append, ih, byteLength]
    simp [List.utf8Encode_singleton]

theorem utf8ByteSize_eq_size (line : String) : line.utf8ByteSize = size line := by
  rw [← String.size_toByteArray, ← String.utf8Encode_toList, size_utf8Encode, size]

theorem fromUTF8?_utf8Encode (cs : List Char) : String.fromUTF8? cs.utf8Encode = some (.ofList cs) := by
  rw [String.fromUTF8?, dif_pos ByteArray.isValidUTF8_utf8Encode]
  rfl

/-- The valid positions of a line are its boundaries. -/
theorem isValid_iff_standsAt {line : String} {column : Nat} :
    (String.Pos.Raw.mk column).IsValid line ↔ StandsAt line column "" := by
  rw [String.Pos.Raw.isValid_iff_exists_append]
  constructor
  · rintro ⟨front, back, rfl, isColumn⟩
    have bytes : column = front.utf8ByteSize := congrArg String.Pos.Raw.byteIdx isColumn
    exact ⟨front.toList, back.toList, by simp, by rw [bytes, utf8ByteSize_eq_size, size]⟩
  · rintro ⟨front, back, shape, rfl⟩
    refine ⟨.ofList front, .ofList back, ?_, ?_⟩
    · apply String.toList_injective
      simpa using shape
    · apply String.Pos.Raw.ext
      rw [String.byteIdx_rawEndPos, utf8ByteSize_eq_size, size_ofList]

end Encoding

section Shape

variable {line : String} {front middle back : List Char} (shape : line.toList = front ++ middle ++ back)

include shape

theorem extract_toByteArray :
    line.toByteArray.extract (byteLength front) (byteLength front + byteLength middle) = middle.utf8Encode := by
  rw [← String.utf8Encode_toList, shape, List.append_assoc, List.utf8Encode_append, List.utf8Encode_append]
  have skipped := @ByteArray.extract_append_size_add' front.utf8Encode (middle.utf8Encode ++ back.utf8Encode)
    0 (byteLength middle) _ (size_utf8Encode front).symm
  rw [Nat.add_zero] at skipped
  rw [skipped]
  exact ByteArray.extract_append_eq_left (size_utf8Encode middle).symm

theorem cuttable_of_shape : Cuttable line (byteLength front) (byteLength front + byteLength middle) where
  ordered := Nat.le_add_right _ _
  inside := by
    rw [utf8ByteSize_eq_size, size, shape, byteLength_append, byteLength_append]
    exact Nat.le_add_right _ _
  startsWhole := isValid_iff_standsAt.mpr ⟨front, middle ++ back, by simp [shape], rfl⟩
  stopsWhole := isValid_iff_standsAt.mpr ⟨front ++ middle, back, by simp [shape], by simp⟩

theorem slice?_of_shape :
    slice? line (byteLength front) (byteLength front + byteLength middle) = some (.ofList middle) := by
  rw [slice?, if_pos (cuttable_of_shape shape), extract_toByteArray shape, fromUTF8?_utf8Encode]

theorem splice?_of_shape (text : String) :
    splice? line (byteLength front) (byteLength front + byteLength middle) text =
      some (.ofList (front ++ text.toList ++ back)) := by
  have before : line.toByteArray.extract 0 (byteLength front) = front.utf8Encode := by
    have cut := @extract_toByteArray line [] front (middle ++ back) (by simpa using shape)
    rwa [byteLength_nil, Nat.zero_add] at cut
  have behind : line.toByteArray.extract (byteLength front + byteLength middle) line.utf8ByteSize =
      back.utf8Encode := by
    have cut := @extract_toByteArray line (front ++ middle) back [] (by simpa using shape)
    have whole : line.utf8ByteSize = byteLength (front ++ middle) + byteLength back := by
      rw [utf8ByteSize_eq_size, size, shape, byteLength_append]
    rwa [← whole, byteLength_append] at cut
  rw [splice?, if_pos (cuttable_of_shape shape), before, behind, ← String.utf8Encode_toList,
    ← List.utf8Encode_append, ← List.utf8Encode_append, fromUTF8?_utf8Encode]

end Shape

section Halves

variable {line : String} {front back : List Char} (shape : line.toList = front ++ back)

include shape

theorem slice?_front : slice? line 0 (byteLength front) = some (.ofList front) := by
  have cut := @slice?_of_shape line [] front back shape
  rwa [byteLength_nil, Nat.zero_add] at cut

theorem slice?_back : slice? line (byteLength front) (size line) = some (.ofList back) := by
  have cut := @slice?_of_shape line front back [] (by simpa using shape)
  rwa [← byteLength_append, ← shape] at cut

end Halves

section Boundaries

variable {line : String} {start stop : Nat} (left : StandsAt line start "") (right : StandsAt line stop "")

include left right

theorem slice?_eq (ordered : start ≤ stop) : slice? line start stop = some (slice line start stop) := by
  obtain ⟨front, middle, back, shape, rfl, rfl⟩ := cut_at_boundaries left right ordered
  have stands : StandsAt line (byteLength front) (.ofList middle) := ⟨front, back, by simpa using shape, rfl⟩
  have cut := stands.slice_eq
  rw [size_ofList] at cut
  rw [slice?_of_shape shape, cut]

example : slice? "aé" 0 2 = none := by decide

theorem between?_eq : between? line start stop = some (if start < stop then slice line start stop else "") := by
  rw [between?]
  split
  · next ordered => exact slice?_eq left right (Nat.le_of_lt ordered)
  · rfl

theorem splice?_eq (ordered : start ≤ stop) (text : String) :
    splice? line start stop text = some (splice line start stop text) := by
  obtain ⟨front, middle, back, shape, rfl, rfl⟩ := cut_at_boundaries left right ordered
  rw [splice?_of_shape shape, ← splice_toList shape, String.ofList_toList]

end Boundaries

end SqlFerry.Text
