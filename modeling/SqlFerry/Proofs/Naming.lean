import SqlFerry.Naming
import SqlFerry.Proofs.Text.Column

/-! The names of variables stay words: capitals are neither blank nor a semicolon, in whatever script. -/
namespace SqlFerry

open Text (byteLength isBlank isWordChar upperChar)

namespace Text

/-- A visible character other than the semicolon. -/
def isInk (c : Char) : Bool := !isBlank c && c != ';'

/-- The code points of all other characters. -/
def inklessPoints : List Nat := [
  0x09, 0x0A, 0x0B, 0x0C, 0x0D, 0x20, 0x3B, 0x85, 0xA0, 0x1680, 0x2000, 0x2001, 0x2002, 0x2003, 0x2004,
  0x2005, 0x2006, 0x2007, 0x2008, 0x2009, 0x200A, 0x2028, 0x2029, 0x202F, 0x205F, 0x3000]

theorem isInk_of_not_mem {c : Char} (other : c.toNat ∉ inklessPoints) : isInk c = true := by
  have visible : isBlank c = false := by
    refine Bool.eq_false_iff.mpr fun blank => ?_
    simp only [isBlank, Bool.or_eq_true, Bool.and_eq_true, decide_eq_true_eq, beq_iff_eq] at blank
    simp only [inklessPoints, List.mem_cons, List.not_mem_nil, or_false] at other
    omega
  have noEnd : c ≠ ';' := by
    rintro rfl
    exact other (by decide)
  simp [isInk, visible, noEnd]

theorem isInk_of_isWordChar {c : Char} (isWord : isWordChar c = true) : isInk c = true := by
  refine isInk_of_not_mem fun member => ?_
  have none : ∀ n ∈ inklessPoints, isWordChar (Char.ofNat n) = false := by decide +kernel
  have other := none _ member
  rw [Char.ofNat_toNat, isWord] at other
  cases other

theorem isInk_ofNat {n : Nat} (other : n ∉ inklessPoints) : isInk (Char.ofNat n) = true := by
  refine isInk_of_not_mem ?_
  have isPoint : (Char.ofNat n).toNat = if n.isValidChar then n else 0 := by
    by_cases valid : n.isValidChar
    · rw [Char.ofNat, dif_pos valid, if_pos valid]
      rfl
    · rw [Char.ofNat, dif_neg valid, if_neg valid]
      rfl
  rw [isPoint]
  split
  · exact other
  · decide

theorem isInk_mapCase {runs : List (Nat × Nat × Nat × Nat)} {sequences : List (Nat × List Nat)} {c : Char}
    (inRuns : ∀ run ∈ runs, ∀ n ∈ inklessPoints, n < run.2.2.2 ∨ run.2.2.2 + (run.2.1 - run.1) < n)
    (inSequences : ∀ sequence ∈ sequences, ∀ n ∈ sequence.2, n ∉ inklessPoints) (isInkC : isInk c = true) :
    ∀ d ∈ mapCase runs sequences c, isInk d = true := by
  unfold mapCase
  split
  · next n found =>
    obtain ⟨⟨first, last, step, target⟩, member, mapped⟩ := List.exists_of_findSome?_eq_some found
    rw [CaseRun.ofTuple, CaseRun.map?, Option.ite_none_right_eq_some, Bool.and_eq_true, Bool.and_eq_true,
      decide_eq_true_eq, decide_eq_true_eq] at mapped
    obtain ⟨⟨⟨low, high⟩, -⟩, isTarget⟩ := mapped
    have isTarget := Option.some.inj isTarget
    rw [List.forall_mem_singleton]
    refine isInk_ofNat fun inkless => ?_
    have away := inRuns _ member n inkless
    simp only at low high isTarget away
    omega
  · split
    · next ns found =>
      obtain ⟨front, back, whole, -⟩ := List.lookup_eq_some_iff.mp found
      have member : (c.toNat, ns) ∈ sequences := by rw [whole]; simp
      intro d isD
      obtain ⟨n, isN, rfl⟩ := List.mem_map.mp isD
      exact isInk_ofNat (inSequences _ member n isN)
    · simpa using isInkC

theorem isInk_upperChar {c : Char} (isWord : isWordChar c = true) : ∀ d ∈ upperChar c, isInk d = true := by
  unfold upperChar
  split
  · next ascii =>
    have each : ∀ n < 0x80, isWordChar (Char.ofNat n) = true → isInk (Char.ofNat n).toUpper = true := by
      decide
    have capital := each c.toNat (of_decide_eq_true ascii)
    rw [Char.ofNat_toNat] at capital
    rw [List.forall_mem_singleton]
    exact capital isWord
  · exact isInk_mapCase (by decide +kernel) (by decide +kernel) (isInk_of_isWordChar isWord)

theorem length_upperChar (c : Char) : (upperChar c).length ≤ 3 := by
  have short : ∀ sequence ∈ upperSequences, sequence.2.length ≤ 3 := by decide
  unfold upperChar mapCase
  split
  · simp
  · split
    · simp
    · split
      · next ns found =>
        obtain ⟨front, back, whole, -⟩ := List.lookup_eq_some_iff.mp found
        have member : (c.toNat, ns) ∈ upperSequences := by rw [whole]; simp
        simpa using short _ member
      · simp

theorem byteLength_le (cs : List Char) : byteLength cs ≤ 4 * cs.length := by
  induction cs with
  | nil => simp
  | cons c cs ih =>
    have short := c.utf8Size_le_four
    simp only [byteLength, List.length_cons]
    omega

end Text

def capitalized : List Char → List Char
  | [] => []
  | first :: rest => upperChar first ++ rest

theorem toList_variableName (name : String) : (variableName {} false name).toList =
    '_' :: 'v' :: capitalized (name.toList.dropWhile (· == '@')) := by
  have styles (cs : List Char) : (styled (.ofList cs) .pascal).toList = capitalized cs := by
    cases cs with
    | nil => rfl
    | cons first rest => simp [styled, capitalized]
  simp [variableName, dropMarks, styles]

theorem isInk_variableName {name : String} (isWord : ∀ c ∈ name.toList, isWordChar c = true) :
    ∀ c ∈ (variableName {} false name).toList, Text.isInk c = true := by
  have inBare : ∀ c ∈ name.toList.dropWhile (· == '@'), isWordChar c = true :=
    fun c member => isWord c ((List.dropWhile_sublist _).subset member)
  rw [toList_variableName]
  simp only [List.forall_mem_cons]
  refine ⟨by decide, by decide, ?_⟩
  cases bare : name.toList.dropWhile (· == '@') with
  | nil => simp [capitalized]
  | cons first rest =>
    rw [bare, List.forall_mem_cons] at inBare
    rw [capitalized, List.forall_mem_append]
    exact ⟨Text.isInk_upperChar inBare.1, fun c member => Text.isInk_of_isWordChar (inBare.2 c member)⟩

theorem byteLength_capitalized (cs : List Char) : byteLength (capitalized cs) ≤ byteLength cs + 12 := by
  cases cs with
  | nil => simp [capitalized]
  | cons first rest =>
    have few := Text.length_upperChar first
    have small := Text.byteLength_le (upperChar first)
    rw [capitalized, Text.byteLength_append, byteLength]
    omega

theorem byteLength_variableName (name : String) :
    byteLength (variableName {} false name).toList ≤ byteLength name.toList + 14 := by
  have parts : name.toList.takeWhile (· == '@') ++ name.toList.dropWhile (· == '@') = name.toList :=
    List.takeWhile_append_dropWhile
  have size := congrArg byteLength parts
  have short := byteLength_capitalized (name.toList.dropWhile (· == '@'))
  have front : '_'.utf8Size = 1 ∧ 'v'.utf8Size = 1 := ⟨rfl, rfl⟩
  rw [Text.byteLength_append] at size
  rw [toList_variableName, byteLength, byteLength]
  omega

end SqlFerry
