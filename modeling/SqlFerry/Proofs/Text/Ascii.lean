import SqlFerry.Text.Ascii
import SqlFerry.Text.Column

/-! Words in different spellings. Only ASCII letters have two forms, so what holds of a character of ASCII
whatever its case holds of all characters. -/
namespace SqlFerry.Text

theorem of_toLower {α : Type} {f : Char → α} (ascii : ∀ n < 128, f (Char.ofNat n).toLower = f (Char.ofNat n))
    (c : Char) : f c.toLower = f c := by
  by_cases inRange : c.toNat < 128
  · simpa only [Char.ofNat_toNat] using ascii c.toNat inRange
  · have noCapital : ¬ (c.val ≥ 'A'.val ∧ c.val ≤ 'Z'.val) := fun capital =>
      inRange (Nat.lt_of_le_of_lt (UInt32.le_iff_toNat_le.mp capital.2) (by decide))
    have same : c.toLower = c := dif_neg noCapital
    rw [same]

theorem sameWord_congr {a b : String} (same : sameWord a b = true) (c : String) :
    sameWord a c = sameWord b c := by
  simp only [sameWord, beq_iff_eq] at same ⊢
  rw [same]

variable {a b : String}

theorem sameWord_congr_right (same : sameWord a b = true) (c : String) : sameWord c a = sameWord c b := by
  simp only [sameWord, beq_iff_eq] at same ⊢
  rw [same]

theorem sameWord_of_both {text : String} (first : sameWord text a = true) (second : sameWord text b = true) :
    sameWord a b = true := by
  simp only [sameWord, beq_iff_eq] at first second ⊢
  exact first.symm.trans second

theorem all_of_sameWord {p : Char → Bool} (ascii : ∀ n < 128, p (Char.ofNat n).toLower = p (Char.ofNat n))
    (same : sameWord a b = true) (all : b.toList.all p = true) : ∀ c ∈ a.toList, p c = true := by
  have lower (cs : List Char) : (cs.map Char.toLower).all p = cs.all p := by
    simp only [List.all_map, Function.comp_def, of_toLower ascii]
  rw [← List.all_eq_true, ← lower, beq_iff_eq.mp same, lower, all]

theorem byteLength_of_sameWord (same : sameWord a b = true) : byteLength a.toList = byteLength b.toList := by
  have lower (cs : List Char) : byteLength (cs.map Char.toLower) = byteLength cs := by
    induction cs with
    | nil => rfl
    | cons c cs ih =>
      have size : c.toLower.utf8Size = c.utf8Size := of_toLower (by decide) c
      rw [List.map_cons, byteLength, byteLength, ih, size]
  rw [← lower, beq_iff_eq.mp same, lower]

end SqlFerry.Text
