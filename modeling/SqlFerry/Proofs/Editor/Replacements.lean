import SqlFerry.Proofs.Editor.Patchwork
import SqlFerry.Proofs.Editor.Survival

/-! Replacing tokens of a line, each of them once. Every order of the replacements records other
shifts, but the line is the same row of patches in the end: a replacement turns the one patch that
shows its token into a patch with the new text, and covers as much of the unedited line as before.
No other patch is made or moved, so it does not matter which of them have been turned already. -/
namespace SqlFerry

open Patch
open Text (byteLength StandsAt)

variable {κ : Type}

/-- A token of a line with the text that is to take its place, if one is. -/
structure Slot (κ : Type) where
  token : Token κ
  new : Option String

namespace Slot

def final (s : Slot κ) : String := s.new.getD s.token.text

def stop (s : Slot κ) : Nat := s.token.column + s.token.size

def replacements (slots : List (Slot κ)) : List (Token κ × String) :=
  slots.filterMap fun s => s.new.map (s.token, ·)

end Slot

/-- The rest of a line from a column on, with the final texts in the place of its tokens. -/
def substituted (text : String) : Nat → List (Slot κ) → String
  | column, [] => .ofList (Text.dropBytes column text.toList)
  | column, s :: rest =>
    Text.slice text column s.token.column ++ s.final ++ substituted text s.stop rest

/-- Tokens of a line from left to right, none of them empty. -/
structure SlotsOf (number : Nat) (text : String) (slots : List (Slot κ)) : Prop where
  starts : ∀ s ∈ slots, s.token.line = number
  stops : ∀ s ∈ slots, s.token.stop.line = number
  stands : ∀ s ∈ slots, StandsAt text s.token.column s.token.text
  visible : ∀ s ∈ slots, s.token.text ≠ ""
  apart : slots.Pairwise fun s t => s.stop ≤ t.token.column

/-- A slot with the text between it and the one before. -/
structure Place (κ : Type) where
  gap : List Char
  slot : Slot κ
  /-- The replacement has been made. -/
  done : Bool

namespace Place

/-- How the line shows the slot. -/
def patch (p : Place κ) : Patch :=
  match p.done, p.slot.new with
  | true, some new => made p.slot.token.size new.toList
  | _, _ => kept p.slot.token.text.toList

def patches (places : List (Place κ)) : List Patch := places.flatMap fun p => [kept p.gap, p.patch]

def pending (places : List (Place κ)) : List (Token κ × String) :=
  places.filterMap fun p => if p.done then none else p.slot.new.map (p.slot.token, ·)

/-- The places follow one another from a column on. -/
def Aligned : Nat → List (Place κ) → Prop
  | _, [] => True
  | column, p :: rest => p.slot.token.column = column + byteLength p.gap ∧ Aligned p.slot.stop rest

theorem width_patch (p : Place κ) : p.patch.width = p.slot.token.size := by
  unfold patch
  split <;> rfl

theorem pending_append (front back : List (Place κ)) :
    pending (front ++ back) = pending front ++ pending back := List.filterMap_append

theorem Aligned.column {column : Nat} {front back : List (Place κ)} {p : Place κ}
    (aligned : Aligned column (front ++ p :: back)) :
    p.slot.token.column = column + widthOf (patches front) + byteLength p.gap := by
  induction front generalizing column with
  | nil => simpa [patches] using aligned.1
  | cons q front ih =>
    have later := ih aligned.2
    have first := aligned.1
    simp only [patches, List.flatMap_cons, widthOf_append, widthOf_cons, widthOf_nil, width_kept,
      width_patch] at later ⊢
    rw [Slot.stop] at later
    omega

/-- Being done does not matter to where the places are. -/
theorem Aligned.mark {column : Nat} {front back : List (Place κ)} {p : Place κ}
    (aligned : Aligned column (front ++ p :: back)) (done : Bool) :
    Aligned column (front ++ { p with done } :: back) := by
  induction front generalizing column with
  | nil => exact aligned
  | cons q front ih => exact ⟨aligned.1, ih aligned.2⟩

/-- The bytes that a place needs at most, whether its replacement has been made or not. -/
def room (p : Place κ) : Nat :=
  byteLength p.gap + p.slot.token.size + Text.size (p.slot.new.getD "")

def roomOf (places : List (Place κ)) : Nat := (places.map room).sum

theorem roomOf_cons (p : Place κ) (places : List (Place κ)) :
    roomOf (p :: places) = p.room + roomOf places := by simp [roomOf]

theorem roomOf_append (front back : List (Place κ)) :
    roomOf (front ++ back) = roomOf front + roomOf back := by simp [roomOf]

theorem byteLength_patches_le (places : List (Place κ)) :
    byteLength (textOf (patches places)) ≤ roomOf places := by
  induction places with
  | nil => exact Nat.le_refl _
  | cons p places ih =>
    have shown : byteLength p.patch.text ≤ p.slot.token.size + Text.size (p.slot.new.getD "") := by
      unfold patch
      split
      · next isNew => simp [isNew, Text.size]
      · exact Nat.le_add_right _ _
    rw [patches] at ih
    simp only [patches, roomOf_cons, room, List.flatMap_cons, textOf_append, textOf_cons, textOf_nil,
      text_kept, Text.byteLength_append, Text.byteLength_nil]
    omega

section Step

variable {l : Line} {front back : List (Place κ)} {p : Place κ} {tail : List Char} {new : String}

theorem replace (patched : Patchwork l (patches (front ++ p :: back) ++ [kept tail]))
    (aligned : Aligned 0 (front ++ p :: back)) (unmade : p.done = false)
    (isNew : p.slot.new = some new) (visible : p.slot.token.text ≠ "")
    (fits : roomOf (front ++ p :: back) + byteLength tail ≤ columnLimit) :
    Patchwork (l.replace p.slot.token.column p.slot.token.size new false)
      (patches (front ++ { p with done := true } :: back) ++ [kept tail]) := by
  have before : p.patch = kept p.slot.token.text.toList := by simp [patch, unmade]
  have after : ({ p with done := true } : Place κ).patch = made p.slot.token.size new.toList := by
    simp [patch, isNew]
  have start : p.slot.token.column = widthOf (patches front ++ [kept p.gap]) := by
    rw [aligned.column]
    simp
  have cut : patches (front ++ p :: back) ++ [kept tail] =
      (patches front ++ [kept p.gap]) ++ [] ++ [kept p.slot.token.text.toList] ++
        (patches back ++ [kept tail]) := by
    simp [patches, before]
  have roomFront := byteLength_patches_le front
  have roomBack := byteLength_patches_le back
  have replaced := @Patchwork.replace l (patches front ++ [kept p.gap]) []
    [kept p.slot.token.text.toList] (patches back ++ [kept tail]) new (cut ▸ patched)
    (by simpa using visible) (by
      simp only [roomOf_append, roomOf_cons, room, isNew, Option.getD_some] at fits
      simp only [textOf_append, textOf_cons, textOf_nil, text_kept, Text.byteLength_append,
        Text.byteLength_nil]
      omega)
  rw [start]
  simpa [patches, after, Token.size, Text.size] using replaced

end Step

/-- Where nothing is pending the line shows the final texts. -/
theorem textOf_patches {places : List (Place κ)} (finished : pending places = []) :
    textOf (patches places) = places.flatMap fun p => p.gap ++ p.slot.final.toList := by
  induction places with
  | nil => rfl
  | cons p places ih =>
    obtain ⟨here, later⟩ : (if p.done then none else p.slot.new.map (p.slot.token, ·)) = none ∧
        pending places = [] := by
      cases first : (if p.done then none else p.slot.new.map (p.slot.token, ·)) with
      | none => exact ⟨rfl, by simpa [pending, first] using finished⟩
      | some edit => simp [pending, first] at finished
    have shown : p.patch.text = p.slot.final.toList := by
      unfold patch
      split
      · next isNew => simp [Slot.final, isNew]
      · next other =>
        cases done : p.done <;> cases new : p.slot.new <;> simp_all [Slot.final]
    rw [patches] at ih
    simp [patches, shown, ih later]

/-- Every order of the pending replacements ends with all of them made. -/
theorem forM_replace [ToString κ] {number : Nat} {text : String} {tail : List Char} {e : Editor}
    {l : Line} (order : List (Token κ × String)) {places : List (Place κ)}
    (complete : order.Perm (pending places)) (present : row? e.lines number = some l)
    (patched : Patchwork l (patches places ++ [kept tail])) (aligned : Aligned 0 places)
    (laid : SlotsOf number text (places.map (·.slot)))
    (fits : roomOf places + byteLength tail ≤ columnLimit) :
    ∃ l' : Line, (order.forM fun (token, new) => Edit.replaceToken token new).run e =
        .ok () (e.setLine number l') ∧
      l'.text.toList = (places.flatMap fun p => p.gap ++ p.slot.final.toList) ++ tail := by
  induction order generalizing places e l with
  | nil =>
    refine ⟨l, ?_, ?_⟩
    · rw [Editor.setLine_of_row? present]
      rfl
    · rw [patched.text, textOf_append, textOf_patches (List.nil_perm.mp complete)]
      simp
  | cons edit order ih =>
    obtain ⟨token, new⟩ := edit
    have member : (token, new) ∈ pending places := complete.subset List.mem_cons_self
    obtain ⟨p, inside, isPending⟩ := List.mem_filterMap.mp member
    obtain ⟨front, back, rfl⟩ := List.append_of_mem inside
    have isSlot : p.slot ∈ (front ++ p :: back).map (·.slot) := List.mem_map_of_mem inside
    have unmade : p.done = false := by
      cases done : p.done with
      | false => rfl
      | true => simp [done] at isPending
    have isEdit : p.slot.new.map (p.slot.token, ·) = some (token, new) := by
      simpa [unmade] using isPending
    obtain ⟨text, isNew, same⟩ := Option.map_eq_some_iff.mp isEdit
    obtain ⟨rfl, rfl⟩ := Prod.mk.inj same
    have fewer : order.Perm (pending (front ++ { p with done := true } :: back)) := by
      have whole : pending (front ++ p :: back) =
          pending front ++ (p.slot.token, text) :: pending back := by
        rw [pending_append]
        simp [pending, unmade, isNew]
      have rest : pending (front ++ { p with done := true } :: back) =
          pending front ++ pending back := by
        rw [pending_append]
        simp [pending]
      rw [whole] at complete
      rw [rest]
      exact (complete.trans List.perm_middle).cons_inv
    have step : (Edit.replaceToken p.slot.token text).run e = .ok () (e.setLine number
        (l.replace p.slot.token.column p.slot.token.size text false)) := by
      rw [Edit.replaceToken, laid.stops _ isSlot, laid.starts _ isSlot, if_pos rfl,
        Edit.replace_run present]
    obtain ⟨l', ran, final⟩ := ih fewer (Editor.row?_setLine present _)
      (replace patched aligned unmade isNew (laid.visible _ isSlot) fits) (aligned.mark true)
      (by simpa using laid) (by simpa [roomOf, room] using fits)
    refine ⟨l', ?_, by simpa using final⟩
    change ((Edit.replaceToken p.slot.token text) >>= fun _ => order.forM _).run e = _
    rw [EStateM.run_bind, step]
    simpa using ran

end Place

theorem places_of_slots {text : String} {before cs : List Char} {slots : List (Slot κ)}
    (whole : text.toList = before ++ cs)
    (stands : ∀ s ∈ slots, StandsAt text s.token.column s.token.text)
    (apart : slots.Pairwise fun s t => s.stop ≤ t.token.column)
    (behind : ∀ s ∈ slots, byteLength before ≤ s.token.column) :
    ∃ (places : List (Place κ)) (tail : List Char), places.map (·.slot) = slots ∧
      (∀ p ∈ places, p.done = false) ∧ Place.Aligned (byteLength before) places ∧
      cs = (places.flatMap fun p => p.gap ++ p.slot.token.text.toList) ++ tail ∧
      (substituted text (byteLength before) slots).toList =
        (places.flatMap fun p => p.gap ++ p.slot.final.toList) ++ tail := by
  induction slots generalizing before cs with
  | nil =>
    refine ⟨[], cs, rfl, by simp, trivial, rfl, ?_⟩
    rw [substituted, String.toList_ofList, whole, Text.dropBytes_append]
    rfl
  | cons s slots ih =>
    rw [List.forall_mem_cons] at stands behind
    obtain ⟨fromFirst, apart⟩ := List.pairwise_cons.mp apart
    obtain ⟨front, back, shape, column⟩ := stands.1
    have cut : before ++ cs = front ++ (s.token.text.toList ++ back) := by
      rw [← whole, shape, List.append_assoc]
    obtain ⟨gap, rfl, rfl⟩ := Text.cut_of_byteLength_le cut (column ▸ behind.1)
    have stop : byteLength (before ++ gap ++ s.token.text.toList) = s.stop := by
      rw [Text.byteLength_append, column, Slot.stop, Token.size, Text.size]
    have inGap : Text.slice text (byteLength before) s.token.column = .ofList gap := by
      have standsGap : StandsAt text (byteLength before) (.ofList gap) :=
        ⟨before, s.token.text.toList ++ back, by rw [shape]; simp, rfl⟩
      have slice := standsGap.slice_eq
      rwa [Text.size_ofList, ← Text.byteLength_append, column] at slice
    obtain ⟨places, tail, isSlots, undone, aligned, rfl, final⟩ := ih shape stands.2 apart
      (fun t member => stop ▸ fromFirst t member)
    rw [stop] at aligned final
    refine ⟨⟨gap, s, false⟩ :: places, tail, by simp [isSlots], by simpa using undone,
      ⟨by rw [← column, Text.byteLength_append], aligned⟩, by simp, ?_⟩
    rw [substituted, inGap]
    simp [final]

theorem Place.coarsens_patches {places : List (Place κ)} (undone : ∀ p ∈ places, p.done = false)
    (tail : List Char) : Coarsens (patches places ++ [kept tail])
      [kept ((places.flatMap fun p => p.gap ++ p.slot.token.text.toList) ++ tail)] := by
  induction places with
  | nil => exact .refl _
  | cons p places ih =>
    rw [List.forall_mem_cons] at undone
    have shown : p.patch = kept p.slot.token.text.toList := by simp [patch, undone.1]
    have joined := ((Coarsens.refl [kept p.gap, kept p.slot.token.text.toList]).append
      (ih undone.2)).trans (coarsens_cuts [p.gap, p.slot.token.text.toList, _])
    simpa [patches, shown] using joined

theorem Place.pending_eq {places : List (Place κ)} (undone : ∀ p ∈ places, p.done = false) :
    pending places = Slot.replacements (places.map (·.slot)) := by
  induction places with
  | nil => rfl
  | cons p places ih =>
    rw [List.forall_mem_cons] at undone
    have rest := ih undone.2
    simp only [pending, Slot.replacements] at rest ⊢
    simp [List.filterMap_cons, undone.1, rest]

/-- What the places need at most is what the line and the final line have together. -/
theorem Place.roomOf_le (places : List (Place κ)) (tail : List Char) :
    roomOf places + byteLength tail ≤
      byteLength ((places.flatMap fun p => p.gap ++ p.slot.token.text.toList) ++ tail) +
      byteLength ((places.flatMap fun p => p.gap ++ p.slot.final.toList) ++ tail) := by
  induction places with
  | nil => simp [roomOf]
  | cons p places ih =>
    have new : Text.size (p.slot.new.getD "") ≤ byteLength p.slot.final.toList := by
      cases isNew : p.slot.new <;> simp [Slot.final, isNew, Text.size]
    simp only [roomOf_cons, room, List.flatMap_cons, Text.byteLength_append, Token.size,
      Text.size] at ih new ⊢
    omega

/-- However some tokens of a line are replaced one after the other, the line ends up with the new
texts in their places and all else as it was. -/
theorem replacements_confluent [ToString κ] (e : Editor) (number : Nat) (text : String)
    (slots : List (Slot κ)) (fresh : row? e.lines number = some { text })
    (laid : SlotsOf number text slots) (held : Text.size text ≤ textLimit)
    (heldFinal : Text.size (substituted text 0 slots) ≤ textLimit) :
    ∃ final : Buffer, final.lines = setRow e.texts number (substituted text 0 slots) ∧
      ∀ order : List (Token κ × String), order.Perm (Slot.replacements slots) →
        ∃ e', (order.forM fun (token, new) => Edit.replaceToken token new false).run e =
          .ok () e' ∧ e'.buffer = final := by
  refine ⟨⟨_⟩, rfl, fun order complete => ?_⟩
  obtain ⟨places, tail, rfl, undone, aligned, cut, final⟩ :=
    @places_of_slots _ text [] text.toList slots rfl laid.stands laid.apart fun _ _ => Nat.zero_le _
  have room := Place.roomOf_le places tail
  change (substituted text 0 _).toList = _ at final
  rw [← cut, ← final] at room
  have limits : textLimit + textLimit ≤ columnLimit := by decide
  have start : Patchwork { text } (Place.patches places ++ [kept tail]) := by
    have whole := @Patchwork.ofText text (Nat.le_trans held (by decide))
    rw [cut] at whole
    exact whole.coarsen (Place.coarsens_patches undone tail)
  rw [← Place.pending_eq undone] at complete
  obtain ⟨l, ran, isFinal⟩ := Place.forM_replace order complete fresh start aligned laid
    (by simp only [Text.size] at held heldFinal; omega)
  have shown : l.text = substituted text 0 (places.map (·.slot)) :=
    String.toList_injective (isFinal.trans final.symm)
  exact ⟨_, ran, by rw [← shown]; rfl⟩

/-- The tokens of `a=(b)`, without a gap between them, and what is to become of them. -/
def adjacentSlots : List (Slot String) := [
  ⟨⟨"name", "a", 1, 0⟩, some ""⟩, ⟨⟨"sign", "=", 1, 1⟩, some "is "⟩, ⟨⟨"sign", "(", 1, 2⟩, some ""⟩,
  ⟨⟨"name", "b", 1, 3⟩, none⟩, ⟨⟨"sign", ")", 1, 4⟩, some "!"⟩]

theorem adjacent_replacements_confluent : ∃ final : Buffer, final.lines = ["is b!"] ∧
    ∀ order : List (Token String × String), order.Perm (Slot.replacements adjacentSlots) →
      ∃ e', (order.forM fun (token, new) => Edit.replaceToken token new false).run
        (.ofLines ["a=(b)"]) = .ok () e' ∧ e'.buffer = final := by
  obtain ⟨final, isFinal, every⟩ := replacements_confluent (.ofLines ["a=(b)"]) 1 "a=(b)"
    adjacentSlots rfl ⟨by decide, by decide, by decide, by decide, by decide⟩ (by decide) (by decide)
  exact ⟨final, isFinal.trans (by decide), every⟩

end SqlFerry
