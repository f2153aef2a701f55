import SqlFerry.Plpgsql.Placeholders

/-! What PL/pgSQL reads in a converted message. Every conversion leaves a single `%` and every escaped
percent sign stays as it is, so a run of them becomes a run of percent signs, which is read in pairs from
its start. The placeholders are those of the message as long as no run has two conversions in it. -/
namespace SqlFerry.Plpgsql

/-- A part of a message of T-SQL: a character, an escaped percent sign `%%` or a conversion. -/
inductive MessagePart where
  | plain (c : Char) (other : c ≠ '%')
  | percent
  | conversion (flags : List Char) (letter : Char) (areFlags : flags.all isConversionFlag = true)
      (isLetter : isConversionLetter letter = true)

namespace MessagePart

def text : MessagePart → List Char
  | plain c _ => [c]
  | percent => ['%', '%']
  | conversion flags letter _ _ => '%' :: (flags ++ [letter])

def isConversion : MessagePart → Bool
  | conversion .. => true
  | _ => false

/-- The parts of a message in which every `%` starts `%%` or a conversion. -/
def spell (parts : List MessagePart) : List Char := parts.flatMap text

end MessagePart

/-- What PL/pgSQL reads in a message. -/
inductive Mark where
  | plain (c : Char)
  | percent
  | placeholder
  deriving DecidableEq, Repr

/-- Reads a message of PL/pgSQL from left to right, where `%%` is a percent sign. -/
def marks : List Char → List Mark
  | [] => []
  | '%' :: '%' :: rest => .percent :: marks rest
  | c :: rest => (if c = '%' then .placeholder else .plain c) :: marks rest

namespace MessagePart

def mark : MessagePart → Mark
  | plain c _ => .plain c
  | percent => .percent
  | conversion .. => .placeholder

/-- The converted message has a placeholder for each conversion, and the text outside of them is kept
in order. -/
def Matched (parts : List MessagePart) : Prop :=
  (marks (placeholders (spell parts))).count .placeholder = parts.countP isConversion ∧
  (marks (placeholders (spell parts))).filter (· ≠ .placeholder) =
    (parts.filter (!·.isConversion)).map mark

/-- Two conversions stand next to each other, or with escaped percent signs only between them. -/
def Crowded (parts : List MessagePart) : Prop :=
  ∃ first last count, first.isConversion = true ∧ last.isConversion = true ∧
    first :: (List.replicate count percent ++ [last]) <:+: parts

section Converted

variable {c : Char} {rest : List Char}

theorem letter_ne_flag (isLetter : isConversionLetter c = true) : isConversionFlag c = false := by
  have letter : c ∈ ['d', 'i', 's', 'u', 'o', 'x', 'X'] := by
    simpa [isConversionLetter] using isLetter
  simp only [List.mem_cons, List.not_mem_nil, or_false] at letter
  rcases letter with rfl | rfl | rfl | rfl | rfl | rfl | rfl <;> decide

theorem percent_ne_flag : isConversionFlag '%' = false := by decide

theorem conversionLength_append {flags : List Char} (areFlags : flags.all isConversionFlag = true)
    (isLetter : isConversionLetter c = true) :
    conversionLength? (flags ++ c :: rest) = some (flags.length + 1) := by
  have ends : (flags ++ c :: rest).takeWhile isConversionFlag = flags := by
    rw [List.takeWhile_append_of_pos (fun x mem => List.all_eq_true.mp areFlags x mem),
      List.takeWhile_cons_of_neg (by simp [letter_ne_flag isLetter]), List.append_nil]
  simp [conversionLength?, ends, isLetter]

theorem placeholders_plain (other : c ≠ '%') : placeholders (c :: rest) = c :: placeholders rest := by
  rw [placeholders.eq_3 _ _ (by simp [other]), if_neg other]

theorem placeholders_conversion {flags : List Char} (areFlags : flags.all isConversionFlag = true)
    (isLetter : isConversionLetter c = true) :
    placeholders ('%' :: (flags ++ c :: rest)) = '%' :: placeholders rest := by
  have single : ∀ tail, flags ++ c :: rest ≠ '%' :: tail := by
    intro tail same
    cases flags with
    | nil => simp_all [isConversionLetter]
    | cons flag flags => simp_all [percent_ne_flag]
  rw [placeholders.eq_3 _ _ (by simpa using single), if_pos rfl,
    conversionLength_append areFlags isLetter]
  simp

def converted : MessagePart → List Char
  | conversion .. => ['%']
  | part => part.text

/-- The conversion of a message goes part by part. -/
theorem placeholders_spell (parts : List MessagePart) :
    placeholders (spell parts) = parts.flatMap converted := by
  induction parts with
  | nil => simp [spell, placeholders]
  | cons part parts ih =>
    rw [spell, List.flatMap_cons, List.flatMap_cons, ← ih, spell]
    cases part with
    | plain c other => exact placeholders_plain other
    | percent => simp [text, converted, placeholders]
    | conversion flags letter areFlags isLetter =>
      simpa [text, converted] using placeholders_conversion areFlags isLetter

end Converted

/-- Two conversions stand in one run, where `isOpen` tells that one is over in the run at the start. -/
def crowds : Bool → List MessagePart → Bool
  | _, [] => false
  | _, plain .. :: parts => crowds false parts
  | isOpen, percent :: parts => crowds isOpen parts
  | isOpen, conversion .. :: parts => isOpen || crowds true parts

/-- The marks of a converted message, where a single percent sign may stand in front of it. -/
def marksBehind (isOpen : Bool) (parts : List MessagePart) : List Mark :=
  marks (bif isOpen then '%' :: parts.flatMap converted else parts.flatMap converted)

def outside (parts : List MessagePart) : List Mark := (parts.filter (!·.isConversion)).map mark

section Marks

variable {isOpen : Bool} {parts : List MessagePart}

theorem marks_single {cs : List Char} (single : cs.head? ≠ some '%') :
    marks ('%' :: cs) = .placeholder :: marks cs := by
  rw [marks.eq_3 _ _ (by rintro tail - rfl; simp at single), if_pos rfl]

theorem marks_plain {c : Char} {cs : List Char} (other : c ≠ '%') :
    marks (c :: cs) = .plain c :: marks cs := by
  rw [marks.eq_3 _ _ (by simp [other]), if_neg other]

theorem marksBehind_plain {c : Char} (other : c ≠ '%') :
    marksBehind isOpen (plain c other :: parts) =
      bif isOpen then .placeholder :: .plain c :: marksBehind false parts
      else .plain c :: marksBehind false parts := by
  cases isOpen
  · exact marks_plain other
  · refine (marks_single (by simpa [converted, text] using other)).trans ?_
    exact congrArg _ (marks_plain other)

theorem marksBehind_percent :
    marksBehind isOpen (percent :: parts) = .percent :: marksBehind isOpen parts := by
  cases isOpen <;> rfl

/-- A conversion opens a pair of percent signs or closes one. -/
theorem marksBehind_conversion {part : MessagePart} (isConversion : part.isConversion = true) :
    marksBehind isOpen (part :: parts) =
      bif isOpen then .percent :: marksBehind false parts else marksBehind true parts := by
  cases part with
  | conversion => cases isOpen <;> rfl
  | _ => cases isConversion

/-- A crowded message loses placeholders, and any other keeps them all and the text around them. -/
theorem marksBehind_counts (isOpen : Bool) (parts : List MessagePart) :
    if crowds isOpen parts then
      (marksBehind isOpen parts).count .placeholder < parts.countP isConversion + isOpen.toNat
    else
      (marksBehind isOpen parts).count .placeholder = parts.countP isConversion + isOpen.toNat ∧
      (marksBehind isOpen parts).filter (· ≠ .placeholder) = outside parts := by
  induction parts generalizing isOpen with
  | nil => cases isOpen <;> simp [crowds, marksBehind, marks, outside]
  | cons part parts ih =>
    cases part with
    | plain c other =>
      have later := ih false
      cases isOpen <;> cases crowds : crowds false parts <;>
        simp_all [MessagePart.crowds, marksBehind_plain, isConversion, outside, mark]
    | percent =>
      have later := ih isOpen
      cases crowds : crowds isOpen parts <;>
        simp_all [MessagePart.crowds, marksBehind_percent, isConversion, outside, mark]
    | conversion flags letter areFlags isLetter =>
      have here : (conversion flags letter areFlags isLetter).isConversion = true := rfl
      cases isOpen with
      | false =>
        have later := ih true
        cases crowds : crowds true parts <;>
          simp_all [MessagePart.crowds, marksBehind_conversion, outside]
      | true =>
        -- the second of two conversions closes the pair that the first has opened
        have later := ih false
        cases crowds : crowds false parts <;> simp_all [MessagePart.crowds, marksBehind_conversion]
        all_goals omega

end Marks

/-- A run of escaped percent signs with a conversion behind it stands at the start. -/
def RunsOn (parts : List MessagePart) : Prop :=
  ∃ last count, last.isConversion = true ∧ List.replicate count percent ++ [last] <+: parts

theorem runsOn_cons {part : MessagePart} {parts : List MessagePart} :
    RunsOn (part :: parts) ↔ part.isConversion = true ∨ part = percent ∧ RunsOn parts := by
  constructor
  · rintro ⟨last, count, isConversion, runs⟩
    cases count with
    | zero =>
      obtain ⟨rfl, -⟩ := List.cons_prefix_cons.mp runs
      exact .inl isConversion
    | succ count =>
      obtain ⟨rfl, later⟩ := List.cons_prefix_cons.mp runs
      exact .inr ⟨rfl, last, count, isConversion, later⟩
  · rintro (isConversion | ⟨rfl, last, count, isConversion, runs⟩)
    · exact ⟨part, 0, isConversion, by simp⟩
    · exact ⟨last, count + 1, isConversion, List.cons_prefix_cons.mpr ⟨rfl, runs⟩⟩

theorem crowded_cons {part : MessagePart} {parts : List MessagePart} :
    Crowded (part :: parts) ↔ part.isConversion = true ∧ RunsOn parts ∨ Crowded parts := by
  constructor
  · rintro ⟨first, last, count, opens, closes, inside⟩
    rcases List.infix_cons_iff.mp inside with atStart | later
    · obtain ⟨rfl, runs⟩ := List.cons_prefix_cons.mp atStart
      exact .inl ⟨opens, last, count, closes, runs⟩
    · exact .inr ⟨first, last, count, opens, closes, later⟩
  · rintro (⟨opens, last, count, closes, runs⟩ | ⟨first, last, count, opens, closes, inside⟩)
    · exact ⟨part, last, count, opens, closes, (List.cons_prefix_cons.mpr ⟨rfl, runs⟩).isInfix⟩
    · exact ⟨first, last, count, opens, closes, List.infix_cons inside⟩

theorem crowds_iff (isOpen : Bool) (parts : List MessagePart) :
    crowds isOpen parts = true ↔ isOpen = true ∧ RunsOn parts ∨ Crowded parts := by
  induction parts generalizing isOpen with
  | nil => simp [crowds, RunsOn, Crowded]
  | cons part parts ih =>
    cases part with
    | plain c other => simp [crowds, ih, runsOn_cons, crowded_cons, isConversion]
    | percent => simp [crowds, ih, runsOn_cons, crowded_cons, isConversion]
    | conversion flags letter areFlags isLetter =>
      simp [crowds, ih, runsOn_cons, crowded_cons, isConversion]

instance (parts : List MessagePart) : Decidable (Crowded parts) :=
  decidable_of_iff (crowds false parts = true) (by simp [crowds_iff])

end MessagePart

open MessagePart

/-- A converted message has the placeholders of its conversions, and the text around them in order, if
and only if no two conversions meet in a run of percent signs. -/
theorem placeholders_matched_iff (parts : List MessagePart) : Matched parts ↔ ¬Crowded parts := by
  have counts := marksBehind_counts false parts
  have crowded := crowds_iff false parts
  simp only [Bool.false_eq_true, false_and, false_or] at crowded
  rw [Matched, placeholders_spell, ← crowded]
  split at counts
  · next crowds =>
    have fewer : (marks (parts.flatMap converted)).count .placeholder < parts.countP isConversion :=
      counts
    simp only [crowds, not_true_eq_false, iff_false, not_and]
    intro same
    omega
  · next apart => exact iff_of_true counts apart

/-- Two conversions next to each other are read as a percent sign. -/
theorem adjacent_conversions_lost :
    placeholders "'%d%d'".toList = "'%%'".toList ∧
    marks "'%%'".toList = [.plain '\'', .percent, .plain '\''] ∧
    ¬Matched [.plain '\'' (by decide), .conversion [] 'd' rfl (by decide),
      .conversion [] 'd' rfl (by decide), .plain '\'' (by decide)] := by
  refine ⟨by decide +kernel, by decide +kernel, ?_⟩
  rw [Matched]
  decide +kernel

end SqlFerry.Plpgsql
