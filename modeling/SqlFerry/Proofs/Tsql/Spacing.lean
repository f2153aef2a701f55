import Mathlib.Logic.Basic
import SqlFerry.Proofs.Tsql.Lexer

/-! Tokens with gaps between them. Where a token ends is decided by its own characters and by the
first character behind it, which cannot belong to it. A character of a gap belongs to no token, and a
parenthesis, comma or semicolon to no other token, so a token that is cut out of its text and set before
one of them is read again as it was. -/
namespace SqlFerry.Tsql

open Text

/-- Characters that end the token in front of them. -/
def endsToken (c : Char) : Bool := isGapChar c || c == '(' || c == ')' || c == ',' || c == ';'

/-- What can be set behind any token: nothing, or what starts with a character that ends it. -/
def Apart (rest : List Char) : Prop := ∀ c ∈ rest.head?, endsToken c = true

theorem apart_nil : Apart [] := by simp [Apart]

theorem apart_cons {c : Char} {cs : List Char} (ends : endsToken c = true) : Apart (c :: cs) := by
  simpa [Apart] using ends

/-- A test that no character passes which ends tokens. -/
def Refuses (p : Char → Bool) : Prop := ∀ c, endsToken c = true → p c = false

theorem refuses_iff {p : Char → Bool} :
    Refuses p ↔
      ([' ', '\t', '\r', '\n', '\ufeff', '(', ')', ',', ';'].all fun c => !p c) = true := by
  simp [Refuses, endsToken, isGapChar, or_imp, forall_and, and_assoc]

theorem refuses_isWordChar : Refuses isWordChar := refuses_iff.mpr (by decide +kernel)

theorem refuses_isDigit : Refuses Char.isDigit := refuses_iff.mpr (by decide)

theorem refuses_isHexDigit : Refuses isHexDigit := refuses_iff.mpr (by decide)

theorem refuses_beq {c : Char} (other : endsToken c = false) : Refuses (· == c) := by
  intro d ends
  have different : d ≠ c := by rintro rfl; simp [ends] at other
  simpa using different

theorem Apart.head?_any {p : Char → Bool} {rest : List Char} (apart : Apart rest)
    (refuses : Refuses p) : rest.head?.any p = false := by
  cases rest with
  | nil => rfl
  | cons c cs => exact refuses c (apart c rfl)

/-- The second text is the first one up to a place behind `n` characters or more, and goes on there with
what ends tokens. -/
def Agree (n : Nat) (cs cs' : List Char) : Prop :=
  ∃ common rest rest', cs = common ++ rest ∧ cs' = common ++ rest' ∧ n ≤ common.length ∧ Apart rest'

namespace Agree

variable {n : Nat} {c : Char} {cs cs' : List Char} {p : Char → Bool}

theorem weaken {m : Nat} (agree : Agree n cs cs') (shorter : m ≤ n) : Agree m cs cs' := by
  obtain ⟨common, rest, rest', start, start', enough, apart⟩ := agree
  exact ⟨common, rest, rest', start, start', Nat.le_trans shorter enough, apart⟩

/-- Behind its first `n` characters a text may be cut off. -/
theorem cut {rest : List Char} (apart : Apart rest) (enough : n ≤ cs.length) : Agree n cs (cs.take n ++ rest) :=
  ⟨cs.take n, cs.drop n, rest, (List.take_append_drop n cs).symm, rfl, by simp [enough], apart⟩

theorem uncons (agree : Agree (n + 1) (c :: cs) cs') : ∃ more, cs' = c :: more ∧ Agree n cs more := by
  obtain ⟨common, rest, rest', start, rfl, enough, apart⟩ := agree
  cases common with
  | nil => simp at enough
  | cons d common =>
    obtain ⟨rfl, rfl⟩ := List.cons.inj start
    exact ⟨common ++ rest', rfl, common, rest, rest', rfl, rfl, Nat.le_of_succ_le_succ enough, apart⟩

theorem drop (agree : Agree n cs cs') {m : Nat} (shorter : m ≤ n) : Agree (n - m) (cs.drop m) (cs'.drop m) := by
  obtain ⟨common, rest, rest', rfl, rfl, enough, apart⟩ := agree
  refine ⟨common.drop m, rest, rest', ?_, ?_, by simp; omega, apart⟩
  · rw [List.drop_append_of_le_length (by omega)]
  · rw [List.drop_append_of_le_length (by omega)]

theorem take (agree : Agree n cs cs') : cs'.take n = cs.take n := by
  obtain ⟨common, rest, rest', rfl, rfl, enough, -⟩ := agree
  rw [List.take_append_of_le_length enough, List.take_append_of_le_length enough]

theorem head? (agree : Agree (n + 1) cs cs') : cs'.head? = cs.head? := by
  obtain ⟨common, rest, rest', rfl, rfl, enough, -⟩ := agree
  cases common with
  | nil => simp at enough
  | cons c common => rfl

theorem tail (agree : Agree (n + 1) cs cs') : Agree n cs.tail cs'.tail := by
  have behind := agree.drop (Nat.le_add_left 1 n)
  rwa [List.drop_one, List.drop_one, Nat.add_sub_cancel] at behind

theorem head?_fails (agree : Agree n cs cs') (refuses : Refuses p) (fails : cs.head?.any p = false) :
    cs'.head?.any p = false := by
  obtain ⟨common, rest, rest', rfl, rfl, -, apart⟩ := agree
  cases common with
  | nil => exact apart.head?_any refuses
  | cons c common => simpa using fails

theorem test_fails (agree : Agree n cs cs') (refuses : Refuses p) {first : Bool}
    (test : ¬ (first && cs.head?.any p) = true) : ¬ (first && cs'.head?.any p) = true := by
  cases first with
  | false => simp
  | true => simpa using agree.head?_fails refuses (by simpa using test)

end Agree

/-- The text has `n` characters or more, and what is true of texts that agree with it on them. -/
def Keeps (n : Nat) (cs : List Char) (P : List Char → Prop) : Prop :=
  n ≤ cs.length ∧ ∀ cs', Agree n cs cs' → P cs'

theorem Keeps.imp {n : Nat} {cs : List Char} {P Q : List Char → Prop} (keeps : Keeps n cs P)
    (turns : ∀ cs', Agree n cs cs' → P cs' → Q cs') : Keeps n cs Q :=
  ⟨keeps.1, fun cs' agree => turns cs' agree (keeps.2 cs' agree)⟩

/-- A length that is decided by the characters counted and by those which follow. -/
def Settled (length : List Char → Nat) : Prop :=
  ∀ cs, Keeps (length cs) cs fun cs' => length cs' = length cs

theorem runLength_le (p : Char → Bool) (cs : List Char) : runLength p cs ≤ cs.length :=
  (List.takeWhile_prefix p).length_le

theorem runLength_cons_pos {p : Char → Bool} {c : Char} (passes : p c = true) (cs : List Char) :
    runLength p (c :: cs) = runLength p cs + 1 := by
  simp [runLength, passes]

theorem runLength_eq_zero {p : Char → Bool} {cs : List Char} (fails : cs.head?.any p = false) :
    runLength p cs = 0 := by
  cases cs with
  | nil => rfl
  | cons c cs =>
    have fails : p c = false := fails
    simp [runLength, fails]

theorem settled_runLength {p : Char → Bool} (refuses : Refuses p) : Settled (runLength p) := by
  refine fun cs => ⟨runLength_le p cs, fun cs' agree => ?_⟩
  induction cs generalizing cs' with
  | nil => exact runLength_eq_zero (agree.head?_fails refuses rfl)
  | cons c cs ih =>
    by_cases passes : p c = true
    · rw [runLength_cons_pos passes] at agree ⊢
      obtain ⟨more, rfl, behind⟩ := agree.uncons
      rw [runLength_cons_pos passes, ih more behind]
    · have fails : (c :: cs).head?.any p = false := by simpa using passes
      rw [runLength_eq_zero fails, runLength_eq_zero (agree.head?_fails refuses fails)]

/-- The length of a run with something behind it that has a length of its own. -/
def runThen (p : Char → Bool) (length : List Char → Nat) (cs : List Char) : Nat :=
  runLength p cs + length (cs.drop (runLength p cs))

theorem settled_runThen {p : Char → Bool} {length : List Char → Nat} (refuses : Refuses p)
    (settled : Settled length) : Settled (runThen p length) := by
  intro cs
  obtain ⟨shorter, same⟩ := settled (cs.drop (runLength p cs))
  constructor
  · have := runLength_le p cs
    rw [List.length_drop] at shorter
    unfold runThen
    omega
  · intro cs' agree
    have sameRun := (settled_runLength refuses cs).2 cs' (agree.weaken (Nat.le_add_right ..))
    have behind := agree.drop (Nat.le_add_right (runLength p cs) _)
    rw [runThen, Nat.add_sub_cancel_left] at behind
    rw [runThen, runThen, sameRun, same _ behind]

theorem settled_exponentLength : Settled exponentLength := by
  have signs : Refuses fun c => c.isDigit || c == '+' || c == '-' := refuses_iff.mpr (by decide)
  have letters : Refuses fun c => c == 'e' || c == 'E' := refuses_iff.mpr (by decide)
  have absent {e : Char} {cs : List Char}
      (none : ((e == 'e' || e == 'E') && cs.head?.any fun c => c.isDigit || c == '+' || c == '-') = false) :
      exponentLength (e :: cs) = 0 := by
    cases cs with
    | nil => rfl
    | cons sign cs =>
      have none : ((e == 'e' || e == 'E') && (sign.isDigit || sign == '+' || sign == '-')) = false := none
      simp [exponentLength, none]
  intro cs
  rcases cs with _ | ⟨e, cs⟩
  · refine ⟨Nat.le_refl _, fun cs' agree => ?_⟩
    have fails := agree.head?_fails letters rfl
    cases cs' with
    | nil => rfl
    | cons e cs' =>
      have other : (e == 'e' || e == 'E') = false := fails
      exact absent (by rw [other]; rfl)
  by_cases present : ((e == 'e' || e == 'E') && cs.head?.any fun c => c.isDigit || c == '+' || c == '-') = true
  · cases cs with
    | nil => simp at present
    | cons sign cs =>
      have length (cs : List Char) : exponentLength (e :: sign :: cs) = runLength Char.isDigit cs + 1 + 1 := by
        have present : ((e == 'e' || e == 'E') && (sign.isDigit || sign == '+' || sign == '-')) = true := present
        rw [exponentLength, if_pos present, Nat.add_comm]
      obtain ⟨shorter, same⟩ := settled_runLength refuses_isDigit cs
      rw [Keeps, length]
      refine ⟨by simpa using shorter, fun cs' agree => ?_⟩
      obtain ⟨_, rfl, behindFirst⟩ := agree.uncons
      obtain ⟨more, rfl, behind⟩ := behindFirst.uncons
      rw [length, same more behind]
  · have none := Bool.eq_false_iff.mpr present
    rw [Keeps, absent none]
    refine ⟨Nat.zero_le _, fun cs' agree => ?_⟩
    obtain ⟨common, rest, rest', start, rfl, -, apart⟩ := agree
    cases common with
    | nil =>
      have fails := apart.head?_any letters
      cases rest' with
      | nil => rfl
      | cons d rest' =>
        have other : (d == 'e' || d == 'E') = false := fails
        exact absent (by rw [other]; rfl)
    | cons d common =>
      obtain ⟨rfl, rfl⟩ := List.cons.inj start
      have agree : Agree 0 (common ++ rest) (common ++ rest') := ⟨common, rest, rest', rfl, rfl, Nat.zero_le _, apart⟩
      exact absent (Bool.eq_false_iff.mpr (agree.test_fails signs present))

theorem settled_digitsLength : Settled digitsLength :=
  settled_runThen refuses_isDigit settled_exponentLength

def fractionLength : List Char → Nat
  | '.' :: cs => 1 + digitsLength cs
  | cs => exponentLength cs

theorem numberTail_eq (cs : List Char) : numberTail cs = runThen Char.isDigit fractionLength cs := by
  unfold numberTail runThen
  dsimp only
  split
  · next rest shape => rw [shape, fractionLength, Nat.add_assoc]
  · next rest other =>
    rw [fractionLength]
    exact fun cs shape => other cs shape

theorem fractionLength_of_ne {cs : List Char} (other : cs.head?.any (· == '.') = false) :
    fractionLength cs = exponentLength cs := by
  rw [fractionLength]
  rintro rest rfl
  simp at other

theorem settled_fractionLength : Settled fractionLength := by
  intro cs
  by_cases point : cs.head?.any (· == '.') = false
  · obtain ⟨shorter, same⟩ := settled_exponentLength cs
    rw [Keeps, fractionLength_of_ne point]
    refine ⟨shorter, fun cs' agree => ?_⟩
    rw [fractionLength_of_ne (agree.head?_fails (refuses_beq (by decide)) point), same cs' agree]
  · obtain ⟨c, cs, rfl⟩ := List.exists_cons_of_ne_nil (l := cs) (by rintro rfl; simp at point)
    obtain rfl : c = '.' := by simpa using point
    obtain ⟨shorter, same⟩ := settled_digitsLength cs
    rw [Keeps, fractionLength, Nat.add_comm]
    refine ⟨by simpa using shorter, fun cs' agree => ?_⟩
    obtain ⟨more, rfl, behind⟩ := agree.uncons
    rw [fractionLength, same more behind, Nat.add_comm]

theorem settled_numberTail : Settled numberTail := by
  rw [funext numberTail_eq]
  exact settled_runThen refuses_isDigit settled_fractionLength

theorem stringTail_keeps {cs : List Char} {n : Nat} (found : stringTail cs = some n) :
    Keeps n cs fun cs' => stringTail cs' = some n := by
  induction cs using stringTail.induct generalizing n with
  | case1 => cases found
  | case2 cs ih =>
    rw [stringTail] at found
    obtain ⟨m, inner, rfl⟩ := Option.map_eq_some_iff.mp found
    obtain ⟨shorter, same⟩ := ih inner
    refine ⟨by simpa using shorter, fun cs' agree => ?_⟩
    obtain ⟨_, rfl, behindFirst⟩ := Agree.uncons (n := m + 1) agree
    obtain ⟨more, rfl, behind⟩ := behindFirst.uncons
    simp [stringTail, same more behind]
  | case3 cs single =>
    rw [stringTail] at found
    · obtain rfl : 1 = n := Option.some.inj found
      refine ⟨by simp, fun cs' agree => ?_⟩
      obtain ⟨more, rfl, behind⟩ := agree.uncons
      have noQuote : cs.head?.any (· == '\'') = false := by
        cases cs with
        | nil => rfl
        | cons c cs =>
          have other : c ≠ '\'' := by rintro rfl; exact single cs rfl
          simpa using other
      have fails := behind.head?_fails (refuses_beq (c := '\'') (by decide)) noQuote
      rw [stringTail]
      rintro cs rfl
      simp at fails
    · exact single
  | case4 c cs doubled single ih =>
    rw [stringTail] at found
    · obtain ⟨m, inner, rfl⟩ := Option.map_eq_some_iff.mp found
      obtain ⟨shorter, same⟩ := ih inner
      refine ⟨by simpa using shorter, fun cs' agree => ?_⟩
      obtain ⟨more, rfl, behind⟩ := agree.uncons
      rw [stringTail, same more behind, Option.map_some]
      · intro cs quote
        exact absurd quote single
      · exact single
    · exact doubled
    · exact single

theorem delimitedTail_keeps {close : Char} {cs : List Char} {n : Nat} (delimiter : endsToken close = false)
    (found : delimitedTail close cs = some n) : Keeps n cs fun cs' => delimitedTail close cs' = some n := by
  have ended {cs : List Char} (fails : cs.head?.any (· == close) = false) :
      delimitedTail close (close :: cs) = some 1 := by
    cases cs with
    | nil => simp [delimitedTail]
    | cons c cs =>
      have other : (c == close) = false := fails
      simp [delimitedTail, other]
  induction cs using delimitedTail.induct close generalizing n with
  | case1 => cases found
  | case2 c isClose =>
    obtain rfl : c = close := by simpa using isClose
    obtain rfl : 1 = n := by simpa [delimitedTail] using found
    refine ⟨by simp, fun cs' agree => ?_⟩
    obtain ⟨more, rfl, behind⟩ := agree.uncons
    exact ended (behind.head?_fails (refuses_beq delimiter) rfl)
  | case3 c other => simp [delimitedTail, other] at found
  | case4 c d cs isClose doubled ih =>
    rw [delimitedTail, if_pos isClose, if_pos doubled] at found
    obtain ⟨m, inner, rfl⟩ := Option.map_eq_some_iff.mp found
    obtain ⟨shorter, same⟩ := ih inner
    refine ⟨by simpa using shorter, fun cs' agree => ?_⟩
    obtain ⟨_, rfl, behindFirst⟩ := Agree.uncons (n := m + 1) agree
    obtain ⟨more, rfl, behind⟩ := behindFirst.uncons
    rw [delimitedTail, if_pos isClose, if_pos doubled, same more behind, Option.map_some]
  | case5 c d cs isClose single =>
    rw [delimitedTail, if_pos isClose, if_neg single] at found
    obtain rfl : c = close := by simpa using isClose
    obtain rfl : 1 = n := Option.some.inj found
    refine ⟨by simp, fun cs' agree => ?_⟩
    obtain ⟨more, rfl, behind⟩ := agree.uncons
    exact ended (behind.head?_fails (refuses_beq delimiter) (by simpa using single))
  | case6 c d cs other lineEnd =>
    rw [delimitedTail, if_neg other, if_pos lineEnd] at found
    cases found
  | case7 c d cs other sameLine ih =>
    rw [delimitedTail, if_neg other, if_neg sameLine] at found
    obtain ⟨m, inner, rfl⟩ := Option.map_eq_some_iff.mp found
    obtain ⟨shorter, same⟩ := ih inner
    refine ⟨by simpa using shorter, fun cs' agree => ?_⟩
    obtain ⟨more, rfl, behind⟩ := agree.uncons
    have inMore := same more behind
    -- What follows is not empty, so that the next step looks at two characters again.
    cases more with
    | nil => simp [delimitedTail] at inMore
    | cons e more => rw [delimitedTail, if_neg other, if_neg sameLine, inMore, Option.map_some]

theorem name_keeps {p : Char → Bool} (refuses : Refuses p) {cs : List Char} (start : cs.head?.any p = true) :
    Keeps (runLength p cs) cs fun cs' => cs'.head? = cs.head? ∧ runLength p cs' = runLength p cs := by
  obtain ⟨shorter, same⟩ := settled_runLength refuses cs
  refine ⟨shorter, fun cs' agree => ⟨?_, same cs' agree⟩⟩
  cases cs with
  | nil => simp at start
  | cons c cs =>
    rw [runLength_cons_pos start] at agree
    exact agree.head?

theorem isWordChar_of_isWordStart {c : Char} (start : isWordStart c = true) :
    isWordChar c = true := by
  simp only [isWordStart, Bool.or_eq_true] at start
  rcases start with letter | underscore
  · simp [isWordChar, isAlphanumeric, letter]
  · simp [isWordChar, underscore]

theorem any_isWordChar {next : Option Char} (start : next.any isWordStart = true) :
    next.any isWordChar = true := by
  cases next with
  | none => cases start
  | some c => exact isWordChar_of_isWordStart start

theorem variableTail_keeps {cs : List Char} {kind : Kind} {n : Nat} (found : variableTail cs = .ok (kind, n)) :
    Keeps n cs fun cs' => variableTail cs' = .ok (kind, n) := by
  rw [variableTail] at found
  split at found
  · next system =>
    obtain ⟨name, rfl⟩ := List.head?_eq_some_iff.mp (beq_iff_eq.mp system)
    rw [List.tail_cons] at found
    split at found
    · next start =>
      obtain ⟨rfl, rfl⟩ : .systemVariable = kind ∧ runLength isWordChar name + 1 = n := by
        simpa using found
      obtain ⟨shorter, same⟩ := name_keeps refuses_isWordChar (any_isWordChar start)
      refine ⟨by simpa using shorter, fun cs' agree => ?_⟩
      obtain ⟨more, rfl, behind⟩ := agree.uncons
      obtain ⟨first, same⟩ := same more behind
      rw [variableTail, if_pos (by simp), List.tail_cons, first, if_pos start, same]
    · cases found
  · next user =>
    split at found
    · next start =>
      obtain ⟨rfl, rfl⟩ : .userVariable = kind ∧ runLength isWordChar cs = n := by
        simpa using found
      obtain ⟨shorter, same⟩ := name_keeps refuses_isWordChar (any_isWordChar start)
      refine ⟨shorter, fun cs' agree => ?_⟩
      obtain ⟨first, same⟩ := same cs' agree
      rw [variableTail, first, if_neg user, if_pos start, same]
    · cases found

theorem tempTableTail_keeps {cs : List Char} {kind : Kind} {n : Nat} (found : tempTableTail cs = .ok (kind, n)) :
    Keeps n cs fun cs' => tempTableTail cs' = .ok (kind, n) := by
  simp only [tempTableTail] at found
  split at found
  · next start =>
    obtain ⟨rfl, rfl⟩ : .tempTable = kind ∧ runThen (· == '#') (runLength isWordChar) cs = n := by
      simpa [runThen] using found
    have hash : Refuses (· == '#') := refuses_beq (by decide)
    refine ⟨(settled_runThen hash (settled_runLength refuses_isWordChar) cs).1, fun cs' agree => ?_⟩
    have sameRun := (settled_runLength hash cs).2 cs' (agree.weaken (Nat.le_add_right ..))
    have behind := agree.drop (Nat.le_add_right (runLength (· == '#') cs) _)
    rw [runThen, Nat.add_sub_cancel_left] at behind
    obtain ⟨first, same⟩ := (name_keeps refuses_isWordChar start).2 _ behind
    simp only [tempTableTail, runThen, sameRun, first, start, same, if_true]
  · cases found

theorem word_keeps (c : Char) (cs : List Char) : Keeps (word c cs).2 cs fun cs' => word c cs' = word c cs := by
  obtain ⟨shorter, same⟩ := settled_runLength refuses_isWordChar cs
  refine ⟨shorter, fun cs' agree => ?_⟩
  have kept : cs'.take (runLength isWordChar cs) = cs.take (runLength isWordChar cs) := agree.take
  simp only [word, same cs' agree, kept]

/-- An operator of one character does not look at what ends it. -/
theorem operator_ended (c : Char) {d : Char} (ends : endsToken d = true) :
    operator c (some d) = operator c none := by
  have member : d ∈ [' ', '\t', '\r', '\n', '\ufeff', '(', ')', ',', ';'] := by
    simpa [endsToken, isGapChar, or_assoc] using ends
  simp only [List.mem_cons, List.not_mem_nil, or_false] at member
  rcases member with rfl | rfl | rfl | rfl | rfl | rfl | rfl | rfl | rfl <;> unfold operator <;>
    split <;> simp_all

theorem operator_cases {c : Char} {next : Option Char} {kind : Kind} {n : Nat}
    (found : operator c next = .ok (kind, n)) :
    (n = 0 ∧ operator c none = .ok (kind, 0)) ∨ (n = 1 ∧ next.isSome) := by
  unfold operator at found
  split at found <;> simp_all [operator]

theorem operator_keeps {c : Char} {cs : List Char} {kind : Kind} {n : Nat}
    (found : operator c cs.head? = .ok (kind, n)) :
    Keeps n cs fun cs' => operator c cs'.head? = .ok (kind, n) := by
  rcases operator_cases found with ⟨rfl, alone⟩ | ⟨rfl, present⟩
  · refine ⟨Nat.zero_le _, ?_⟩
    rintro cs' ⟨common, rest, rest', rfl, rfl, -, apart⟩
    cases common with
    | cons d common => exact found
    | nil =>
      cases rest' with
      | nil => simpa using alone
      | cons d rest' => simpa [operator_ended c (apart d rfl)] using alone
  · cases cs with
    | nil => simp at present
    | cons d cs =>
      refine ⟨by simp, fun cs' agree => ?_⟩
      rwa [← agree.head?] at found

theorem endedBy_keeps {kind kind' : Kind} {fault : Fault} {tail : List Char → Option Nat}
    {cs : List Char} {n : Nat} (settled : ∀ m, tail cs = some m → Keeps m cs fun cs' => tail cs' = some m)
    (found : endedBy kind fault (tail cs) = .ok (kind', n)) :
    Keeps n cs fun cs' => endedBy kind fault (tail cs') = .ok (kind', n) := by
  cases ended : tail cs with
  | none => simp [ended, endedBy] at found
  | some m =>
    obtain ⟨rfl, rfl⟩ : kind = kind' ∧ m = n := by simpa [ended, endedBy] using found
    exact (settled m ended).imp fun cs' _ same => by rw [same, endedBy]

theorem beq_some {next : Option Char} {c : Char} : (next == some c) = next.any (· == c) := by
  cases next <;> rfl

theorem any_or_any {next : Option Char} {p q : Char → Bool} :
    (next.any p || next.any q) = next.any fun c => p c || q c := by
  cases next <;> rfl

theorem Keeps.behind {n : Nat} {cs : List Char} {P : List Char → Prop} {p : Char → Bool}
    (next : cs.head?.any p = true) (keeps : Keeps n cs.tail P) :
    Keeps (n + 1) cs fun cs' => cs'.head?.any p = true ∧ P cs'.tail := by
  obtain ⟨shorter, same⟩ := keeps
  refine ⟨?_, fun cs' agree => ⟨by rw [agree.head?]; exact next, same _ agree.tail⟩⟩
  cases cs with
  | nil => simp at next
  | cons c cs => simpa using shorter

theorem nationalString_keeps {cs : List Char} {kind : Kind} {n : Nat} (next : cs.head?.any (· == '\'') = true)
    (found : endedBy .stringLiteral .openString ((stringTail cs.tail).map (· + 1)) = .ok (kind, n)) :
    Keeps n cs fun cs' => cs'.head?.any (· == '\'') = true ∧
      endedBy .stringLiteral .openString ((stringTail cs'.tail).map (· + 1)) = .ok (kind, n) := by
  cases ended : stringTail cs.tail with
  | none => simp [ended, endedBy] at found
  | some m =>
    obtain ⟨rfl, rfl⟩ : .stringLiteral = kind ∧ m + 1 = n := by simpa [ended, endedBy] using found
    obtain ⟨shorter, same⟩ := Keeps.behind next (stringTail_keeps ended)
    refine ⟨shorter, fun cs' agree => ?_⟩
    obtain ⟨still, same⟩ := same cs' agree
    exact ⟨still, by rw [same, Option.map_some, endedBy]⟩

theorem digits_keeps {cs : List Char} (next : cs.head?.any Char.isDigit = true) :
    Keeps (digitsLength cs) cs fun cs' => cs'.head?.any Char.isDigit = true ∧ digitsLength cs' = digitsLength cs := by
  obtain ⟨shorter, same⟩ := settled_digitsLength cs
  refine ⟨shorter, fun cs' agree => ⟨?_, same cs' agree⟩⟩
  have run : Agree (runLength Char.isDigit cs) cs cs' := agree.weaken (Nat.le_add_right ..)
  rw [((name_keeps refuses_isDigit next).2 cs' run).1]
  exact next

/-- A token is found again when the text behind it changes. -/
theorem tokenPiece_keeps {c : Char} {cs : List Char} {kind : Kind} {n : Nat}
    (found : tokenPiece c cs = .ok (kind, n)) : Keeps n cs fun cs' => tokenPiece c cs' = .ok (kind, n) := by
  simp only [tokenPiece, beq_some, any_or_any] at found ⊢
  by_cases quote : (c == '\'') = true
  · simp only [if_pos quote] at found ⊢
    exact endedBy_keeps (fun _ => stringTail_keeps) found
  simp only [if_neg quote] at found ⊢
  by_cases national : ((c == 'N' || c == 'n') && cs.head?.any (· == '\'')) = true
  · rw [if_pos national] at found
    obtain ⟨letter, next⟩ := Bool.and_eq_true_iff.mp national
    refine (nationalString_keeps next found).imp fun cs' agree ⟨still, same⟩ => ?_
    rw [if_pos (by rw [letter, still]; rfl), same]
  rw [if_neg national] at found
  have noNational {cs' : List Char} (agree : Agree n cs cs') :
      ¬ ((c == 'N' || c == 'n') && cs'.head?.any (· == '\'')) = true :=
    agree.test_fails (refuses_beq (by decide)) national
  by_cases bracket : (c == '[') = true
  · simp only [if_pos bracket] at found ⊢
    exact (endedBy_keeps (fun _ => delimitedTail_keeps (by decide)) found).imp fun cs' agree same => by rw [if_neg (noNational agree), same]
  simp only [if_neg bracket] at found ⊢
  by_cases doubleQuote : (c == '"') = true
  · simp only [if_pos doubleQuote] at found ⊢
    exact (endedBy_keeps (fun _ => delimitedTail_keeps (by decide)) found).imp fun cs' agree same => by rw [if_neg (noNational agree), same]
  simp only [if_neg doubleQuote] at found ⊢
  by_cases atSign : (c == '@') = true
  · simp only [if_pos atSign] at found ⊢
    exact (variableTail_keeps found).imp fun cs' agree same => by rw [if_neg (noNational agree), same]
  simp only [if_neg atSign] at found ⊢
  by_cases numberSign : (c == '#') = true
  · simp only [if_pos numberSign] at found ⊢
    exact (tempTableTail_keeps found).imp fun cs' agree same => by rw [if_neg (noNational agree), same]
  simp only [if_neg numberSign] at found ⊢
  by_cases binary : (c == '0' && cs.head?.any fun c => c == 'x' || c == 'X') = true
  · rw [if_pos binary] at found
    obtain ⟨rfl, rfl⟩ : .binaryLiteral = kind ∧ runLength isHexDigit cs.tail + 1 = n := by
      simpa using found
    obtain ⟨zero, next⟩ := Bool.and_eq_true_iff.mp binary
    refine (Keeps.behind next (settled_runLength refuses_isHexDigit cs.tail)).imp fun cs' agree ⟨still, same⟩ => ?_
    rw [if_neg (noNational agree), if_pos (by rw [zero, still]; rfl), same]
  rw [if_neg binary] at found
  have noBinary {cs' : List Char} (agree : Agree n cs cs') :
      ¬ (c == '0' && cs'.head?.any fun c => c == 'x' || c == 'X') = true :=
    agree.test_fails (refuses_iff.mpr (by decide)) binary
  by_cases digit : c.isDigit = true
  · simp only [if_pos digit] at found ⊢
    obtain ⟨rfl, rfl⟩ : .numberLiteral = kind ∧ numberTail cs = n := by simpa using found
    exact (settled_numberTail cs).imp fun cs' agree same => by rw [if_neg (noNational agree), if_neg (noBinary agree), same]
  simp only [if_neg digit] at found ⊢
  by_cases point : (c == '.' && cs.head?.any Char.isDigit) = true
  · rw [if_pos point] at found
    obtain ⟨rfl, rfl⟩ : .numberLiteral = kind ∧ digitsLength cs = n := by simpa using found
    obtain ⟨first, next⟩ := Bool.and_eq_true_iff.mp point
    refine (digits_keeps next).imp fun cs' agree ⟨still, same⟩ => ?_
    rw [if_neg (noNational agree), if_neg (noBinary agree), if_pos (by rw [first, still]; rfl), same]
  rw [if_neg point] at found
  have noPoint {cs' : List Char} (agree : Agree n cs cs') : ¬ (c == '.' && cs'.head?.any Char.isDigit) = true :=
    agree.test_fails refuses_isDigit point
  by_cases letter : isWordStart c = true
  · simp only [if_pos letter] at found ⊢
    have keeps := word_keeps c cs
    rw [Except.ok.inj found] at keeps
    refine keeps.imp fun cs' agree same => ?_
    rw [if_neg (noNational agree), if_neg (noBinary agree), if_neg (noPoint agree), same]
  simp only [if_neg letter] at found ⊢
  refine (operator_keeps found).imp fun cs' agree same => ?_
  rw [if_neg (noNational agree), if_neg (noBinary agree), if_neg (noPoint agree), same]

theorem piece_keeps {c : Char} {cs : List Char} {kind : Kind} {n : Nat}
    (found : piece c cs = .ok (some kind, n)) : Keeps n cs fun cs' => piece c cs' = .ok (some kind, n) := by
  simp only [piece, beq_some] at found ⊢
  by_cases gap : isGapChar c = true
  · simp [gap] at found
  simp only [if_neg gap] at found ⊢
  by_cases dashes : (c == '-' && cs.head?.any (· == '-')) = true
  · rw [if_pos dashes] at found
    simp at found
  rw [if_neg dashes] at found
  by_cases delimiter : (c == '/' && cs.head?.any (· == '*')) = true
  · rw [if_pos delimiter] at found
    split at found <;> simp at found
  rw [if_neg delimiter] at found
  cases token : tokenPiece c cs with
  | error fault => simp [token] at found
  | ok result =>
    obtain ⟨rfl, rfl⟩ : result.1 = kind ∧ result.2 = n := by simpa [token] using found
    refine (tokenPiece_keeps token).imp fun cs' agree same => ?_
    rw [if_neg (agree.test_fails (refuses_beq (by decide)) dashes),
      if_neg (agree.test_fails (refuses_beq (by decide)) delimiter), same]

def face (t : Token Kind) : Kind × String := (t.kind, t.text)

/-- The text is read as one token of the kind wherever it stands before what ends it. -/
def Standalone (kind : Kind) (text : String) : Prop := ∃ c cs, text.toList = c :: cs ∧
  ∀ rest, Apart rest → piece c (cs ++ rest) = .ok (some kind, cs.length)

theorem standalone_of_piece {c : Char} {cs : List Char} {kind : Kind} {n : Nat}
    (found : piece c cs = .ok (some kind, n)) : Standalone kind (.ofList (c :: cs.take n)) := by
  refine ⟨c, cs.take n, String.toList_ofList, ?_⟩
  intro rest apart
  obtain ⟨shorter, same⟩ := piece_keeps found
  rw [same _ (.cut apart shorter), List.length_take, Nat.min_eq_left shorter]

/-- The tokens of a text can be taken out of it. -/
theorem standalone_of_lexFrom {p : Position} {cs : List Char} {tokens : List (Token Kind)}
    (lexed : lexFrom p cs = .ok tokens) : ∀ t ∈ tokens, Standalone t.kind t.text := by
  induction size : cs.length using Nat.strongRecOn generalizing p cs tokens with
  | ind length ih =>
  cases cs with
  | nil =>
    obtain rfl : [] = tokens := by simpa [lexFrom] using lexed
    simp
  | cons c cs =>
    obtain ⟨kind?, n, rest, found, lexedRest, rfl⟩ := lexFrom_cons lexed
    have shorter : (cs.drop n).length < length := by
      rw [← size, List.length_drop, List.length_cons]; omega
    have later := ih _ shorter lexedRest rfl
    cases kind? with
    | none => exact later
    | some kind => exact List.forall_mem_cons.mpr ⟨standalone_of_piece found, later⟩

theorem endedBy_kind {kind kind' : Kind} {fault : Fault} {tail : Option Nat} {n : Nat}
    (found : endedBy kind fault tail = .ok (kind', n)) : kind = kind' := by
  cases tail with
  | none => cases found
  | some m => exact congrArg Prod.fst (Except.ok.inj found)

theorem isReserved_of_tokenPiece {c : Char} {cs : List Char} {n : Nat}
    (found : tokenPiece c cs = .ok (.identifier, n)) :
    isReserved (.ofList (c :: cs.take n)) = false := by
  rcases ite_eq_iff.mp found with ⟨-, string⟩ | ⟨-, found⟩
  · cases endedBy_kind string
  rcases ite_eq_iff.mp found with ⟨-, string⟩ | ⟨-, found⟩
  · cases endedBy_kind string
  rcases ite_eq_iff.mp found with ⟨-, name⟩ | ⟨-, found⟩
  · cases endedBy_kind name
  rcases ite_eq_iff.mp found with ⟨-, name⟩ | ⟨-, found⟩
  · cases endedBy_kind name
  rcases ite_eq_iff.mp found with ⟨-, user⟩ | ⟨-, found⟩
  · unfold variableTail at user
    split at user <;> split at user <;> cases user
  rcases ite_eq_iff.mp found with ⟨-, table⟩ | ⟨-, found⟩
  · rcases ite_eq_iff.mp table with ⟨-, table⟩ | ⟨-, table⟩ <;> cases table
  rcases ite_eq_iff.mp found with ⟨-, number⟩ | ⟨-, found⟩
  · cases number
  rcases ite_eq_iff.mp found with ⟨-, number⟩ | ⟨-, found⟩
  · cases number
  rcases ite_eq_iff.mp found with ⟨-, number⟩ | ⟨-, found⟩
  · cases number
  rcases ite_eq_iff.mp found with ⟨-, found⟩ | ⟨-, found⟩
  · obtain ⟨kind, rfl⟩ := Prod.mk.inj (Except.ok.inj found)
    simpa using kind
  · unfold operator at found
    split at found <;> cases found

theorem Standalone.isReserved {text : String} (alone : Standalone .identifier text) :
    isReserved text = false := by
  obtain ⟨c, cs, shape, found⟩ := alone
  have whole := found [] apart_nil
  rw [List.append_nil, piece] at whole
  rcases ite_eq_iff.mp whole with ⟨-, gap⟩ | ⟨-, whole⟩
  · cases gap
  rcases ite_eq_iff.mp whole with ⟨-, gap⟩ | ⟨-, whole⟩
  · cases gap
  rcases ite_eq_iff.mp whole with ⟨-, gap⟩ | ⟨-, whole⟩
  · split at gap <;> cases gap
  split at whole
  · next kind n token =>
    cases whole
    have plain := isReserved_of_tokenPiece token
    rwa [List.take_length, ← shape, String.ofList_toList] at plain
  · cases whole

theorem lexFrom_standalone {kind : Kind} {text : String} (alone : Standalone kind text)
    {rest : List Char} (apart : Apart rest) {p : Position} {tokens : List (Token Kind)}
    (lexed : lexFrom (p.advance text.toList) rest = .ok tokens) :
    lexFrom p (text.toList ++ rest) = .ok (⟨kind, text, p.line, p.column⟩ :: tokens) := by
  obtain ⟨c, cs, shape, found⟩ := alone
  rw [shape] at lexed ⊢
  have same : String.ofList (c :: cs) = text := by rw [← shape, String.ofList_toList]
  rw [List.cons_append, lexFrom, found rest apart]
  simp only [List.take_left', List.drop_left', lexed, same]

theorem lexFrom_gap {c : Char} (gap : isGapChar c = true) (p : Position) (cs : List Char) :
    lexFrom p (c :: cs) = lexFrom (p.advance [c]) cs := by
  rw [lexFrom, piece, if_pos gap]
  simp only [List.take_zero, List.drop_zero]
  split <;> simp_all

theorem lexFrom_spaced {faces : List (Kind × String)} (p : Position)
    (alone : ∀ face ∈ faces, Standalone face.1 face.2) :
    ∃ tokens, lexFrom p ([' '].intercalate (faces.map (·.2.toList))) = .ok tokens ∧
      tokens.map face = faces := by
  induction faces generalizing p with
  | nil => exact ⟨[], by simp [lexFrom], rfl⟩
  | cons first faces ih =>
    obtain ⟨firstAlone, alone⟩ := List.forall_mem_cons.mp alone
    cases faces with
    | nil =>
      have lexed := lexFrom_standalone firstAlone apart_nil (p := p) (by rw [lexFrom])
      exact ⟨_, by simpa using lexed, rfl⟩
    | cons second faces =>
      obtain ⟨tokens, lexed, same⟩ := ih ((p.advance first.2.toList).advance [' ']) alone
      refine ⟨⟨first.1, first.2, p.line, p.column⟩ :: tokens, ?_, by simp [face, same]⟩
      rw [List.map_cons, List.map_cons, List.intercalate_cons_cons, List.append_assoc,
        List.singleton_append]
      apply lexFrom_standalone firstAlone (apart_cons (by decide))
      rw [lexFrom_gap (by decide)]
      exact lexed

/-- The tokens of a text, written with single spaces between them, are lexed as tokens of the same kinds and
texts. -/
theorem lex_rereads_tokens (source : String) (tokens : List (Token Kind)) (lexed : lex source = .ok tokens) :
    ∃ again, lex (" ".intercalate (tokens.map (·.text))) = .ok again ∧
      again.map (fun t => (t.kind, t.text)) = tokens.map fun t => (t.kind, t.text) := by
  have alone : ∀ pair ∈ tokens.map face, Standalone pair.1 pair.2 := by
    intro _ member
    obtain ⟨t, isToken, rfl⟩ := List.mem_map.mp member
    exact standalone_of_lexFrom lexed t isToken
  obtain ⟨again, reread, same⟩ := lexFrom_spaced .origin alone
  have printed : (" ".intercalate (tokens.map (·.text))).toList =
      [' '].intercalate ((tokens.map face).map (·.2.toList)) := by
    rw [String.toList_intercalate, List.map_map, List.map_map]
    rfl
  exact ⟨again, by rw [lex, printed, reread], same⟩

/-- Tokens that touch or have a comment between them, strings and names with their delimiter inside, an
exponent without digits, and a letter that is no prefix of a string. -/
theorem lex_rereads_touching_tokens :
    lex "N'é''x'/**/n[b]]c].5e+0x1Fg<>@@a--\n!<N\n''" = .ok [⟨.stringLiteral, "N'é''x'", 1, 0⟩,
      ⟨.identifier, "n", 1, 12⟩, ⟨.quotedIdentifier, "[b]]c]", 1, 13⟩, ⟨.numberLiteral, ".5e+0", 1, 19⟩,
      ⟨.identifier, "x1Fg", 1, 24⟩, ⟨.notEquals, "<>", 1, 28⟩, ⟨.systemVariable, "@@a", 1, 30⟩,
      ⟨.greaterEquals, "!<", 2, 0⟩, ⟨.identifier, "N", 2, 2⟩, ⟨.stringLiteral, "''", 3, 0⟩] ∧
    ∃ again, lex "N'é''x' n [b]]c] .5e+0 x1Fg <> @@a !< N ''" = .ok again ∧
      again.map (·.text) = ["N'é''x'", "n", "[b]]c]", ".5e+0", "x1Fg", "<>", "@@a", "!<", "N", "''"] := by
  have lexed : lex "N'é''x'/**/n[b]]c].5e+0x1Fg<>@@a--\n!<N\n''" = .ok [⟨.stringLiteral, "N'é''x'", 1, 0⟩,
      ⟨.identifier, "n", 1, 12⟩, ⟨.quotedIdentifier, "[b]]c]", 1, 13⟩, ⟨.numberLiteral, ".5e+0", 1, 19⟩,
      ⟨.identifier, "x1Fg", 1, 24⟩, ⟨.notEquals, "<>", 1, 28⟩, ⟨.systemVariable, "@@a", 1, 30⟩,
      ⟨.greaterEquals, "!<", 2, 0⟩, ⟨.identifier, "N", 2, 2⟩, ⟨.stringLiteral, "''", 3, 0⟩] := by
    with_unfolding_all rfl
  obtain ⟨again, reread, same⟩ := lex_rereads_tokens _ _ lexed
  have texts := congrArg (List.map Prod.snd) same
  rw [List.map_map, List.map_map] at texts
  exact ⟨lexed, again, reread, texts⟩

end SqlFerry.Tsql
