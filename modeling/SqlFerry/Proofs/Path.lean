import Mathlib.Data.List.Basic
import Mathlib.Data.List.Induction
import Mathlib.Logic.Function.Iterate
import SqlFerry.FileTree
import SqlFerry.Proofs.Text.Words

/-! Paths in normal form and the places they lead to. A normal form has one of a few shapes that all stay
as they are, and putting a path into it keeps the place: two dots behind a name lead back, and they lead
nowhere from the root. Different relative paths in normal form may still lead to one place, so what a batch
needs is proved of the targets of one directory and one extension: they lead to different places, unless
one of them leads above the root. -/
namespace SqlFerry

open Component

namespace Component

/-- Where a component leads from a place. -/
def lead (place : Location) : Component → Location
  | root => []
  | current => place
  | parent => place.dropLast
  | name text => place ++ [text]

/-- Where components lead one after the other. -/
def walk (place : Location) (components : List Component) : Location := components.foldl lead place

/-- Components that a piece between slashes can stand for: two dots and names. -/
def IsPiece (c : Component) : Prop := ofPiece? c.text = some c ∧ '/' ∉ c.text.toList

theorem IsPiece.cases {c : Component} (isPiece : c.IsPiece) : c = parent ∨ ∃ text, c = name text := by
  cases c with
  | root => exact absurd isPiece.1 (by decide)
  | current => exact absurd isPiece.1 (by decide)
  | parent => exact .inl rfl
  | name text => exact .inr ⟨text, rfl⟩

theorem text_of_ofPiece? {piece : String} {c : Component} (isSome : ofPiece? piece = some c) :
    c.text = piece := by
  rw [ofPiece?] at isSome
  split at isSome
  · cases isSome
  · split at isSome
    · next dots =>
      cases isSome
      exact dots.symm
    · cases isSome
      rfl

theorem walk_append (place : Location) (front back : List Component) :
    walk place (front ++ back) = walk (walk place front) back := List.foldl_append

@[simp]
theorem enter_name (path : List Component) (text : String) : enter path (name text) = path ++ [name text] :=
  rfl

@[simp]
theorem enter_name_parent (path : List Component) (text : String) :
    enter (path ++ [name text]) parent = path := by
  simp [enter]

theorem walk_enter (place : Location) (path : List Component) (c : Component) :
    walk place (enter path c) = lead (walk place path) c := by
  cases c with
  | root => exact walk_append place path [root]
  | current => rfl
  | name text => exact walk_append place path [name text]
  | parent =>
    rcases path.eq_nil_or_concat' with rfl | ⟨front, last, rfl⟩
    · rfl
    · cases last with
      | name text => simp [walk, lead]
      | root => simp [enter, walk, lead]
      | current => simp [enter, walk]
      | parent => simp [enter, walk]

theorem walk_foldl_enter (place : Location) (path components : List Component) :
    walk place (components.foldl enter path) = walk (walk place path) components := by
  induction components generalizing path with
  | nil => rfl
  | cons c rest ih => rw [List.foldl_cons, ih, walk_enter, walk, walk, walk, List.foldl_cons]

theorem normalForm_eq_of_ne_nil {components : List Component} (visible : components.foldl enter [] ≠ []) :
    normalForm components = components.foldl enter [] := by
  rw [normalForm]
  split
  · next empty => exact absurd empty visible
  · rfl

theorem walk_normalForm (place : Location) (components : List Component) :
    walk place (normalForm components) = walk place components := by
  have kept := walk_foldl_enter place [] components
  cases isNormal : components.foldl enter [] with
  | nil =>
    rw [isNormal] at kept
    rw [normalForm, isNormal]
    exact kept
  | cons c rest =>
    rw [normalForm_eq_of_ne_nil (by simp [isNormal])]
    exact kept

theorem foldl_enter_root {components : List Component} (arePieces : ∀ c ∈ components, c.IsPiece)
    (names : List String) :
    components.foldl enter (root :: names.map name) = root :: (walk names components).map name := by
  induction components generalizing names with
  | nil => rfl
  | cons c rest ih =>
    rw [List.forall_mem_cons] at arePieces
    rw [List.foldl_cons, walk, List.foldl_cons]
    rcases arePieces.1.cases with rfl | ⟨text, rfl⟩
    · have up : enter (root :: names.map name) parent = root :: names.dropLast.map name := by
        rcases names.eq_nil_or_concat' with rfl | ⟨front, last, rfl⟩
        · rfl
        · simpa using enter_name_parent (root :: front.map name) last
      rw [up]
      exact ih arePieces.2 _
    · have down : enter (root :: names.map name) (name text) = root :: (names ++ [text]).map name := by
        simp
      rw [down]
      exact ih arePieces.2 _

theorem forall_foldl_enter {P : Component → Prop} {components path : List Component}
    (entered : ∀ c ∈ components, P c) (soFar : ∀ c ∈ path, P c) : ∀ c ∈ components.foldl enter path, P c := by
  induction components generalizing path with
  | nil => exact soFar
  | cons c rest ih =>
    rw [List.forall_mem_cons] at entered
    refine ih entered.2 ?_
    have added : ∀ d ∈ path ++ [c], P d := by simpa [or_imp, forall_and] using ⟨soFar, entered.1⟩
    cases c with
    | root | name _ => exact added
    | current => exact soFar
    | parent =>
      rw [enter]
      split
      · exact fun d member => soFar d ((List.dropLast_sublist path).subset member)
      · exact soFar
      · exact added

/-- Pieces lead some levels up and then some names down, in normal form and on the disk. -/
theorem exists_net {components : List Component} (arePieces : ∀ c ∈ components, c.IsPiece) :
    ∃ (up : Nat) (down : List String),
      (∀ path, components.foldl enter path = (enter · parent)^[up] path ++ down.map name) ∧
        ∀ place, walk place components = List.dropLast^[up] place ++ down := by
  induction components using List.reverseRecOn with
  | nil => exact ⟨0, [], by simp, by simp [walk]⟩
  | append_singleton front last ih =>
    rw [List.forall_mem_append] at arePieces
    obtain ⟨up, down, inForm, onDisk⟩ := ih arePieces.1
    have stepForm (path) : (front ++ [last]).foldl enter path = enter (front.foldl enter path) last := by
      simp
    have stepDisk (place) : walk place (front ++ [last]) = lead (walk place front) last :=
      walk_append place front [last]
    rcases (arePieces.2 last List.mem_cons_self).cases with rfl | ⟨text, rfl⟩
    · rcases down.eq_nil_or_concat' with rfl | ⟨before, text, rfl⟩
      · refine ⟨up + 1, [], fun path => ?_, fun place => ?_⟩
        · rw [stepForm, inForm, Function.iterate_succ_apply']
          simp
        · rw [stepDisk, onDisk, Function.iterate_succ_apply']
          simp [lead]
      · refine ⟨up, before, fun path => ?_, fun place => ?_⟩
        · rw [stepForm, inForm]
          simp [← List.append_assoc]
        · rw [stepDisk, onDisk]
          simp [lead]
    · refine ⟨up, down ++ [text], fun path => ?_, fun place => ?_⟩
      · rw [stepForm, inForm]
        simp
      · rw [stepDisk, onDisk]
        simp [lead]

section Shape

/-- The shapes of a normal form: a dot alone, or names behind the root or behind some two dots. -/
inductive IsNormal : List Component → Prop
  | here : IsNormal [current]
  | absolute (names : List String) : IsNormal (root :: names.map name)
  | relative (up : Nat) (names : List String) (visible : List.replicate up parent ++ names.map name ≠ []) :
    IsNormal (List.replicate up parent ++ names.map name)

variable {components : List Component}

theorem foldl_enter_names (path : List Component) (names : List String) :
    (names.map name).foldl enter path = path ++ names.map name := by
  induction names generalizing path with
  | nil => simp
  | cons text names ih =>
    rw [List.map_cons, List.foldl_cons, enter_name, ih, List.append_assoc, List.singleton_append]

theorem ascend_nil (up : Nat) : (enter · parent)^[up] [] = List.replicate up parent := by
  induction up with
  | zero => rfl
  | succ up ih =>
    rw [Function.iterate_succ_apply', ih, List.replicate_succ']
    cases up with
    | zero => rfl
    | succ up => simp [enter, List.replicate_succ']

theorem foldl_enter_parents (up : Nat) (path : List Component) :
    (List.replicate up parent).foldl enter path = (enter · parent)^[up] path := by
  induction up generalizing path with
  | zero => rfl
  | succ up ih => rw [List.replicate_succ, List.foldl_cons, ih, Function.iterate_succ_apply]

theorem IsNormal.normalForm_eq (normal : IsNormal components) : normalForm components = components := by
  cases normal with
  | here => rfl
  | absolute names =>
    have kept : (root :: names.map name).foldl enter [] = root :: names.map name := foldl_enter_names [root] names
    rw [normalForm_eq_of_ne_nil (by simp [kept]), kept]
  | relative up names visible =>
    have kept : (List.replicate up parent ++ names.map name).foldl enter [] =
        List.replicate up parent ++ names.map name := by
      rw [List.foldl_append, foldl_enter_parents, ascend_nil, foldl_enter_names]
    rw [normalForm_eq_of_ne_nil (by rwa [kept]), kept]

theorem IsNormal.eq_of_current (normal : IsNormal components) (dot : current ∈ components) :
    components = [current] := by
  cases normal with
  | here => rfl
  | absolute names => simp at dot
  | relative up names => simp at dot

/-- In front of two dots there are only two dots. -/
theorem IsNormal.eq_parent {front back : List Component} (normal : IsNormal components)
    (shape : components = front ++ parent :: back) : ∀ c ∈ front, c = parent := by
  have dots : parent ∈ components := by simp [shape]
  cases normal with
  | here => simp at dots
  | absolute names => simp at dots
  | relative up names =>
    rcases List.append_eq_append_iff.mp shape with ⟨middle, -, isNames⟩ | ⟨middle, isDots, -⟩
    · have among : parent ∈ names.map name := by simp [isNames]
      simp at among
    · intro c member
      have among : c ∈ List.replicate up parent := by simp [isDots, member]
      exact List.eq_of_mem_replicate among

end Shape

section Levels

variable {path : List Component}

/-- How many names more than two dots stand among pieces. -/
def rise (path : List Component) : Int := path.length - 2 * path.count parent

theorem rise_enter_parent (arePieces : ∀ c ∈ path, c.IsPiece) : rise (enter path parent) = rise path - 1 := by
  rcases path.eq_nil_or_concat' with rfl | ⟨front, last, rfl⟩
  · rfl
  · rcases (arePieces last (by simp)).cases with rfl | ⟨text, rfl⟩
    · have shape : enter (front ++ [parent]) parent = front ++ [parent] ++ [parent] := by simp [enter]
      rw [shape]
      simp [rise]
      omega
    · rw [enter_name_parent]
      simp [rise]
      omega

theorem rise_ascended (arePieces : ∀ c ∈ path, c.IsPiece) (up : Nat) :
    rise ((enter · parent)^[up] path) = rise path - up ∧
      ∀ c ∈ (enter · parent)^[up] path, c.IsPiece := by
  induction up with
  | zero => simpa using arePieces
  | succ up ih =>
    rw [Function.iterate_succ_apply', rise_enter_parent ih.2, ih.1]
    refine ⟨by omega, ?_⟩
    exact @forall_foldl_enter _ [parent] _ (by simp [IsPiece, text, ofPiece?]) ih.2

theorem neg_rise_le_count (path : List Component) : -rise path ≤ path.count parent := by
  have fits := path.count_le_length (a := parent)
  rw [rise]
  omega

theorem length_walk_ge (arePieces : ∀ c ∈ path, c.IsPiece) (place : Location) :
    (place.length : Int) + rise path ≤ (walk place path).length := by
  induction path generalizing place with
  | nil => simp [rise, walk]
  | cons c rest ih =>
    rw [List.forall_mem_cons] at arePieces
    have deep := ih arePieces.2 (lead place c)
    rw [rise] at deep ⊢
    rw [walk, List.foldl_cons]
    rw [walk] at deep
    rcases arePieces.1.cases with rfl | ⟨text, rfl⟩
    · simp [lead] at deep ⊢
      omega
    · simp [lead] at deep ⊢
      omega

theorem length_ascended (place : Location) (up : Nat) :
    (List.dropLast^[up] place).length = place.length - up := by
  induction up with
  | zero => rfl
  | succ up ih => rw [Function.iterate_succ_apply', List.length_dropLast, ih, Nat.sub_sub]

/-- Two ascents that end at one place have both come to the root, and the longer leads above it. -/
theorem working_lt_count {working : Location} {levels more : Nat} (arePieces : ∀ c ∈ path, c.IsPiece)
    (longer : levels < more)
    (same : List.dropLast^[levels] (walk working path) = List.dropLast^[more] (walk working path)) :
    working.length < ((enter · parent)^[more] path).count parent := by
  have atRoot := congrArg List.length same
  rw [length_ascended, length_ascended] at atRoot
  have deep := length_walk_ge arePieces working
  have low := neg_rise_le_count ((enter · parent)^[more] path)
  rw [(rise_ascended arePieces more).1] at low
  omega

/-- Behind a first piece that differs, an ascent ends at that piece or some levels above the start. -/
theorem ascent_ends {up : Nat} (head : Option Component) (isPiece : ∀ c ∈ head, c.IsPiece) :
    (∃ text, up = 0 ∧ head = some (name text)) ∨
      ∃ levels, (∀ path, (enter · parent)^[up] (head.toList.foldl enter path) =
          (enter · parent)^[levels] path) ∧
        ∀ place, List.dropLast^[up] (walk place head.toList) = List.dropLast^[levels] place := by
  cases head with
  | none => exact .inr ⟨up, fun _ => rfl, fun _ => rfl⟩
  | some c =>
    rcases (isPiece c rfl).cases with rfl | ⟨text, rfl⟩
    · exact .inr ⟨up + 1, fun _ => rfl, fun _ => rfl⟩
    · cases up with
      | zero => exact .inl ⟨text, rfl, rfl⟩
      | succ up =>
        refine .inr ⟨up, fun path => ?_, fun place => ?_⟩
        · rw [Function.iterate_succ_apply]
          simp
        · rw [Function.iterate_succ_apply]
          simp [walk, lead]

/-- Walks that differ in one piece end at different places if their normal forms differ, unless one
of them leads above the root. -/
theorem foldl_enter_eq_of_walk_eq {working : Location} {trunk rest : List Component}
    {head head' : Option Component} (arePieces : ∀ c ∈ trunk ++ (head.toList ++ rest), c.IsPiece)
    (arePieces' : ∀ c ∈ trunk ++ (head'.toList ++ rest), c.IsPiece)
    (same : walk working (trunk ++ (head.toList ++ rest)) = walk working (trunk ++ (head'.toList ++ rest)))
    (low : ((trunk ++ (head.toList ++ rest)).foldl enter []).count parent ≤ working.length)
    (low' : ((trunk ++ (head'.toList ++ rest)).foldl enter []).count parent ≤ working.length) :
    (trunk ++ (head.toList ++ rest)).foldl enter [] = (trunk ++ (head'.toList ++ rest)).foldl enter [] := by
  simp only [List.forall_mem_append, Option.mem_toList] at arePieces arePieces'
  obtain ⟨up, down, inForm, onDisk⟩ := exists_net arePieces.2.2
  have start := @forall_foldl_enter _ _ [] arePieces.1 (by simp)
  have isStart : walk working trunk = walk working (trunk.foldl enter []) :=
    (walk_foldl_enter working [] trunk).symm
  have noneDown : (down.map name).count parent = 0 := by simp [List.count_eq_zero]
  simp only [List.foldl_append, walk_append, inForm, onDisk, List.append_cancel_right_eq, isStart,
    List.count_append, noneDown, Nat.add_zero] at same low low' ⊢
  generalize trunk.foldl enter [] = path at same start low low' ⊢
  -- an end at a piece lies deeper than the start, the other ends do not
  rcases @ascent_ends up head arePieces.2.1 with ⟨text, isZero, rfl⟩ | ⟨levels, form, disk⟩ <;>
    rcases @ascent_ends up head' arePieces'.2.1 with ⟨text', isZero', rfl⟩ | ⟨levels', form', disk'⟩
  · subst isZero
    have sameText : text = text' := by simpa [walk, lead] using same
    rw [sameText]
  · subst isZero
    rw [disk'] at same
    have deeper := congrArg List.length same
    rw [length_ascended, length_ascended] at deeper
    simp [walk, lead] at deeper
    omega
  · subst isZero'
    rw [disk] at same
    have deeper := congrArg List.length same
    rw [length_ascended, length_ascended] at deeper
    simp [walk, lead] at deeper
    omega
  · rw [form, form']
    rw [disk, disk'] at same
    rw [form] at low
    rw [form'] at low'
    rcases Nat.lt_trichotomy levels levels' with less | rfl | more
    · exact absurd (working_lt_count start less same) (Nat.not_lt.mpr low')
    · rfl
    · exact absurd (working_lt_count start more same.symm) (Nat.not_lt.mpr low)

end Levels

end Component

namespace Path

/-- The components of a path behind the root. -/
def trunk (p : Path) : List Component := p.pieces.filterMap ofPiece?

/-- Where a path leads from a working directory. -/
def place (working : Location) (p : Path) : Location := walk working p.components

/-- How many levels a path goes up. -/
def ascent (p : Path) : Nat := p.components.count .parent

theorem isPiece_trunk (p : Path) : ∀ c ∈ p.trunk, c.IsPiece := by
  intro c member
  obtain ⟨piece, isPiece, isSome⟩ := List.mem_filterMap.mp member
  obtain ⟨cs, found, rfl⟩ := List.mem_map.mp isPiece
  refine ⟨by rw [text_of_ofPiece? isSome, isSome], ?_⟩
  rw [text_of_ofPiece? isSome, String.toList_ofList]
  intro inside
  simpa using Text.sep_of_mem_pieces found '/' inside

theorem pieces_of_isAbsolute {p : Path} (absolute : p.isAbsolute = true) :
    ∃ piece rest, p.pieces = "" :: piece :: rest := by
  obtain ⟨cs, isText⟩ := List.head?_eq_some_iff.mp (of_decide_eq_true absolute)
  obtain ⟨piece, rest, shape⟩ := List.exists_cons_of_ne_nil (Text.pieces_ne_nil (· == '/') cs)
  refine ⟨.ofList piece, rest.map .ofList, ?_⟩
  rw [pieces, Text.splitOn, isText, Text.pieces_cons_sep (by rfl), shape]
  rfl

theorem pieces_of_not_isAbsolute {p : Path} (relative : p.isAbsolute = false) (piece : String)
    (rest : List String) : p.pieces ≠ "" :: piece :: rest := by
  intro shape
  have notSlash := of_decide_eq_false relative
  rw [pieces, Text.splitOn] at shape
  cases isText : p.text.toList with
  | nil =>
    rw [isText] at shape
    simp [Text.pieces] at shape
  | cons c cs =>
    rw [isText] at shape notSlash
    obtain ⟨first, others, found⟩ := List.exists_cons_of_ne_nil (Text.pieces_ne_nil (· == '/') cs)
    rw [Text.pieces_cons_other (by simpa using notSlash) found] at shape
    have first := (List.cons.inj shape).1
    simp [← String.toList_inj] at first

theorem components_eq (p : Path) :
    p.components = if p.isAbsolute then root :: p.trunk
      else if p.pieces.head? = some "." then current :: p.trunk else p.trunk := by
  rw [components]
  cases absolute : p.isAbsolute with
  | true =>
    obtain ⟨piece, rest, shape⟩ := pieces_of_isAbsolute absolute
    simp [shape, trunk]
  | false =>
    have notRoot := pieces_of_not_isAbsolute absolute
    split
    · next shape => exact absurd shape (notRoot _ _)
    · next rest shape => simp [shape, trunk, ofPiece?]
    · next notDot =>
      have notDot : p.pieces.head? ≠ some "." := by
        intro isDot
        obtain ⟨rest, shape⟩ := List.head?_eq_some_iff.mp isDot
        exact notDot rest shape
      simp [trunk, notDot]

theorem foldl_enter_components (p : Path) :
    p.components.foldl enter [] = p.trunk.foldl enter (if p.isAbsolute then [root] else []) := by
  rw [components_eq]
  split
  · rfl
  · split <;> rfl

theorem foldl_enter_of_isAbsolute {p : Path} (absolute : p.isAbsolute = true) :
    p.components.foldl enter [] = root :: (walk [] p.trunk).map name := by
  rw [foldl_enter_components, if_pos absolute]
  exact foldl_enter_root p.isPiece_trunk []

theorem place_eq (p : Path) (working : Location) :
    p.place working = walk (if p.isAbsolute then [] else working) p.trunk := by
  rw [place, components_eq]
  split
  · rfl
  · split <;> rfl

section Spelling

variable {components : List Component} (arePieces : ∀ c ∈ components, c.IsPiece)

include arePieces

theorem filterMap_texts : (components.map Component.text).filterMap ofPiece? = components := by
  induction components with
  | nil => rfl
  | cons c rest ih =>
    rw [List.forall_mem_cons] at arePieces
    rw [List.map_cons, List.filterMap_cons_some arePieces.1.1, ih arePieces.2]

theorem splitOn_texts (visible : components ≠ []) :
    Text.splitOn '/' (Text.join "/" (components.map Component.text)) = components.map Component.text :=
  Text.splitOn_join (by simpa using fun c member => (arePieces c member).2) (by simpa using visible)

theorem components_ofPieces (visible : components ≠ []) : (ofComponents components).components = components := by
  obtain ⟨c, rest, rfl⟩ := List.exists_cons_of_ne_nil visible
  have isFirst := (List.forall_mem_cons.mp arePieces).1
  have spelled : spell (c :: rest) = Text.join "/" ((c :: rest).map Component.text) := by
    cases c with
    | root => exact absurd isFirst.1 (by decide)
    | current | parent | name _ => rfl
  have isPieces : (ofComponents (c :: rest)).pieces = (c :: rest).map Component.text := by
    rw [pieces, ofComponents, spelled, splitOn_texts arePieces visible]
  have relative : (ofComponents (c :: rest)).isAbsolute = false := by
    apply Bool.eq_false_iff.mpr
    intro absolute
    obtain ⟨piece, others, shape⟩ := pieces_of_isAbsolute absolute
    rw [isPieces, List.map_cons] at shape
    have first := isFirst.1
    rw [(List.cons.inj shape).1] at first
    cases first
  have notDot : c.text ≠ "." := by
    intro dot
    have first := isFirst.1
    rw [dot] at first
    cases first
  rw [components_eq, relative, trunk, isPieces, filterMap_texts arePieces]
  simp [notDot]

theorem components_ofRoot : (ofComponents (root :: components)).components = root :: components := by
  have absolute : (ofComponents (root :: components)).isAbsolute = true := by
    simp [isAbsolute, ofComponents, spell]
  have isTrunk : (ofComponents (root :: components)).trunk = components := by
    have cut (s : String) : Text.splitOn '/' ("/" ++ s) = "" :: Text.splitOn '/' s := by
      rw [Text.splitOn, String.toList_append]
      exact congrArg (List.map String.ofList) (Text.pieces_cons_sep (by rfl) s.toList)
    rw [trunk, pieces, ofComponents, spell, cut]
    by_cases empty : components = []
    · subst empty
      rfl
    · rw [splitOn_texts arePieces empty]
      exact filterMap_texts arePieces
  rw [components_eq, absolute, isTrunk]
  rfl

end Spelling

theorem components_normalize (p : Path) : p.normalize.components = normalForm p.components := by
  rw [normalize]
  have isForm := p.foldl_enter_components
  cases absolute : p.isAbsolute with
  | true =>
    have behindRoot := foldl_enter_of_isAbsolute absolute
    have entered : ∀ c ∈ p.trunk.foldl enter [root], c = root ∨ c.IsPiece :=
      forall_foldl_enter (fun c member => .inr (p.isPiece_trunk c member)) (by simp)
    rw [absolute, if_pos rfl] at isForm
    rw [← isForm, behindRoot] at entered
    rw [normalForm_eq_of_ne_nil (by simp [behindRoot]), behindRoot]
    apply components_ofRoot
    intro c member
    rcases entered c (List.mem_cons_of_mem root member) with rfl | isPiece
    · simp at member
    · exact isPiece
  | false =>
    have arePieces := @forall_foldl_enter _ _ [] p.isPiece_trunk (by simp)
    rw [absolute, if_neg (by simp)] at isForm
    rw [← isForm] at arePieces
    by_cases empty : p.components.foldl enter [] = []
    · rw [normalForm, empty]
      decide
    · rw [normalForm_eq_of_ne_nil empty]
      exact components_ofPieces arePieces empty

/-- A path in normal form leads to the same place. -/
theorem place_normalize (p : Path) (working : Location) : p.normalize.place working = p.place working := by
  rw [place, components_normalize, walk_normalForm, place]

theorem isNormal_normalForm (p : Path) : IsNormal (normalForm p.components) := by
  cases absolute : p.isAbsolute with
  | true =>
    have isForm := foldl_enter_of_isAbsolute absolute
    rw [normalForm_eq_of_ne_nil (by simp [isForm]), isForm]
    exact .absolute _
  | false =>
    obtain ⟨up, down, inForm, -⟩ := exists_net p.isPiece_trunk
    have isForm : p.components.foldl enter [] = List.replicate up parent ++ down.map name := by
      rw [foldl_enter_components, absolute, if_neg (by simp), inForm, ascend_nil]
    by_cases empty : p.components.foldl enter [] = []
    · rw [normalForm, empty]
      exact .here
    · rw [normalForm_eq_of_ne_nil empty, isForm]
      exact .relative up down (isForm ▸ empty)

/-- Putting a path into normal form resolves its dots. Doing so again changes nothing. A dot is left
only where it is the whole path, nothing but two dots stands in front of two dots, and so the names
stand behind the root or behind some two dots. The path still leads to the same place from
everywhere. -/
theorem normalize_resolves_dots (p : Path) :
    p.normalize.normalize = p.normalize ∧
      (current ∈ p.normalize.components → p.normalize = here) ∧
      (∀ front back, p.normalize.components = front ++ parent :: back → ∀ c ∈ front, c = parent) ∧
      (p.normalize = here ∨ ∃ start names, p.normalize.components = start ++ List.map name names ∧
        (start = [root] ∨ ∃ up, start = List.replicate up parent)) ∧
      ∀ working, p.normalize.place working = p.place working := by
  have normal := p.isNormal_normalForm
  have isHere (alone : normalForm p.components = [current]) : p.normalize = here := by
    rw [normalize, alone]
    decide
  rw [components_normalize]
  refine ⟨?_, fun dot => isHere (normal.eq_of_current dot), fun front back => normal.eq_parent, ?_,
    p.place_normalize⟩
  · rw [normalize, components_normalize, normal.normalForm_eq, normalize]
  · generalize isForm : normalForm p.components = components at normal isHere
    cases normal with
    | here => exact .inl (isHere rfl)
    | absolute names => exact .inr ⟨[root], names, rfl, .inl rfl⟩
    | relative up names => exact .inr ⟨_, names, rfl, .inr ⟨up, rfl⟩⟩

section Targets

theorem toList_divide_subset (fileName : String) : ∀ c ∈ (divide fileName).1.toList, c ∈ fileName.toList := by
  intro c member
  rw [divide] at member
  split at member
  · exact member
  · exact member
  · next stem shape =>
    rw [String.toList_ofList, List.mem_reverse] at member
    have inside := List.mem_of_mem_drop (shape ▸ List.mem_cons_of_mem _ member)
    exact List.mem_reverse.mp inside

theorem mem_trunk_of_name {p : Path} {text : String} (member : name text ∈ p.components) :
    name text ∈ p.trunk := by
  rw [components_eq] at member
  split at member
  · simpa using member
  · split at member
    · simpa using member
    · exact member

theorem stem_slashless (p : Path) : ∀ c ∈ (p.stem?.getD "").toList, (c == '/') = false := by
  rw [stem?, fileName?]
  split
  · next text isLast =>
    have isPiece := p.isPiece_trunk _ (mem_trunk_of_name (List.mem_of_getLast? isLast))
    intro c member
    apply beq_eq_false_iff_ne.mpr
    rintro rfl
    exact isPiece.2 (toList_divide_subset text '/' member)
  · simp

/-- An extension is put behind the stem as it is put behind nothing. -/
theorem fileNameWith_eq (stem extension : String) :
    fileNameWith stem extension = stem ++ fileNameWith "" extension := by
  simp only [fileNameWith]
  split
  · rw [String.empty_append]
  · rw [String.empty_append, String.append_assoc]

theorem head_fileNameWith (p : Path) (extension : String) :
    (fileNameWith (p.stem?.getD "") extension).toList.head? ≠ some '/' := by
  rw [fileNameWith_eq, String.toList_append]
  have slashless := p.stem_slashless
  generalize (p.stem?.getD "").toList = stem at slashless ⊢
  cases stem with
  | nil =>
    simp only [fileNameWith]
    split
    · next plain =>
      rcases (Bool.or_eq_true _ _).mp plain with empty | dot
      · simp [of_decide_eq_true empty]
      · simp [of_decide_eq_true dot]
    · simp
  | cons c cs => simpa using slashless c List.mem_cons_self

theorem trunk_join (p : Path) (fileName : String) :
    (p.join fileName).trunk = p.trunk ++ (⟨fileName⟩ : Path).trunk := by
  rw [join]
  split
  · next empty => simp [trunk, pieces, empty, Text.splitOn, Text.pieces, ofPiece?]
  · have cut := @Text.pieces_append_sep (· == '/') '/' rfl p.text.toList fileName.toList
    simp [trunk, pieces, Text.splitOn, String.toList_append, cut]

theorem isAbsolute_join {p : Path} {fileName : String} (relative : fileName.toList.head? ≠ some '/') :
    (p.join fileName).isAbsolute = p.isAbsolute := by
  rw [join]
  split
  · next empty => simp [isAbsolute, empty, relative]
  · next visible =>
    obtain ⟨c, cs, isText⟩ := List.exists_cons_of_ne_nil (mt String.toList_eq_nil_iff.mp visible)
    simp [isAbsolute, isText]

/-- The trunks of all targets in a directory differ in one component. -/
theorem exists_trunk_target (outdir : Path) (extension : String) :
    ∃ (first : String) (rest : List Component), ∀ p : Path,
      (outdir.join (fileNameWith (p.stem?.getD "") extension)).trunk =
        outdir.trunk ++ ((ofPiece? (p.stem?.getD "" ++ first)).toList ++ rest) := by
  obtain ⟨first, others, shape⟩ := List.exists_cons_of_ne_nil
    (Text.pieces_ne_nil (· == '/') (fileNameWith "" extension).toList)
  refine ⟨.ofList first, (others.map String.ofList).filterMap ofPiece?, fun p => ?_⟩
  have isTrunk : (⟨p.stem?.getD "" ++ fileNameWith "" extension⟩ : Path).trunk =
      (ofPiece? (p.stem?.getD "" ++ .ofList first)).toList ++
        (others.map String.ofList).filterMap ofPiece? := by
    rw [trunk, pieces, Text.splitOn, String.toList_append,
      Text.pieces_append_of_none p.stem_slashless shape, List.map_cons, String.ofList_append,
      String.ofList_toList]
    cases isSome : ofPiece? (p.stem?.getD "" ++ .ofList first) with
    | none => rw [List.filterMap_cons_none isSome]; rfl
    | some c => rw [List.filterMap_cons_some isSome]; rfl
  rw [trunk_join, fileNameWith_eq, isTrunk]

theorem ascent_normalize (p : Path) : p.normalize.ascent = (p.components.foldl enter []).count parent := by
  rw [ascent, components_normalize, normalForm]
  split
  · next empty => rw [empty]; rfl
  · rfl

/-- Paths that differ in one piece lead to one place only if their normal forms are the same, unless
one of them leads above the root. -/
theorem normalize_eq_of_place_eq {p q : Path} {working : Location} {trunk rest : List Component}
    {head head' : Option Component} (isTrunk : p.trunk = trunk ++ (head.toList ++ rest))
    (isTrunk' : q.trunk = trunk ++ (head'.toList ++ rest)) (sameRoot : p.isAbsolute = q.isAbsolute)
    (same : p.place working = q.place working) (low : p.normalize.ascent ≤ working.length)
    (low' : q.normalize.ascent ≤ working.length) : p.normalize = q.normalize := by
  have arePieces := p.isPiece_trunk
  have arePieces' := q.isPiece_trunk
  rw [place_eq, place_eq, sameRoot] at same
  rw [ascent_normalize, foldl_enter_components] at low low'
  rw [sameRoot] at low
  suffices isForm : p.components.foldl enter [] = q.components.foldl enter [] by
    rw [normalize, normalize, normalForm, normalForm, isForm]
  rw [foldl_enter_components, foldl_enter_components, sameRoot]
  cases isRoot : q.isAbsolute with
  | true =>
    have behindRoot := foldl_enter_root arePieces []
    have behindRoot' := foldl_enter_root arePieces' []
    rw [isRoot] at same
    exact behindRoot.trans (.trans (congrArg (root :: List.map name ·) same) behindRoot'.symm)
  | false =>
    rw [isRoot] at same low low'
    rw [isTrunk] at arePieces same low ⊢
    rw [isTrunk'] at arePieces' same low' ⊢
    exact foldl_enter_eq_of_walk_eq arePieces arePieces' same low low'

/-- Targets of one directory and one extension that lead to one place are the same, unless one of
them leads above the root. -/
theorem target_eq_of_place_eq {x y outdir : Path} {extension : String} {working : Location}
    (same : (x.target outdir extension).place working = (y.target outdir extension).place working)
    (low : (x.target outdir extension).ascent ≤ working.length)
    (low' : (y.target outdir extension).ascent ≤ working.length) :
    x.target outdir extension = y.target outdir extension := by
  obtain ⟨first, rest, isTrunk⟩ := exists_trunk_target outdir extension
  have sameRoot : (outdir.join (fileNameWith (x.stem?.getD "") extension)).isAbsolute =
      (outdir.join (fileNameWith (y.stem?.getD "") extension)).isAbsolute := by
    rw [isAbsolute_join (head_fileNameWith x extension), isAbsolute_join (head_fileNameWith y extension)]
  rw [target, target, place_normalize, place_normalize] at same
  exact normalize_eq_of_place_eq (isTrunk x) (isTrunk y) sameRoot same low low'

end Targets

end Path

end SqlFerry
