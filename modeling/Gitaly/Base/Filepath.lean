import Gitaly.Base.Text
import Mathlib.Data.List.Induction

/- Lexical paths: elements between slashes, and the cleaning of a path, which looks at no file
system. -/
namespace Filepath

open Text List

def separator : UInt8 := 47

def dot : Bytes := [46]

def dotDot : Bytes := [46, 46]

variable (path : Bytes)

def elements : List Bytes := path.splitOn separator

def isAbs : Bool := path.head? == some separator

/-- One element after those that are kept, of which the last one comes first. -/
def push (rooted : Bool) (kept : List Bytes) (element : Bytes) : List Bytes :=
  if element = [] ∨ element = dot then kept
  else if element = dotDot then
    match kept with
    | [] => if rooted then [] else [dotDot]
    | last :: before => if last = dotDot then dotDot :: kept else before
  else element :: kept

/-- What is left of the elements of a path. -/
def cleaned : List Bytes := ((elements path).foldl (push (isAbs path)) []).reverse

/-- A path with these elements. -/
def render (rooted : Bool) (names : List Bytes) : Bytes :=
  (if rooted then [separator] else []) ++ [separator].intercalate names

/-- The shortest path that is lexically the same. -/
def clean : Bytes :=
  let text := render (isAbs path) (cleaned path)
  if text = [] then dot else text

/-- The parts that are not empty, with slashes between them and cleaned. -/
def join (parts : List Bytes) : Bytes :=
  if parts.filter (fun part => part ≠ []) = [] then []
  else clean ([separator].intercalate (parts.filter (fun part => part ≠ [])))

/-- The name of a file in a directory. -/
structure IsName (name : Bytes) : Prop where
  nonempty : name ≠ []
  notDot : name ≠ dot
  notDotDot : name ≠ dotDot
  plain : separator ∉ name

/-- The path is in a directory, or in one below it. -/
def Below (root path : Bytes) : Prop :=
  isAbs path = isAbs root ∧ ∃ rest, rest ≠ [] ∧ dotDot ∉ rest ∧ cleaned path = cleaned root ++ rest

/-- Elements that cannot be cleaned further, the last one first: names, and before these the
way up from where a path that is not rooted begins. -/
def Tidy (rooted : Bool) : List Bytes → Prop
  | [] => True
  | last :: before =>
    (IsName last ∧ Tidy rooted before) ∨
      (last = dotDot ∧ rooted = false ∧ ∀ element ∈ before, element = dotDot)

section tidy

variable {rooted : Bool} {kept : List Bytes}

theorem tidy_dotDots (relative : rooted = false) (ups : ∀ element ∈ kept, element = dotDot) :
    Tidy rooted kept := by
  cases kept with
  | nil => trivial
  | cons last before =>
    rw [forall_mem_cons] at ups
    exact .inr ⟨ups.1, relative, ups.2⟩

theorem Tidy.tail {last : Bytes} (tidy : Tidy rooted (last :: kept)) : Tidy rooted kept := by
  rcases tidy with ⟨_, before⟩ | ⟨_, relative, ups⟩
  · exact before
  · exact tidy_dotDots relative ups

theorem Tidy.of_append {later : List Bytes} (tidy : Tidy rooted (later ++ kept)) :
    Tidy rooted kept := by
  induction later with
  | nil => exact tidy
  | cons last later ih => exact ih tidy.tail

theorem Tidy.notMem_dotDot {later : List Bytes} {last : Bytes}
    (tidy : Tidy rooted (later ++ last :: kept)) (isName : last ≠ dotDot) : dotDot ∉ later := by
  induction later with
  | nil => exact not_mem_nil
  | cons element later ih =>
    rcases tidy with ⟨name, before⟩ | ⟨_, _, ups⟩
    · rw [mem_cons, not_or]
      exact ⟨Ne.symm name.notDotDot, ih before⟩
    · exact absurd (ups last (by simp)) isName

theorem Tidy.element (tidy : Tidy rooted kept) :
    ∀ element ∈ kept, element ≠ [] ∧ element ≠ dot ∧ separator ∉ element := by
  have up : dotDot ≠ [] ∧ dotDot ≠ dot ∧ separator ∉ dotDot := by decide
  induction kept with
  | nil => simp
  | cons last before ih =>
    rw [forall_mem_cons]
    refine ⟨?_, ih tidy.tail⟩
    rcases tidy with ⟨name, _⟩ | ⟨rfl, _⟩
    · exact ⟨name.nonempty, name.notDot, name.plain⟩
    · exact up

theorem tidy_push (tidy : Tidy rooted kept) {element : Bytes} (plain : separator ∉ element) :
    Tidy rooted (push rooted kept element) := by
  unfold push
  by_cases skipped : element = [] ∨ element = dot
  · rw [if_pos skipped]
    exact tidy
  rw [if_neg skipped]
  rw [not_or] at skipped
  by_cases up : element = dotDot
  · rw [if_pos up]
    cases kept with
    | nil =>
      cases rooted with
      | true => exact tidy
      | false => exact .inr ⟨rfl, rfl, by simp⟩
    | cons last before =>
      dsimp only
      by_cases again : last = dotDot
      · rw [if_pos again]
        rcases tidy with ⟨name, _⟩ | ⟨_, relative, ups⟩
        · exact absurd again name.notDotDot
        · exact .inr ⟨rfl, relative, forall_mem_cons.mpr ⟨again, ups⟩⟩
      · rw [if_neg again]
        exact tidy.tail
  · rw [if_neg up]
    exact .inl ⟨⟨skipped.1, skipped.2, up, plain⟩, tidy⟩

theorem push_of_tidy {element : Bytes} (tidy : Tidy rooted (element :: kept)) :
    push rooted kept element = element :: kept := by
  have kinds := tidy.element element mem_cons_self
  unfold push
  rw [if_neg (by simp [kinds.1, kinds.2.1])]
  rcases tidy with ⟨name, _⟩ | ⟨rfl, relative, ups⟩
  · rw [if_neg name.notDotDot]
  rw [if_pos rfl]
  cases kept with
  | nil => simp [relative]
  | cons last before => simp [ups last mem_cons_self]

theorem foldl_push_of_tidy {names : List Bytes} (tidy : Tidy rooted names.reverse) :
    names.foldl (push rooted) [] = names.reverse := by
  induction names using List.reverseRecOn with
  | nil => rfl
  | append_singleton names last ih =>
    rw [reverse_append] at tidy ⊢
    rw [foldl_append, ih tidy.tail]
    exact push_of_tidy tidy

end tidy

theorem elements_append (left right : Bytes) :
    elements (left ++ separator :: right) = elements left ++ elements right :=
  splitOn_append_cons_self left right

theorem elements_ne_nil : elements path ≠ [] := splitOn_ne_nil separator path

variable {names : List Bytes}

theorem elements_intercalate (plain : ∀ name ∈ names, separator ∉ name)
    (nonempty : names ≠ []) : elements ([separator].intercalate names) = names :=
  splitOn_intercalate separator plain nonempty

theorem tidy_foldl_push {rooted : Bool}
    (plain : ∀ element ∈ names, separator ∉ element) {kept : List Bytes}
    (tidy : Tidy rooted kept) : Tidy rooted (names.foldl (push rooted) kept) := by
  induction names generalizing kept with
  | nil => exact tidy
  | cons element names ih =>
    obtain ⟨first, others⟩ := forall_mem_cons.mp plain
    exact ih others (tidy_push tidy first)

theorem tidy_cleaned : Tidy (isAbs path) (cleaned path).reverse := by
  rw [cleaned, reverse_reverse]
  exact tidy_foldl_push (notMem_splitOn separator path) trivial

section render

variable {rooted : Bool}

theorem isAbs_render (tidy : Tidy rooted names.reverse) : isAbs (render rooted names) = rooted := by
  cases rooted with
  | true => rfl
  | false =>
    cases names with
    | nil => rfl
    | cons first names =>
      obtain ⟨nonempty, -, plain⟩ := tidy.element first (by simp)
      obtain ⟨c, text, rfl⟩ := exists_cons_of_ne_nil nonempty
      have other : c ≠ separator := by
        rintro rfl
        exact plain mem_cons_self
      cases names <;> simp [render, isAbs, intercalate_cons_cons, other]

theorem elements_render (tidy : Tidy rooted names.reverse) (nonempty : names ≠ []) :
    elements (render rooted names) = (if rooted then [[]] else []) ++ names := by
  have plain : ∀ name ∈ names, separator ∉ name :=
    fun name member => (tidy.element name (mem_reverse.mpr member)).2.2
  have whole := elements_intercalate plain nonempty
  cases rooted with
  | true =>
    have rooted_ := elements_append [] ([separator].intercalate names)
    rw [whole] at rooted_
    exact rooted_
  | false => exact whole

theorem cleaned_render (tidy : Tidy rooted names.reverse) :
    cleaned (render rooted names) = names := by
  rw [cleaned, isAbs_render tidy]
  by_cases nonempty : names = []
  · subst nonempty
    cases rooted <;> rfl
  have fold : (elements (render rooted names)).foldl (push rooted) [] = names.reverse := by
    rw [elements_render tidy nonempty, foldl_append, ← foldl_push_of_tidy tidy]
    cases rooted <;> rfl
  rw [fold, reverse_reverse]

end render

theorem cleaned_clean :
    isAbs (clean path) = isAbs path ∧ cleaned (clean path) = cleaned path := by
  have tidy := tidy_cleaned path
  unfold clean
  dsimp only
  split
  · rename_i empty
    have relative := isAbs_render tidy
    have same := cleaned_render tidy
    rw [empty] at relative same
    exact ⟨relative, same⟩
  · exact ⟨isAbs_render tidy, cleaned_render tidy⟩

/-- A path that is checked by its first bytes is below a root whose last element, if it has one,
is a name. -/
structure Guards (root : Bytes) : Prop where
  nonempty : root ≠ []
  named : (cleaned root).getLast? ≠ some dotDot

theorem clean_of_cleaned_nil {path : Bytes} (nothing : cleaned path = []) :
    clean path = if isAbs path then [separator] else dot := by
  unfold clean
  rw [nothing]
  cases isAbs path <;> rfl

theorem render_ne_nil {rooted : Bool} (tidy : Tidy rooted names.reverse)
    (nonempty : names ≠ []) : render rooted names ≠ [] := by
  intro empty
  have same := cleaned_render tidy
  rw [empty] at same
  exact nonempty same.symm

theorem clean_of_cleaned_ne_nil {path : Bytes} (nonempty : cleaned path ≠ []) :
    clean path = render (isAbs path) (cleaned path) :=
  if_neg (render_ne_nil (tidy_cleaned path) nonempty)

/-- A root that a cleaned path begins with has the first of its elements, and is as clean. -/
theorem elements_of_prefix {root rest path : Bytes} (nonempty : root ≠ [])
    (whole : root ++ separator :: rest = clean path) :
    ∃ names, names ≠ [] ∧ root = render (isAbs path) names ∧
      cleaned path = names ++ elements rest := by
  have long := length_pos_iff.mpr nonempty
  have several : cleaned path ≠ [] := by
    intro nothing
    have one : (clean path).length = 1 := by
      rw [clean_of_cleaned_nil nothing]
      cases isAbs path <;> rfl
    rw [← whole, length_append, length_cons] at one
    omega
  have split := elements_render (tidy_cleaned path) several
  rw [← clean_of_cleaned_ne_nil several, ← whole, elements_append] at split
  have text : root = [separator].intercalate (elements root) := (intercalate_splitOn separator).symm
  generalize isAbs path = rooted at split ⊢
  cases rooted with
  | false => exact ⟨elements root, elements_ne_nil root, text, split.symm⟩
  | true =>
    obtain ⟨first, names, parts⟩ := exists_cons_of_ne_nil (elements_ne_nil root)
    rw [parts] at split text
    obtain ⟨rfl, others⟩ := List.cons.inj split
    have more : names ≠ [] := by
      rintro rfl
      exact nonempty text
    refine ⟨names, more, ?_, others.symm⟩
    obtain ⟨second, names, rfl⟩ := exists_cons_of_ne_nil more
    rw [text, intercalate_cons_cons]
    rfl

/-- What is checked after it has been cleaned is below the root. -/
theorem below_of_prefix {root path : Bytes} (guards : Guards root)
    (starts : root ++ [separator] <+: clean path) : Below root (clean path) := by
  obtain ⟨rest, whole⟩ := starts
  rw [append_assoc, singleton_append] at whole
  obtain ⟨names, several, text, parts⟩ := elements_of_prefix guards.nonempty whole
  obtain ⟨rooted, same⟩ := cleaned_clean path
  have tidy := tidy_cleaned path
  rw [parts, reverse_append] at tidy
  have abs : isAbs root = isAbs path := by rw [text, isAbs_render tidy.of_append]
  have root_ : cleaned root = names := by rw [text, cleaned_render tidy.of_append]
  refine ⟨rooted.trans abs.symm, elements rest, elements_ne_nil rest, ?_, ?_⟩
  · have named := guards.named
    rw [root_, getLast?_eq_some_getLast several] at named
    have last : names.reverse = names.getLast several :: names.dropLast.reverse := by
      rw [← reverse_concat, dropLast_append_getLast]
    rw [last] at tidy
    have free := tidy.notMem_dotDot (fun up => named (congrArg some up))
    rwa [mem_reverse] at free
  · rw [same, parts, root_]

section rel

/-- What is left of both lists behind what they have in common. -/
def dropCommon : List Bytes → List Bytes → List Bytes × List Bytes
  | first :: base, other :: target =>
    if first = other then dropCommon base target else (first :: base, other :: target)
  | base, target => (base, target)

/-- The way from one path to another, if no name has to be known for it. -/
def rel (base target : Bytes) : Option Bytes :=
  if clean target = clean base then some dot
  else if isAbs base ≠ isAbs target then none
  else
    let (up, down) := dropCommon (cleaned base) (cleaned target)
    if up.head? = some dotDot then none
    else some ([separator].intercalate (up.map (fun _ => dotDot) ++ down))

variable {rest : List Bytes}

theorem dropCommon_append : dropCommon names (names ++ rest) = ([], rest) := by
  induction names with
  | nil => cases rest <;> rfl
  | cons name names ih => simp [dropCommon, ih]

theorem Tidy.isName (tidy : Tidy true names) : ∀ name ∈ names, IsName name := by
  induction names with
  | nil => simp
  | cons last before ih =>
    rcases tidy with ⟨name, before⟩ | ⟨_, relative, _⟩
    · exact forall_mem_cons.mpr ⟨name, ih before⟩
    · cases relative

theorem clean_of_isAbs {path : Bytes} (rooted : isAbs path = true) :
    clean path = render true (cleaned path) := by
  simp [clean, rooted, render]

theorem render_append {rooted : Bool} (named : names ≠ []) (more : rest ≠ []) :
    render rooted (names ++ rest) =
      render rooted names ++ separator :: [separator].intercalate rest := by
  have joined : [separator].intercalate (names ++ rest) =
      [separator].intercalate names ++ separator :: [separator].intercalate rest := by
    induction names with
    | nil => exact absurd rfl named
    | cons name names ih =>
      cases names with
      | nil =>
        obtain ⟨first, rest, rfl⟩ := exists_cons_of_ne_nil more
        simp [intercalate_cons_cons]
      | cons next names => simpa [intercalate_cons_cons] using ih (by simp)
  rw [render, render, joined, append_assoc]

end rel

end Filepath
