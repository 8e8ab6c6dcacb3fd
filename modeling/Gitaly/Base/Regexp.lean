import Gitaly.Base.Text

/- Regular expressions over bytes. Of several matches the first one in the order of
preference counts: a greedy repetition prefers more, a reluctant one less. -/
namespace Regexp

open Text List Option

/-- A repetition is of a set of bytes. -/
inductive Expr where
  | empty
  | set (accepts : UInt8 → Bool)
  | seq (first second : Expr)
  | opt (body : Expr)
  | star (accepts : UInt8 → Bool)
  | reluctant (accepts : UInt8 → Bool)
  | group (number : Nat) (body : Expr)
  | lineEnd

def literal : Bytes → Expr
  | [] => .empty
  | c :: text => .seq (.set (· == c)) (literal text)

def times (accepts : UInt8 → Bool) : Nat → Expr
  | 0 => .empty
  | n + 1 => .seq (.set accepts) (times accepts n)

def plus (accepts : UInt8 → Bool) : Expr := .seq (.set accepts) (.star accepts)

def concat : List Expr → Expr
  | [] => .empty
  | expr :: rest => .seq expr (concat rest)

/-- What each group holds. One that takes no part in the match holds nothing. -/
abbrev Captures := Nat → Bytes

def Captures.set (captures : Captures) (number : Nat) (text : Bytes) : Captures :=
  fun other => if other = number then text else captures other

variable {α : Type}

def runStar (accepts : UInt8 → Bool) (next : Bytes → Option α) : Bytes → Option α
  | [] => next []
  | c :: rest =>
    if accepts c then (runStar accepts next rest).or (next (c :: rest)) else next (c :: rest)

def runReluctant (accepts : UInt8 → Bool) (next : Bytes → Option α) : Bytes → Option α
  | [] => next []
  | c :: rest =>
    (next (c :: rest)).or (if accepts c then runReluctant accepts next rest else none)

/-- What is taken of a text that leaves the rest. -/
def taken (text rest : Bytes) : Bytes := text.take (text.length - rest.length)

/-- The first way to match the expression at the start of a text that lets the rest
match. -/
def run : Expr → Bytes → Captures → (Bytes → Captures → Option α) → Option α
  | .empty, text, captures, next => next text captures
  | .set accepts, text, captures, next =>
    match text with
    | [] => none
    | c :: rest => if accepts c then next rest captures else none
  | .seq first second, text, captures, next =>
    run first text captures (fun rest captures => run second rest captures next)
  | .opt body, text, captures, next => (run body text captures next).or (next text captures)
  | .star accepts, text, captures, next => runStar accepts (fun rest => next rest captures) text
  | .reluctant accepts, text, captures, next =>
    runReluctant accepts (fun rest => next rest captures) text
  | .group number body, text, captures, next =>
    run body text captures (fun rest captures =>
      next rest (captures.set number (taken text rest)))
  | .lineEnd, text, captures, next =>
    if text.head?.all (· == newline) then next text captures else none

def matchAt (expr : Expr) (text : Bytes) : Option Captures :=
  run expr text (fun _ => []) (fun _ captures => some captures)

/-- From the start of a line after the first one. -/
def matchLater (expr : Expr) : Bytes → Option Captures
  | [] => none
  | c :: rest =>
    if c = newline then (matchAt expr rest).or (matchLater expr rest) else matchLater expr rest

/-- The leftmost match that starts where a line does. -/
def findSubmatch (expr : Expr) (text : Bytes) : Option Captures :=
  (matchAt expr text).or (matchLater expr text)

@[simp] theorem Captures.set_same (captures : Captures) (number : Nat) (text : Bytes) :
    captures.set number text number = text :=
  if_pos rfl

theorem Captures.set_other {captures : Captures} {number other : Nat} {text : Bytes}
    (different : other ≠ number) : captures.set number text other = captures other :=
  if_neg different

@[simp] theorem taken_append (text rest : Bytes) : taken (text ++ rest) rest = text := by
  simp [taken]

section run

variable {accepts : UInt8 → Bool} {text rest : Bytes} {captures : Captures}
  {next : Bytes → Captures → Option α} {result : α}

theorem run_set_cons (c : UInt8) :
    run (.set accepts) (c :: rest) captures next = if accepts c then next rest captures else none :=
  rfl

theorem run_opt (body : Expr) :
    run (.opt body) text captures next = (run body text captures next).or (next text captures) :=
  rfl

theorem run_star_eq :
    run (.star accepts) text captures next =
      runStar accepts (fun rest => next rest captures) text :=
  rfl

theorem run_reluctant_eq :
    run (.reluctant accepts) text captures next =
      runReluctant accepts (fun rest => next rest captures) text :=
  rfl

theorem run_seq (first second : Expr) :
    run (.seq first second) text captures next =
      run first text captures (fun rest captures => run second rest captures next) :=
  rfl

theorem run_group (number : Nat) (body : Expr) :
    run (.group number body) text captures next =
      run body text captures (fun rest captures =>
        next rest (captures.set number (taken text rest))) :=
  rfl

theorem run_concat (expr : Expr) (exprs : List Expr) :
    run (concat (expr :: exprs)) text captures next =
      run expr text captures (fun rest captures => run (concat exprs) rest captures next) :=
  rfl

theorem run_set {c : UInt8} (accepted : accepts c = true) :
    run (.set accepts) (c :: rest) captures next = next rest captures :=
  if_pos accepted

theorem run_literal (literally : Bytes) :
    run (literal literally) (literally ++ rest) captures next = next rest captures := by
  induction literally with
  | nil => rfl
  | cons c literally ih =>
    rw [literal, run_seq, cons_append, run_set_cons, if_pos BEq.rfl]
    exact ih

theorem run_literal_none {literally : Bytes} (different : ¬ literally <+: text) :
    run (literal literally) text captures next = none := by
  induction literally generalizing text with
  | nil => exact absurd nil_prefix different
  | cons c literally ih =>
    cases text with
    | nil => rfl
    | cons first text =>
      rw [literal, run_seq, run_set_cons]
      by_cases same : first = c
      · subst same
        rw [if_pos BEq.rfl]
        exact ih (fun found => different (prefix_cons_inj _ |>.mpr found))
      · simp [same]

theorem run_opt_none {body : Expr} (fails : run body text captures next = none) :
    run (.opt body) text captures next = next text captures := by
  rw [run_opt, fails, none_or]

theorem run_opt_some {body : Expr} (matched : run body text captures next = some result) :
    run (.opt body) text captures next = some result := by
  rw [run_opt, matched, some_or]

theorem run_times {n : Nat} (length : text.length = n) (accepted : ∀ c ∈ text, accepts c = true) :
    run (times accepts n) (text ++ rest) captures next = next rest captures := by
  subst length
  induction text with
  | nil => rfl
  | cons c text ih =>
    obtain ⟨first, accepted⟩ := forall_mem_cons.mp accepted
    rw [length_cons, times, run_seq, cons_append, run_set first]
    exact ih accepted

/-- A greedy repetition takes everything up to a byte it does not accept. -/
theorem run_star (accepted : ∀ c ∈ text, accepts c = true)
    (stops : rest.head?.all (fun c => !accepts c) = true)
    (matched : next rest captures = some result) :
    run (.star accepts) (text ++ rest) captures next = some result := by
  rw [run_star_eq]
  induction text with
  | nil =>
    cases rest with
    | nil => exact matched
    | cons c rest =>
      have rejected : accepts c = false := by simpa using stops
      rw [nil_append, runStar, rejected, if_neg Bool.false_ne_true]
      exact matched
  | cons c text ih =>
    obtain ⟨first, accepted⟩ := forall_mem_cons.mp accepted
    rw [cons_append, runStar, if_pos first, ih accepted, some_or]

theorem run_plus (nonempty : text ≠ []) (accepted : ∀ c ∈ text, accepts c = true)
    (stops : rest.head?.all (fun c => !accepts c) = true)
    (matched : next rest captures = some result) :
    run (plus accepts) (text ++ rest) captures next = some result := by
  obtain ⟨c, text, rfl⟩ := exists_cons_of_ne_nil nonempty
  obtain ⟨first, accepted⟩ := forall_mem_cons.mp accepted
  have whole := run_star accepted stops matched
  rw [plus, run_seq, cons_append, run_set first]
  exact whole

/-- A reluctant repetition takes the least that lets the rest match. -/
theorem run_reluctant (accepted : ∀ c ∈ text, accepts c = true)
    (least : ∀ before after, text = before ++ after → after ≠ [] →
      next (after ++ rest) captures = none)
    (matched : next rest captures = some result) :
    run (.reluctant accepts) (text ++ rest) captures next = some result := by
  rw [run_reluctant_eq]
  induction text with
  | nil => cases rest <;> simp [runReluctant, matched]
  | cons c text ih =>
    obtain ⟨first, accepted⟩ := forall_mem_cons.mp accepted
    have fails := least [] (c :: text) rfl (cons_ne_nil _ _)
    rw [cons_append] at fails ⊢
    rw [runReluctant, fails, none_or, if_pos first]
    exact ih accepted (fun before after same =>
      least (c :: before) after (congrArg (c :: ·) same))

theorem run_lineEnd_none {c : UInt8} (inside : c ≠ newline) :
    run .lineEnd (c :: rest) captures next = none := by
  simp [run, inside]

end run

variable {expr : Expr} {text : Bytes}

theorem findSubmatch_eq {captures : Captures} (matched : matchAt expr text = some captures) :
    findSubmatch expr text = some captures := by
  rw [findSubmatch, matched, some_or]

/-- A single line has no later start but its end. -/
theorem findSubmatch_line_none {line : Bytes} (plain : newline ∉ line)
    (first : matchAt expr (line ++ [newline]) = none) (last : matchAt expr [] = none) :
    findSubmatch expr (line ++ [newline]) = none := by
  have later : matchLater expr (line ++ [newline]) = none := by
    clear first
    induction line with
    | nil => simp [matchLater, last]
    | cons c line ih =>
      obtain ⟨other, plain⟩ := not_or.mp (mt mem_cons.mpr plain)
      rw [cons_append, matchLater, if_neg (Ne.symm other), ih plain]
  rw [findSubmatch, first, later, none_or]

end Regexp
