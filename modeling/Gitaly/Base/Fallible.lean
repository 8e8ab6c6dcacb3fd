/- Calls that return a value or an error, one after the other: what a sequence of them
that succeeds says about each. -/
namespace Fallible

open List

variable {ε ε' α β : Type}

/-- Goes on if the condition holds. -/
def require (condition : Prop) [Decidable condition] (err : ε) : Except ε Unit :=
  if condition then .ok () else .error err

theorem require_eq_ok {condition : Prop} [Decidable condition] {err : ε} {done : Unit} :
    require condition err = .ok done ↔ condition := by
  unfold require
  constructor
  · intro passed
    split at passed
    · assumption
    · cases passed
  · intro holds
    exact if_pos holds

theorem bind_eq_ok {first : Except ε α} {next : α → Except ε β} {result : β} :
    (first >>= next) = .ok result ↔ ∃ value, first = .ok value ∧ next value = .ok result := by
  cases first with
  | error err =>
    constructor
    · intro returned
      cases returned
    · intro found
      obtain ⟨value, absent, -⟩ := found
      cases absent
  | ok value =>
    constructor
    · intro returned
      exact ⟨value, rfl, returned⟩
    · intro found
      obtain ⟨other, same, returned⟩ := found
      cases same
      exact returned

theorem mapError_eq_ok {call : Except ε α} {wrap : ε → ε'} {value : α} :
    call.mapError wrap = .ok value ↔ call = .ok value := by
  cases call with
  | error err =>
    constructor
    all_goals
      intro returned
      cases returned
  | ok other =>
    constructor
    all_goals
      intro returned
      cases returned
      rfl

section loops

variable {σ : Type} {body : σ → α → Except ε σ} {state next last : σ} {item : α}
  {items others : List α}

theorem foldlM_cons_ok (first : body state item = .ok next) :
    (item :: items).foldlM body state = items.foldlM body next := by
  rw [foldlM_cons, first]
  rfl

theorem foldlM_append_ok (first : items.foldlM body state = .ok next) :
    (items ++ others).foldlM body state = others.foldlM body next := by
  rw [foldlM_append, first]
  rfl

theorem foldlM_cons_eq_ok :
    (item :: items).foldlM body state = .ok last ↔
      ∃ next, body state item = .ok next ∧ items.foldlM body next = .ok last := by
  rw [foldlM_cons, bind_eq_ok]

theorem foldlM_invariant (inv : σ → Prop)
    (kept : ∀ state, ∀ item ∈ items, ∀ next, inv state → body state item = .ok next → inv next)
    (initial : inv state) (runs : items.foldlM body state = .ok last) : inv last := by
  induction items generalizing state with
  | nil =>
    cases runs
    exact initial
  | cons item rest ih =>
    obtain ⟨next, taken, remaining⟩ := foldlM_cons_eq_ok.mp runs
    exact ih (fun state other member => kept state other (mem_cons_of_mem _ member))
      (kept state item mem_cons_self next initial taken) remaining

end loops

section gather

variable {call : α → Except ε (List β)}

/-- What a call returns, or nothing. -/
def returned (call : α → Except ε (List β)) (item : α) : List β := (call item).toOption.getD []

/-- The results of calls for one item after the other. -/
def gather (call : α → Except ε (List β)) (start : List β) (items : List α) : Except ε (List β) :=
  items.foldlM (fun results item => do
    let more ← call item
    return results ++ more) start

theorem gather_cons (start : List β) (item : α) (items : List α) :
    gather call start (item :: items) =
      (call item).bind (fun more => gather call (start ++ more) items) := by
  rw [gather, foldlM_cons]
  cases call item <;> rfl

theorem gather_eq_ok {start last : List β} {items : List α} :
    gather call start items = .ok last ↔
      (∀ item ∈ items, ∃ results, call item = .ok results) ∧
        last = start ++ items.flatMap (returned call) := by
  induction items generalizing start with
  | nil =>
    have same : gather call start [] = .ok start := rfl
    simp [same, eq_comm]
  | cons item items ih =>
    rw [gather_cons, forall_mem_cons, flatMap_cons]
    cases calls : call item with
    | error err => simp [Except.bind]
    | ok more =>
      have got : returned call item = more := by simp [returned, calls, Except.toOption]
      simp only [Except.bind, ih, got, append_assoc]
      simp

end gather

end Fallible
