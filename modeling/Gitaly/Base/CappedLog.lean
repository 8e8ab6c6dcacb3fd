import Mathlib.Order.Lattice
import Mathlib.Data.List.DropRight
import Mathlib.Tactic.NthRewrite

/- A log of times in order, of which only the last ones are kept: what was recorded after a
certain time is a suffix of it. -/
namespace CappedLog

open List

variable {τ : Type} [LinearOrder τ] {log : List τ}

/-- The entries after a time. -/
def since (time : τ) (log : List τ) : List τ := log.filter (fun entry => time < entry)

/-- The entries up to a time. -/
def upTo (time : τ) (log : List τ) : List τ := log.filter (fun entry => entry ≤ time)

theorem mem_since {time entry : τ} : entry ∈ since time log ↔ entry ∈ log ∧ time < entry := by
  rw [since, mem_filter, decide_eq_true_iff]

theorem mem_upTo {time entry : τ} : entry ∈ upTo time log ↔ entry ∈ log ∧ entry ≤ time := by
  rw [upTo, mem_filter, decide_eq_true_iff]

section

variable (sorted : log.Pairwise (· ≤ ·)) (time : τ)
include sorted

theorem upTo_append_since : upTo time log ++ since time log = log := by
  induction log with
  | nil => rfl
  | cons first rest ih =>
    obtain ⟨least, restSorted⟩ := pairwise_cons.mp sorted
    by_cases old : first ≤ time
    · have tail := ih restSorted
      simp only [upTo, since] at tail ⊢
      rw [filter_cons_of_pos (by simpa using old),
        filter_cons_of_neg (by simpa using old), cons_append, tail]
    · -- everything that follows is at least as recent
      have recent : ∀ entry ∈ first :: rest, time < entry := by
        intro entry member
        rcases mem_cons.mp member with rfl | later
        · exact not_le.mp old
        · exact (not_le.mp old).trans_le (least entry later)
      have none : upTo time (first :: rest) = [] := by
        rw [upTo, filter_eq_nil_iff]
        intro entry member
        simpa using recent entry member
      have all : since time (first :: rest) = first :: rest := by
        rw [since, filter_eq_self]
        intro entry member
        exact decide_eq_true (recent entry member)
      rw [none, all, nil_append]

theorem length_upTo_add_since : (upTo time log).length + (since time log).length = log.length := by
  rw [← length_append, upTo_append_since sorted]

theorem findIdx?_since :
    log.findIdx? (fun entry => time < entry) =
      if since time log = [] then none else some (upTo time log).length := by
  have passed : (upTo time log).findIdx? (fun entry => time < entry) = none := by
    rw [findIdx?_eq_none_iff]
    intro entry member
    simpa using (mem_upTo.mp member).2
  nth_rewrite 1 [← upTo_append_since sorted time]
  rw [findIdx?_append, passed, Option.none_or]
  cases found : since time log with
  | nil => rfl
  | cons first rest =>
    have recent := (mem_since.mp (found ▸ mem_cons_self)).2
    rw [findIdx?_cons, if_pos (decide_eq_true recent), if_neg (cons_ne_nil _ _),
      Option.map_some, Nat.zero_add]

theorem drop_upTo : log.drop (upTo time log).length = since time log := by
  nth_rewrite 2 [← upTo_append_since sorted time]
  exact drop_left

end

/-- What was recorded after a time does not depend on what was cleared up to it. -/
theorem since_since {earlier later : τ} (order : earlier ≤ later) :
    since later (since earlier log) = since later log := by
  rw [since, since, filter_filter, since]
  apply filter_congr
  intro entry _
  by_cases recent : later < entry
  · simp [recent, order.trans_lt recent]
  · simp [recent]

omit [LinearOrder τ] in
theorem rtake_snoc (log : List τ) (cap : Nat) (entry : τ) :
    (log ++ [entry]).rtake cap =
      if cap < (log.rtake cap ++ [entry]).length then (log.rtake cap ++ [entry]).drop 1
      else log.rtake cap ++ [entry] := by
  unfold List.rtake
  simp only [length_append, length_drop, length_singleton]
  by_cases full : cap ≤ log.length
  · rw [if_pos (by omega), ← drop_append_of_le_length (by omega), drop_drop]
    congr 1
    omega
  · have whole : log.length + 1 - cap = 0 := by omega
    have before : log.length - cap = 0 := by omega
    rw [if_neg (by omega), whole, before, drop_zero, drop_zero]

theorem since_rtake (sorted : log.Pairwise (· ≤ ·)) (time : τ) (cap : Nat) :
    since time (log.rtake cap) = (since time log).rtake cap := by
  have recent : ∀ kept, (∀ entry ∈ kept, entry ∈ since time log) → since time kept = kept := by
    intro kept all
    rw [since, filter_eq_self]
    exact fun entry member => decide_eq_true (mem_since.mp (all entry member)).2
  have split : ∀ n, log.drop n = (upTo time log ++ since time log).drop n :=
    fun n => by rw [upTo_append_since sorted time]
  have count := length_upTo_add_since sorted time
  unfold List.rtake
  by_cases few : cap ≤ (since time log).length
  · -- only entries after the time are kept
    have kept : log.drop (log.length - cap) =
        (since time log).drop ((since time log).length - cap) := by
      rw [split, drop_append, drop_eq_nil_iff.mpr (by omega), nil_append]
      congr 1
      omega
    rw [kept]
    exact recent _ (fun entry member => mem_of_mem_drop member)
  · -- the entries after the time are all kept, behind some that are not
    have kept : log.drop (log.length - cap) =
        (upTo time log).drop (log.length - cap) ++ since time log := by
      rw [split, drop_append_of_le_length (by omega)]
    have old : since time ((upTo time log).drop (log.length - cap)) = [] := by
      rw [since, filter_eq_nil_iff]
      intro entry member
      simpa using (mem_upTo.mp (mem_of_mem_drop member)).2
    have whole : (since time log).length - cap = 0 := by omega
    rw [kept, whole, drop_zero]
    unfold since at old ⊢
    rw [filter_append, old, nil_append, filter_filter]
    simp

end CappedLog
