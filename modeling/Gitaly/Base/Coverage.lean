import Mathlib.Data.List.Basic
import Mathlib.Logic.Function.Basic

/- Sites that hold copies of a growing set of writes. Each write is logged under a number,
and a site is labelled with a level: it has at least the writes logged up to there. -/
namespace Coverage

open List

variable {σ ω : Type}

/-- The content has every write that is logged under a number up to the level. -/
def Upto (log : List (ω × Int)) (level : Int) (content : List ω) : Prop :=
  ∀ entry ∈ log, entry.2 ≤ level → entry.1 ∈ content

variable {log : List (ω × Int)}

theorem Upto.grow {level : Int} {content larger : List ω}
    (holds : Upto log level content) (sub : content ⊆ larger) : Upto log level larger :=
  fun entry logged below => sub (holds entry logged below)

variable {content : List ω}

theorem Upto.lower {level lower : Int}
    (holds : Upto log level content) (le : lower ≤ level) : Upto log lower content :=
  fun entry logged below => holds entry logged (Int.le_trans below le)

/-- A write that is logged above the level is none of its concern. -/
theorem Upto.above {level number : Int} {write : ω}
    (holds : Upto log level content) (above : level < number) :
    Upto ((write, number) :: log) level content := by
  intro entry logged below
  rcases mem_cons.mp logged with rfl | old
  · exact absurd below (Int.not_le.mpr above)
  · exact holds entry old below

/-- The next write, at a content that has all that is logged so far. -/
theorem Upto.next {level : Int} {write : ω}
    (holds : Upto log level content) (bound : ∀ entry ∈ log, entry.2 ≤ level)
    (present : write ∈ content) : Upto ((write, level + 1) :: log) (level + 1) content := by
  intro entry logged _
  rcases mem_cons.mp logged with rfl | old
  · exact present
  · exact holds entry old (bound entry old)

/-- Every site has what its level says. -/
def Covered (level : σ → Option Int) (content : σ → List ω) (log : List (ω × Int)) : Prop :=
  ∀ site current, level site = some current → Upto log current (content site)

theorem covered_nil (level : σ → Option Int) (content : σ → List ω) : Covered level content [] :=
  fun _ _ _ _ absent => absurd absent not_mem_nil

variable {level : σ → Option Int} {content : σ → List ω}

/-- Sites may lose their label, and those that keep it may have more. -/
theorem Covered.restrict {fewer : σ → Option Int} {larger : σ → List ω}
    (covered : Covered level content log)
    (kept : ∀ site current, fewer site = some current →
      level site = some current ∧ content site ⊆ larger site) : Covered fewer larger log := by
  intro site current labelled
  obtain ⟨before, sub⟩ := kept site current labelled
  exact (covered site current before).grow sub

theorem Covered.grow {larger : σ → List ω} (covered : Covered level content log)
    (sub : ∀ site, content site ⊆ larger site) : Covered level larger log :=
  covered.restrict (fun site _ labelled => ⟨labelled, sub site⟩)

section write

variable [DecidableEq σ]

/-- A write that reaches one site takes nothing from any. -/
theorem subset_write (content : σ → List ω) (site : σ) (write : ω) (other : σ) :
    content other ⊆ Function.update content site (write :: content site) other := by
  by_cases same : other = site
  · subst same
    rw [Function.update_self]
    exact subset_cons_self _ _
  · rw [Function.update_of_ne same]
    exact List.Subset.refl _

theorem mem_write (content : σ → List ω) (site : σ) (write : ω) :
    write ∈ Function.update content site (write :: content site) site := by
  rw [Function.update_self]
  exact mem_cons_self

end write

/-- The sites of a set that are at the top are taken to the next level with a write that they
have. -/
theorem Covered.raise {raised : σ → Option Int} {top : Int} {write : ω}
    (covered : Covered level content log) (bound : ∀ entry ∈ log, entry.2 ≤ top)
    (below : ∀ site current, level site = some current → current ≤ top)
    (moves : ∀ site current, raised site = some current →
      level site = some current ∨
        level site = some top ∧ current = top + 1 ∧ write ∈ content site) :
    Covered raised content ((write, top + 1) :: log) := by
  intro site current labelled
  rcases moves site current labelled with same | ⟨atTop, rfl, present⟩
  · have le := below site current same
    exact (covered site current same).above (by omega)
  · exact (covered site top atTop).next bound present

end Coverage
