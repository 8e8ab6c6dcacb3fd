import Mathlib.Data.List.Basic
import Mathlib.Data.List.Infix

/- The `LIKE` operator of SQL, on lists of characters. -/
namespace Sql

open List

/-- A percent sign stands for any text, an underscore for any character, and a backslash
takes the meaning from the character that follows. -/
def like : List Char → List Char → Bool
  | [], text => text.isEmpty
  | '%' :: pattern, text => text.tails.any (like pattern)
  | '\\' :: escaped :: pattern, text =>
    match text with
    | [] => false
    | char :: rest => escaped = char && like pattern rest
  | '_' :: pattern, text =>
    match text with
    | [] => false
    | _ :: rest => like pattern rest
  | literal :: pattern, text =>
    match text with
    | [] => false
    | char :: rest => literal = char && like pattern rest

/-- Whether a text with the given beginning can match the pattern. -/
def meets : List Char → List Char → Bool
  | _, [] => true
  | [], _ :: _ => false
  | '%' :: _, _ :: _ => true
  | '\\' :: escaped :: pattern, char :: rest => escaped = char && meets pattern rest
  | '_' :: pattern, _ :: rest => meets pattern rest
  | literal :: pattern, char :: rest => literal = char && meets pattern rest

theorem like_percent_cons (pattern text : List Char) :
    like ('%' :: pattern) text = true ↔ ∃ rest, rest <:+ text ∧ like pattern rest = true := by
  simp [like]

/-- A text that matches the pattern. -/
def sample : List Char → List Char
  | [] => []
  | '%' :: pattern => sample pattern
  | '\\' :: escaped :: pattern => escaped :: sample pattern
  | '_' :: pattern => '_' :: sample pattern
  | literal :: pattern => literal :: sample pattern

theorem like_sample (pattern : List Char) : like pattern (sample pattern) = true := by
  fun_induction sample pattern with
  | case1 => rfl
  | case2 pattern ih => exact (like_percent_cons _ _).mpr ⟨_, suffix_rfl, ih⟩
  | case3 escaped pattern ih => simp [like, ih]
  | case4 pattern ih => simp [like, ih]
  | case5 literal pattern percent escape underscore ih => simp [like, ih]

theorem exists_like_append (pattern text : List Char) :
    (∃ rest, like pattern (text ++ rest) = true) ↔ meets pattern text = true := by
  fun_induction meets pattern text with
  | case1 pattern => exact iff_of_true ⟨sample pattern, like_sample pattern⟩ rfl
  | case2 char rest => simp [like]
  | case3 pattern char rest =>
    refine iff_of_true ⟨sample pattern, (like_percent_cons _ _).mpr ?_⟩ rfl
    exact ⟨sample pattern, suffix_append _ _, like_sample pattern⟩
  | case4 escaped pattern char rest ih => simp [like, ih]
  | case5 pattern char rest ih => simp [like, ih]
  | case6 literal pattern char rest percent escape underscore ih =>
    simp [like, ih]

end Sql
