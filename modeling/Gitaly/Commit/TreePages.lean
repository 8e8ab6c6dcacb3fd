import Gitaly.Base.Text

/- The pages of a tree listing, as internal/gitaly/service/commit cuts them. The cursor of a
page is the object id of its last entry, which is looked for in the whole list again. -/
namespace Gitaly.Commit

open Text List Option

inductive EntryType where
  | blob
  | tree
  | commit
deriving DecidableEq

structure TreeEntry where
  commitOid : Bytes
  rootOid : Bytes
  oid : Bytes
  path : Bytes
  type : EntryType
  mode : Int
deriving DecidableEq

structure PaginationParameter where
  pageToken : Bytes
  limit : Int
deriving DecidableEq

inductive PaginationError where
  | couldNotFindStartingOID (start : Bytes)
deriving DecidableEq

/-- The place after the first entry that has the token. -/
def startIndex (entries : List TreeEntry) (start : Bytes) : Option Nat :=
  if start = [] then some 0
  else (entries.findIdx? (fun entry => entry.oid = start)).map (· + 1)

/-- A page and the cursor of the next one, which is empty if there is none. -/
def paginateTreeEntries (entries : List TreeEntry) (p : PaginationParameter) :
    Except PaginationError (List TreeEntry × Bytes) :=
  match startIndex entries p.pageToken with
  | none => .error (.couldNotFindStartingOID p.pageToken)
  | some index =>
    if p.limit = 0 then .ok ([], [])
    else if p.limit < 0 ∨ (index : Int) + p.limit ≥ entries.length then
      .ok (entries.drop index, [])
    else
      let paginated := (entries.drop index).take p.limit.toNat
      .ok (paginated, (paginated.getLast?.map TreeEntry.oid).getD [])

/-- The pages that one gets who passes each cursor as the next token, if this comes to an end. -/
def followCursors (entries : List TreeEntry) (limit : Int) :
    Nat → Bytes → Option (List (List TreeEntry))
  | 0, _ => none
  | calls + 1, token =>
    match paginateTreeEntries entries ⟨token, limit⟩ with
    | .error _ => none
    | .ok (page, cursor) =>
      if cursor = [] then some [page]
      else (followCursors entries limit calls cursor).map (page :: ·)

/-- The cursors lead through the list: after finitely many calls there is none, and the pages
make up the list. -/
def Complete (entries : List TreeEntry) (limit : Int) : Prop :=
  ∃ calls pages, followCursors entries limit calls [] = some pages ∧ pages.flatten = entries

/-- No entry before the last one of a page has the object id of that one. -/
def CursorsUnique (entries : List TreeEntry) (limit : Nat) : Prop :=
  ∀ page last, last + 1 = (page + 1) * limit → last + 1 < entries.length →
    ∀ earlier < last, (entries[earlier]?).map TreeEntry.oid ≠ (entries[last]?).map TreeEntry.oid

section pages

variable {entries : List TreeEntry} {limit : Nat}

section

variable {index : Nat} {token : Bytes} (starts : startIndex entries token = some index)
  (positive : 0 < limit)
include starts positive

theorem paginate_last (rest : entries.length ≤ index + limit) :
    paginateTreeEntries entries ⟨token, limit⟩ = .ok (entries.drop index, []) := by
  unfold paginateTreeEntries
  simp only [starts]
  rw [if_neg (by omega), if_pos (by omega)]

theorem paginate_page (more : index + limit < entries.length) :
    ∃ last, entries[index + limit - 1]? = some last ∧
      paginateTreeEntries entries ⟨token, limit⟩ =
        .ok ((entries.drop index).take limit, last.oid) := by
  have inside : index + limit - 1 < entries.length := by omega
  refine ⟨entries[index + limit - 1], getElem?_eq_getElem inside, ?_⟩
  have lastOf : ((entries.drop index).take limit).getLast? = some entries[index + limit - 1] := by
    rw [getLast?_eq_getElem?, length_take, length_drop,
      getElem?_take_of_lt (by omega), getElem?_drop, getElem?_eq_some_iff]
    have same : index + (min limit (entries.length - index) - 1) = index + limit - 1 := by omega
    exact ⟨by omega, by simp only [same]⟩
  unfold paginateTreeEntries
  simp only [starts]
  rw [if_neg (by omega), if_neg (by omega), Int.toNat_natCast, lastOf]
  rfl

end

section

variable {entry : TreeEntry} {place : Nat} (found : entries[place]? = some entry)
  (named : entry.oid ≠ [])
include found named

/-- The token of an entry leads to the place after the first entry that has it. -/
theorem startIndex_oid :
    ∃ first ≤ place, startIndex entries entry.oid = some (first + 1) ∧
      (entries[first]?).map TreeEntry.oid = some entry.oid ∧
      ∀ earlier < first, (entries[earlier]?).map TreeEntry.oid ≠ some entry.oid := by
  obtain ⟨inside, same⟩ := List.getElem?_eq_some_iff.mp found
  have exists_ : (entries.findIdx? (fun other => decide (other.oid = entry.oid))).isSome := by
    rw [List.findIdx?_isSome, List.any_eq_true]
    exact ⟨entry, mem_of_getElem? found, by simp⟩
  obtain ⟨first, finds⟩ := isSome_iff_exists.mp exists_
  obtain ⟨bound, is, before⟩ := findIdx?_eq_some_iff_getElem.mp finds
  refine ⟨first, ?_, ?_, ?_, ?_⟩
  · by_contra beyond
    have other := before place (by omega)
    rw [same] at other
    simp at other
  · rw [startIndex, if_neg named, finds]
    rfl
  · rw [getElem?_eq_getElem bound]
    simpa using is
  · intro earlier below
    rw [getElem?_eq_getElem (by omega)]
    simpa using before earlier below

theorem startIndex_of_unique
    (unique : ∀ earlier < place, (entries[earlier]?).map TreeEntry.oid ≠ some entry.oid) :
    startIndex entries entry.oid = some (place + 1) := by
  obtain ⟨first, bound, starts, same, -⟩ := startIndex_oid found named
  by_cases here : first = place
  · rw [starts, here]
  · exact absurd same (unique first (by omega))

end

variable (positive : 0 < limit) (named : ∀ entry ∈ entries, entry.oid ≠ [])
include positive named

/-- Cursors that are unique lead from page to page. -/
theorem follow_of_unique {index : Nat} {token : Bytes} (remaining : Nat)
    (starts : startIndex entries token = some index) (enough : entries.length ≤ index + remaining)
    (unique : ∀ page last, last + 1 = index + (page + 1) * limit → last + 1 < entries.length →
      ∀ earlier < last,
        (entries[earlier]?).map TreeEntry.oid ≠ (entries[last]?).map TreeEntry.oid) :
    ∃ pages, followCursors entries limit (remaining + 1) token = some pages ∧
      pages.flatten = entries.drop index := by
  induction remaining generalizing index token with
  | zero =>
    refine ⟨[entries.drop index], ?_, by simp⟩
    rw [followCursors, paginate_last starts positive (by omega)]
    rfl
  | succ remaining ih =>
    by_cases more : index + limit < entries.length
    · obtain ⟨last, found, paginates⟩ := paginate_page starts positive more
      have lastNamed := named last (mem_of_getElem? found)
      have next : startIndex entries last.oid = some (index + limit) := by
        have here : index + limit - 1 + 1 = index + limit := by omega
        rw [← here]
        refine startIndex_of_unique found lastNamed (fun earlier before => ?_)
        have differs := unique 0 (index + limit - 1) (by omega) (by omega) earlier before
        rwa [found, map_some] at differs
      obtain ⟨pages, follows, whole⟩ := ih next (by omega) (by
        intro page last_ place inside
        refine unique (page + 1) last_ ?_ inside
        rw [place, Nat.add_mul (page + 1) 1 limit]
        omega)
      refine ⟨(entries.drop index).take limit :: pages, ?_, ?_⟩
      · rw [followCursors, paginates]
        simp only [if_neg lastNamed, follows, map_some]
      · rw [flatten_cons, whole, ← drop_drop, take_append_drop]
    · refine ⟨[entries.drop index], ?_, by simp⟩
      rw [followCursors, paginate_last starts positive (by omega)]
      rfl

/-- Pages that come to an end have at least what is left, and more unless every cursor on the
way was unique. -/
theorem length_follow {index calls : Nat} {token : Bytes} {pages : List (List TreeEntry)}
    (starts : startIndex entries token = some index)
    (follows : followCursors entries limit calls token = some pages) :
    entries.length ≤ index + pages.flatten.length ∧
      (index + pages.flatten.length ≤ entries.length →
        ∀ page last, last + 1 = index + (page + 1) * limit → last + 1 < entries.length →
          ∀ earlier < last,
            (entries[earlier]?).map TreeEntry.oid ≠ (entries[last]?).map TreeEntry.oid) := by
  induction calls generalizing index token pages with
  | zero => simp [followCursors] at follows
  | succ calls ih =>
    by_cases more : index + limit < entries.length
    · obtain ⟨last, found, paginates⟩ := paginate_page starts positive more
      have lastNamed := named last (mem_of_getElem? found)
      rw [followCursors, paginates] at follows
      simp only [if_neg lastNamed] at follows
      obtain ⟨rest, inner, rfl⟩ := map_eq_some_iff.mp follows
      obtain ⟨first, bound, next, -, differs⟩ := startIndex_oid found lastNamed
      obtain ⟨least, unique⟩ := ih next inner
      have size : ((entries.drop index).take limit).length = limit := by
        rw [length_take, length_drop]
        omega
      rw [flatten_cons, length_append, size]
      refine ⟨by omega, fun fits => ?_⟩
      have here : first = index + limit - 1 := by omega
      subst here
      intro page place at_ inside earlier before
      cases page with
      | zero =>
        have end_ : place = index + limit - 1 := by omega
        rw [end_] at before ⊢
        rw [found, map_some]
        exact differs earlier before
      | succ page =>
        refine unique (by omega) page place ?_ inside earlier before
        rw [at_, Nat.add_mul (page + 1) 1 limit]
        omega
    · rw [followCursors, paginate_last starts positive (by omega)] at follows
      cases follows
      simp only [flatten_cons, flatten_nil, append_nil, length_drop]
      refine ⟨by omega, fun _ page last place inside => ?_⟩
      have step : limit ≤ (page + 1) * limit := Nat.le_mul_of_pos_left limit (by omega)
      omega

/-- The pages are complete just if the object id of each page's last entry does not occur before
it. -/
theorem complete_iff_cursorsUnique : Complete entries limit ↔ CursorsUnique entries limit := by
  have starts : startIndex entries [] = some 0 := rfl
  constructor
  · rintro ⟨calls, pages, follows, whole⟩
    obtain ⟨-, unique⟩ := length_follow positive named starts follows
    intro page last place inside
    refine unique ?_ page last (by omega) inside
    rw [whole]
    omega
  · intro unique
    obtain ⟨pages, follows, whole⟩ :=
      follow_of_unique positive named entries.length starts (by omega) (by
        intro page last place inside
        exact unique page last (by omega) inside)
    exact ⟨entries.length + 1, pages, follows, by rw [whole, drop_zero]⟩

end pages

/-- A file at the top of the tree. -/
def fileEntry (name : String) (digit : UInt8) : TreeEntry :=
  ⟨replicate 40 48, replicate 40 48, replicate 40 digit, ascii name, .blob, 33188⟩

/-- Four files of which the third one has the content of the first one. -/
def copiedFile : List TreeEntry :=
  [fileEntry "LICENSE" 97, fileEntry "README" 98, fileEntry "lib-LICENSE" 97, fileEntry "main" 99]

/-- The cursor of the third page leads back to the second one. -/
theorem copiedFile_incomplete : ¬ Complete copiedFile 1 := by
  have back (calls : Nat) : followCursors copiedFile 1 calls (replicate 40 97) = none ∧
      followCursors copiedFile 1 calls (replicate 40 98) = none := by
    induction calls with
    | zero => exact ⟨rfl, rfl⟩
    | succ calls ih =>
      have second : paginateTreeEntries copiedFile ⟨replicate 40 97, 1⟩ =
          .ok ([fileEntry "README" 98], replicate 40 98) := by decide
      have third : paginateTreeEntries copiedFile ⟨replicate 40 98, 1⟩ =
          .ok ([fileEntry "lib-LICENSE" 97], replicate 40 97) := by decide
      constructor
      · rw [followCursors, second]
        simp only [if_neg (by decide : replicate 40 (98 : UInt8) ≠ []), ih.2]
        rfl
      · rw [followCursors, third]
        simp only [if_neg (by decide : replicate 40 (97 : UInt8) ≠ []), ih.1]
        rfl
  rintro ⟨calls, pages, follows, -⟩
  have first : paginateTreeEntries copiedFile ⟨[], 1⟩ =
      .ok ([fileEntry "LICENSE" 97], replicate 40 97) := by decide
  cases calls with
  | zero => simp [followCursors] at follows
  | succ calls =>
    rw [followCursors, first] at follows
    simp only [if_neg (by decide : replicate 40 (97 : UInt8) ≠ []), (back calls).1] at follows
    cases follows

/-- Two entries of one content are listed when neither ends a page. -/
theorem copiedFile_complete : Complete copiedFile (2 : Nat) := by
  refine (complete_iff_cursorsUnique (by decide) (by decide)).mpr ?_
  intro page last place inside earlier before
  have length : copiedFile.length = 4 := rfl
  have second : page = 0 ∧ last = 1 ∧ earlier = 0 := by omega
  obtain ⟨rfl, rfl, rfl⟩ := second
  decide

end Gitaly.Commit
