import Gitaly.Git.DiffOutput

/- Paths that git prints in quotes, and what the parser reads of them. -/
namespace Gitaly.DiffParser

open Text Regexp Numeral List

variable (quotePath : Bool)

/-- A byte for which git puts a path in quotes. Those beyond ASCII are quoted if
`core.quotePath` is set. -/
def mustQuote (c : UInt8) : Bool :=
  c < 32 || c == 34 || c == 92 || c == 127 || (quotePath && 128 ≤ c)

/-- The bytes that have an escape of one letter: `\a \b \t \n \v \f \r \" \\`. -/
def escapeLetter (c : UInt8) : Option UInt8 :=
  if c = 7 then some 97
  else if c = 8 then some 98
  else if c = 9 then some 116
  else if c = 10 then some 110
  else if c = 11 then some 118
  else if c = 12 then some 102
  else if c = 13 then some 114
  else if c = 34 ∨ c = 92 then some c
  else none

def quoteByte (c : UInt8) : Bytes :=
  match escapeLetter c with
  | some letter => [92, letter]
  | none => if mustQuote quotePath c then 92 :: padded 8 3 c.toNat else [c]

/-- A path as git prints it. -/
def quoteCStyle (p : Bytes) : Bytes :=
  if p.any (mustQuote quotePath) then [34] ++ p.flatMap (quoteByte quotePath) ++ [34] else p

/-- The paths of a raw line: two for a rename or a copy. -/
def quotedPaths (status : Status) (fromPath toPath : Bytes) : Bytes :=
  if status = .renamed ∨ status = .copied then
    quoteCStyle quotePath fromPath ++ (ascii "\t" ++ quoteCStyle quotePath toPath)
  else quoteCStyle quotePath fromPath

/-- What the parser makes of a byte: two escapes it does not know. -/
def decoded (c : UInt8) : Bytes := if c = 7 then [92, 97] else if c = 11 then [92, 118] else [c]

section bytes

variable {quotePath : Bool} {c : UInt8} {letter : UInt8}

theorem octalByte_letter (other : (ascii "1234567890").contains letter = false)
    (second third : UInt8) : octalByte [letter, second, third] = none := by
  simp only [octalByte, isNumber, all_cons, other, Bool.false_and, Bool.false_eq_true, if_false]

theorem unescape_letter (other : (ascii "1234567890").contains letter = false)
    (rest : Bytes) : unescape (92 :: letter :: rest) = unescapeByte letter ++ unescape rest := by
  rcases rest with _ | ⟨second, _ | ⟨third, rest⟩⟩
  · simp [unescape]
  · simp [unescape]
  · rw [unescape, if_pos rfl]
    simp only [octalByte_letter other]

theorem escapeLetter_spec (escaped : escapeLetter c = some letter) :
    (ascii "1234567890").contains letter = false ∧ unescapeByte letter = decoded c := by
  unfold escapeLetter at escaped
  split_ifs at escaped with bell back tab line vertical feed carriage other
  all_goals
    cases escaped
    first
      | subst_vars; decide
      | rcases other with rfl | rfl <;> decide

theorem decoded_of_escapeLetter_none (plain : escapeLetter c = none) : decoded c = [c] := by
  unfold escapeLetter at plain
  split_ifs at plain with bell back tab line vertical
  rw [decoded, if_neg bell, if_neg vertical]

theorem contains_of_digit (isDigit : digit c = true) : (ascii "1234567890").contains c = true := by
  simp only [digit, Bool.and_eq_true, decide_eq_true_eq, UInt8.le_iff_toNat_le] at isDigit
  obtain ⟨low, high⟩ := isDigit
  have code : c = UInt8.ofNat c.toNat := UInt8.ofNat_toNat.symm
  change 48 ≤ c.toNat at low
  change c.toNat ≤ 57 at high
  rw [code]
  generalize c.toNat = n at low high
  interval_cases n <;> decide

theorem octalByte_padded (c : UInt8) : octalByte (padded 8 3 c.toNat) = some c := by
  have bound : c.toNat < 256 := c.toNat_lt
  have digits : isNumber (padded 8 3 c.toNat) = true := by
    rw [isNumber, all_eq_true]
    intro d member
    obtain ⟨value, small, valued⟩ := digitValue_of_mem_padded (by omega) (by omega) member
    exact contains_of_digit (digit_of_digitValue (by omega) valued)
  have number : parseUint 8 (padded 8 3 c.toNat) = some c.toNat :=
    parseUint_padded (by omega) (by omega) (by omega) (by omega)
  rw [octalByte, if_pos digits, number]
  simp [Option.filter, bound]

theorem unescape_octal (c : UInt8) (rest : Bytes) :
    unescape (92 :: padded 8 3 c.toNat ++ rest) = c :: unescape rest := by
  obtain ⟨first, second, third, digits⟩ :
      ∃ first second third, padded 8 3 c.toNat = [first, second, third] :=
    length_eq_three.mp (padded_length 3 _)
  have octal := octalByte_padded c
  rw [digits] at octal ⊢
  simp only [cons_append, nil_append]
  rw [unescape, if_pos rfl]
  simp only [octal]

theorem unescape_quoteByte (c : UInt8) (rest : Bytes) :
    unescape (quoteByte quotePath c ++ rest) = decoded c ++ unescape rest := by
  unfold quoteByte
  cases escaped : escapeLetter c with
  | some letter =>
    obtain ⟨other, same⟩ := escapeLetter_spec escaped
    simp only [cons_append, nil_append]
    rw [unescape_letter other, same]
  | none =>
    rw [decoded_of_escapeLetter_none escaped]
    dsimp only
    split
    · exact unescape_octal c rest
    rename_i plain
    have other : c ≠ 92 := by
      rintro rfl
      exact plain (by simp [mustQuote])
    simp only [cons_append, nil_append]
    rw [unescape.eq_def (c :: rest)]
    exact if_neg other

/-- Everything git prints of a path can be seen. -/
theorem le_of_mem_quoteByte {d : UInt8} (member : d ∈ quoteByte quotePath c) : 32 ≤ d := by
  unfold quoteByte at member
  cases escaped : escapeLetter c with
  | some letter =>
    rw [escaped] at member
    unfold escapeLetter at escaped
    split_ifs at escaped with bell back tab line vertical feed carriage other
    all_goals
      cases escaped
      simp only [mem_cons, not_mem_nil, or_false] at member
      rcases member with rfl | rfl
    all_goals first
      | decide
      | rcases other with rfl | rfl <;> decide
  | none =>
    rw [escaped] at member
    dsimp only at member
    split at member
    · rcases mem_cons.mp member with rfl | digits
      · decide
      · obtain ⟨value, small, valued⟩ := digitValue_of_mem_padded (by omega) (by omega) digits
        have isDigit := digit_of_digitValue (by omega) valued
        simp only [digit, Bool.and_eq_true, decide_eq_true_eq] at isDigit
        exact UInt8.le_trans (by decide : (32 : UInt8) ≤ 48) isDigit.1
    · rename_i plain
      rw [mem_singleton.mp member]
      by_contra low
      exact plain (by simp [mustQuote, UInt8.not_le.mp low])

theorem le_of_mem_quoteCStyle {p : Bytes} {d : UInt8}
    (member : d ∈ quoteCStyle quotePath p) : 32 ≤ d := by
  unfold quoteCStyle at member
  split at member
  · simp only [mem_append, mem_singleton, mem_flatMap] at member
    rcases member with (rfl | ⟨c, _, inside⟩) | rfl
    · decide
    · exact le_of_mem_quoteByte inside
    · decide
  · rename_i plain
    by_contra low
    apply plain
    rw [any_eq_true]
    exact ⟨d, member, by simp [mustQuote, UInt8.not_le.mp low]⟩

theorem unescape_flatMap (p : Bytes) :
    unescape (p.flatMap (quoteByte quotePath)) = p.flatMap decoded := by
  induction p with
  | nil => rfl
  | cons c p ih => rw [flatMap_cons, flatMap_cons, unescape_quoteByte, ih]

theorem decoded_of_plain {p : Bytes} (plain : 7 ∉ p ∧ 11 ∉ p) : p.flatMap decoded = p := by
  induction p with
  | nil => rfl
  | cons c p ih =>
    simp only [mem_cons, not_or] at plain
    have same : decoded c = [c] := by
      rw [decoded, if_neg (Ne.symm plain.1.1), if_neg (Ne.symm plain.2.1)]
    rw [flatMap_cons, same, ih ⟨plain.1.2, plain.2.2⟩]
    rfl

theorem length_le_decoded (p : Bytes) : p.length ≤ (p.flatMap decoded).length := by
  induction p with
  | nil => simp
  | cons c p ih =>
    have one : 1 ≤ (decoded c).length := by
      unfold decoded
      split_ifs <;> simp
    rw [flatMap_cons, length_append, length_cons]
    omega

/-- An escape that the parser does not know makes the path longer. -/
theorem decoded_eq_iff (p : Bytes) : p.flatMap decoded = p ↔ 7 ∉ p ∧ 11 ∉ p := by
  constructor
  · intro same
    have long (c : UInt8) (unknown : (decoded c).length = 2) : c ∉ p := by
      intro member
      obtain ⟨before, after, rfl⟩ := append_of_mem member
      have first := length_le_decoded before
      have second := length_le_decoded after
      have lengths := congrArg List.length same
      simp only [flatMap_append, flatMap_cons, length_append, length_cons, unknown] at lengths
      omega
    exact ⟨long 7 rfl, long 11 rfl⟩
  · exact decoded_of_plain

theorem unquoteBytes_quoted (s : Bytes) : unquoteBytes ([34] ++ s ++ [34]) = s := by
  have quotes : 2 ≤ ([34] ++ s ++ [34] : Bytes).length ∧
      ([34] ++ s ++ [34] : Bytes).head? = some 34 ∧
      ([34] ++ s ++ [34] : Bytes).getLast? = some 34 := by
    refine ⟨by simp, by simp, getLast?_concat⟩
  rw [unquoteBytes, if_pos quotes]
  simp

theorem unescape_quoteCStyle (p : Bytes) :
    unescape (unquoteBytes (quoteCStyle quotePath p)) = p.flatMap decoded := by
  unfold quoteCStyle
  split
  · rw [unquoteBytes_quoted, unescape_flatMap]
  rename_i plain
  rw [any_eq_true, not_exists] at plain
  have free (c : UInt8) (quoted : mustQuote quotePath c = true) : c ∉ p :=
    fun member => plain c ⟨member, quoted⟩
  have kept : unquoteBytes p = p := by
    refine if_neg ?_
    rintro ⟨-, first, -⟩
    exact free 34 (by simp [mustQuote]) (mem_of_mem_head? (Option.mem_def.mpr first))
  rw [kept, unescape_of_notMem (free 92 (by simp [mustQuote])),
    decoded_of_plain ⟨free 7 (by simp [mustQuote]), free 11 (by simp [mustQuote])⟩]

end bytes

section rawLines

variable (digits : Nat) (fields : RawFields) (fromPath toPath : Bytes)

/-- The expression finds the first path as it was printed. -/
theorem findSubmatch_quotedPaths :
    ∃ captures : Captures,
      findSubmatch rawLineRegexp
        (fields.line digits (quotedPaths quotePath fields.status fromPath toPath) ++ [newline]) =
          some captures ∧
      (∀ number < 6, captures number = fields.captures digits number) ∧
      captures 6 = quoteCStyle quotePath fromPath := by
  have free {p : Bytes} {c : UInt8} (low : ¬ 32 ≤ c) : c ∉ quoteCStyle quotePath p :=
    fun member => low (le_of_mem_quoteCStyle member)
  have tab : 9 ∉ quoteCStyle quotePath fromPath := free (by decide)
  have plain {p : Bytes} : newline ∉ quoteCStyle quotePath p := free (by decide)
  by_cases moved : fields.status = .renamed ∨ fields.status = .copied
  · refine ⟨((fields.captures digits).set 6 (quoteCStyle quotePath fromPath)).set 7
      (quoteCStyle quotePath toPath), findSubmatch_eq (fields.matchAt_line digits ?_), ?_, ?_⟩
    · rw [quotedPaths, if_pos moved, append_assoc, append_assoc]
      exact run_twoPaths tab plain plain
    · intro number small
      rw [Captures.set_other (by omega), Captures.set_other (by omega)]
    · rw [Captures.set_other (by omega), Captures.set_same]
  · refine ⟨(fields.captures digits).set 6 (quoteCStyle quotePath fromPath),
      findSubmatch_eq (fields.matchAt_line digits ?_), ?_, Captures.set_same _ _ _⟩
    · rw [quotedPaths, if_neg moved]
      exact run_onePath tab plain
    · intro number small
      rw [Captures.set_other (by omega)]

theorem parseRawLine_quotedPaths (diff : Diff) :
    ∃ read, parseRawLine
        (fields.line digits (quotedPaths quotePath fields.status fromPath toPath) ++ [newline])
        diff = (none, read) ∧
      read.fromPath = fromPath.flatMap decoded := by
  obtain ⟨captures, found, before, path⟩ :=
    findSubmatch_quotedPaths quotePath digits fields fromPath toPath
  have old : captures 1 = format 8 digits fields.oldMode := before 1 (by omega)
  have new : captures 2 = format 8 digits fields.newMode := before 2 (by omega)
  unfold parseRawLine
  simp only [found, old, new, parseMode]
  refine ⟨_, rfl, ?_⟩
  rw [path, unescape_quoteCStyle]

/-- A path is read as it is just if it has neither of the two control characters whose escapes
the parser does not know, bell and vertical tab. -/
theorem parseRawLine_fromPath_iff (diff : Diff) :
    (∃ read, parseRawLine
        (fields.line digits (quotedPaths quotePath fields.status fromPath toPath) ++ [newline])
        diff = (none, read) ∧
      read.fromPath = fromPath) ↔ 7 ∉ fromPath ∧ 11 ∉ fromPath := by
  obtain ⟨read, parses, path⟩ :=
    parseRawLine_quotedPaths quotePath digits fields fromPath toPath diff
  rw [← decoded_eq_iff, parses, ← path]
  constructor
  · rintro ⟨other, same, exact_⟩
    cases same
    exact exact_
  · intro same
    exact ⟨read, rfl, same⟩

end rawLines

def changedFile : RawFields := ⟨33188, 33188, .zero, .zero, .modified, none⟩

/-- A bell in a path is printed as the letter a after a backslash, and read as these two. -/
theorem bell_misread :
    changedFile.line 6 (quotedPaths true .modified [7] []) =
        ascii ":100644 100644 " ++ zeroOID ++ ascii " " ++ zeroOID ++ ascii " M\t\"\\a\"" ∧
      ∃ read, parseRawLine (changedFile.line 6 (quotedPaths true .modified [7] []) ++ [newline])
        {} = (none, read) ∧ read.fromPath = [92, 97] ∧ read.fromPath ≠ [7] := by
  refine ⟨by decide, ?_⟩
  obtain ⟨read, parses, path⟩ := parseRawLine_quotedPaths true 6 changedFile [7] [] {}
  refine ⟨read, parses, path, ?_⟩
  rw [path]
  decide

end Gitaly.DiffParser
