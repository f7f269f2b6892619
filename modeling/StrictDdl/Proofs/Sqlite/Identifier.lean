import StrictDdl.Proofs.Sqlite.Scanning
import StrictDdl.Proofs.Text.Pattern

/-! Names as SQLite reads them.

A name that is written is one word for SQLite, a bare one or one in quotes, and the word is the
name again; no name is written as a keyword. The exceptions are words with a line break
behind them: they fit the pattern of a bare name, which does not see the line break, and
neither does SQLite (`identifier_read_iff`). -/
namespace StrictDdl.Sqlite

/-- The keywords of SQLite, in lower case. -/
def reserved : List String := [
  "abort", "action", "add", "after", "all", "alter", "always", "analyze", "and", "as", "asc",
  "attach", "autoincrement",
  "before", "begin", "between", "by",
  "cascade", "case", "cast", "check", "collate", "column", "commit", "conflict", "constraint",
  "create", "cross", "current", "current_date", "current_time", "current_timestamp",
  "database", "default", "deferrable", "deferred", "delete", "desc", "detach", "distinct", "do",
  "drop",
  "each", "else", "end", "escape", "except", "exclude", "exclusive", "exists", "explain",
  "fail", "filter", "first", "following", "for", "foreign", "from", "full",
  "generated", "glob", "group", "groups",
  "having",
  "if", "ignore", "immediate", "in", "index", "indexed", "initially", "inner", "insert",
  "instead", "intersect", "into", "is", "isnull",
  "join", "key",
  "last", "left", "like", "limit",
  "match", "materialized",
  "natural", "no", "not", "nothing", "notnull", "null", "nulls",
  "of", "offset", "on", "or", "order", "others", "outer", "over",
  "partition", "plan", "pragma", "preceding", "primary",
  "query",
  "raise", "range", "recursive", "references", "regexp", "reindex", "release", "rename",
  "replace", "restrict", "returning", "right", "rollback", "row", "rows",
  "savepoint", "select", "set",
  "table", "temp", "temporary", "then", "ties", "to", "transaction", "trigger",
  "unbounded", "union", "unique", "update", "using",
  "vacuum", "values", "view", "virtual",
  "when", "where", "window", "with", "without"]

/-- Whether a run of characters is a keyword, in any case of its letters. -/
def isReserved (run : List Char) : Bool :=
  reserved.contains (String.ofList (run.map Char.toLower))

/-- What is read where a name may stand. -/
inductive Word where
  /-- A name, with the quotes around it taken off. -/
  | name (s : String)
  /-- A keyword as it is spelled. -/
  | keyword (s : String)
  deriving DecidableEq

/-- A bare word. -/
def Word.ofRun (run : List Char) : Word :=
  if isReserved run then .keyword (String.ofList run) else .name (String.ofList run)

/-- A letter, a digit or an underscore. -/
def isRunChar (c : Char) : Bool := isLetter c || isDigit c

/-- What stands before the quote that ends a text, and what is left behind it. A quote that
another one follows ends nothing; the two stand for one. -/
def unquote (quote : Char) : List Char → Option (List Char × List Char)
  | [] => none
  | [c] => if c = quote then some ([], []) else none
  | c :: d :: cs =>
    if c ≠ quote then (unquote quote (d :: cs)).map fun r => (c :: r.1, r.2)
    else if d = quote then (unquote quote cs).map fun r => (quote :: r.1, r.2)
    else some ([], d :: cs)

/-- The word at the front of a text, and what is left behind it. -/
def readWord? : List Char → Option (Word × List Char)
  | [] => none
  | c :: cs =>
    if c = '"' then (unquote '"' cs).map fun r => (.name (String.ofList r.1), r.2)
    else if isLetter c then
      some (.ofRun (c :: cs.takeWhile isRunChar), cs.dropWhile isRunChar)
    else none

/-! ### Words in quotes -/

/-- What is between quotes is found again, whatever else stands behind. -/
theorem unquote_doubled {quote : Char} {rest : List Char} (hrest : rest.head? ≠ some quote)
    (cs : List Char) : unquote quote (Sql.doubled quote cs ++ quote :: rest) = some (cs, rest) := by
  induction cs with
  | nil =>
    cases rest with
    | nil => simp [Sql.doubled, unquote]
    | cons d rest =>
      have hd : d ≠ quote := fun heq => hrest (congrArg some heq)
      simp [Sql.doubled, unquote, hd]
  | cons c cs ih =>
    rw [Sql.doubled]
    split
    · rename_i hc
      subst hc
      rw [List.cons_append, List.cons_append, unquote, ih]
      simp
    · rename_i hc
      obtain ⟨d, tail, htail⟩ : ∃ d tail, Sql.doubled quote cs ++ quote :: rest = d :: tail :=
        List.exists_cons_of_ne_nil (by simp)
      rw [List.cons_append, htail, unquote, if_pos hc, ← htail, ih]
      rfl

theorem readWord?_enclosed (name : String) :
    readWord? (Sql.enclosed '"' name).toList = some (.name name, []) := by
  rw [Sql.enclosed, String.toList_ofList, List.cons_append, readWord?, if_pos rfl,
    unquote_doubled (by simp), Option.map_some, String.ofList_toList]

/-! ### Bare words -/

/-- A bare word: letters, digits and underscores, no digit first. -/
def IsRun (run : List Char) : Prop :=
  ∃ c cs, run = c :: cs ∧ isLetter c ∧ ∀ d ∈ cs, isRunChar d

/-- A bare word with a line break behind it. -/
def IsBroken (name : String) : Prop := ∃ run, IsRun run ∧ name.toList = run ++ ['\n']

theorem IsRun.forall_isRunChar {run : List Char} (h : IsRun run) : ∀ c ∈ run, isRunChar c := by
  obtain ⟨c, cs, rfl, hc, hcs⟩ := h
  exact List.forall_mem_cons.2 ⟨by simp [isRunChar, hc], hcs⟩

theorem readWord?_run {run rest : List Char} (h : IsRun run)
    (hrest : ∀ c ∈ rest.head?, isRunChar c = false) :
    readWord? (run ++ rest) = some (.ofRun run, rest) := by
  obtain ⟨c, cs, rfl, hc, hcs⟩ := h
  have hquote : c ≠ '"' := by
    rintro rfl
    exact absurd hc (by decide)
  rw [List.cons_append, readWord?, if_neg hquote, if_pos hc, Text.takeWhile_run hcs hrest,
    Text.dropWhile_run hcs hrest]

/-- A name without quotes is a bare word, but for a line break behind it. -/
theorem isRun_of_bare {name : String} (h : Sql.needsQuoting name = false) :
    IsRun name.toList ∨ IsBroken name := by
  obtain ⟨c, cs, hword, hc, hcs, hname⟩ := Mode.bareWord_spec h
  have hrun : IsRun (Mode.bareWord name) := ⟨c, cs, hword, hc, hcs⟩
  rcases hname with hname | hname
  · exact .inl (hname ▸ hrun)
  · exact .inr ⟨_, hrun, hname⟩

theorem lower_of_isRunChar {s : String} (h : ∀ c ∈ s.toList, c.toNat < 128) :
    LetterCase.lower s = String.ofList (s.toList.map Char.toLower) := by
  rw [LetterCase.lower, Token.lowerFrom_ascii [] _ h]

/-- The words that are kept from being names are the keywords. -/
theorem reserved_eq_keywords : reserved = Sql.keywords := rfl

/-- No bare word without quotes is a keyword. -/
theorem not_isReserved_of_bare {name : String} (h : Sql.needsQuoting name = false)
    (hrun : IsRun name.toList) : isReserved name.toList = false := by
  rw [← Bool.not_eq_true]
  intro hreserved
  have hkey : Sql.isKeyword name = true := by
    rw [Sql.isKeyword, lower_of_isRunChar fun c hc =>
      Token.toNat_lt_of_isWord (hrun.forall_isRunChar c hc), ← reserved_eq_keywords]
    exact hreserved
  simp [Sql.needsQuoting, hkey] at h

theorem isBareRest_break {cs : List Char} (h : ∀ c ∈ cs, isRunChar c) :
    Sql.isBareRest (cs ++ ['\n']) = true := by
  induction cs with
  | nil => rfl
  | cons c cs ih =>
    obtain ⟨hc, hcs⟩ := List.forall_mem_cons.1 h
    rw [List.cons_append]
    unfold Sql.isBareRest
    split
    · rfl
    · rfl
    · rename_i heq
      obtain ⟨rfl, rfl⟩ := List.cons.inj heq
      rw [Bool.and_eq_true]
      exact ⟨hc, ih hcs⟩

/-- A word with a line break behind it is written without quotes. -/
theorem IsBroken.needsQuoting {name : String} (h : IsBroken name) :
    Sql.needsQuoting name = false := by
  obtain ⟨run, hrun, hname⟩ := h
  have hbare : Sql.isBare name.toList = true := by
    obtain ⟨c, cs, rfl, hc, hcs⟩ := hrun
    rw [hname, List.cons_append, Sql.isBare, Bool.and_eq_true]
    exact ⟨hc, isBareRest_break hcs⟩
  -- A line break stays one in lower case, and no keyword has any.
  have hkey : Sql.isKeyword name = false := by
    have hascii : ∀ c ∈ name.toList, c.toNat < 128 := by
      rw [hname]
      intro c hc
      rcases List.mem_append.1 hc with hc | hc
      · exact Token.toNat_lt_of_isWord (hrun.forall_isRunChar c hc)
      · rw [List.mem_singleton.1 hc]
        decide
    have hall : Sql.keywords.all (fun word => !word.toList.contains '\n') = true := by decide +kernel
    rw [← Bool.not_eq_true, Sql.isKeyword, lower_of_isRunChar hascii, List.contains_iff_mem]
    intro hmem
    have hword := List.all_eq_true.1 hall _ hmem
    rw [String.toList_ofList, hname, List.map_append] at hword
    simp at hword
  rw [Sql.needsQuoting, hbare, hkey]
  rfl

/-! ### The pattern of a bare name -/

/-- What a name has to fit to be written without quotes. -/
def barePattern : Text.Pattern := [.one Sql.isStart, .many 0 Sql.isWord]

theorem isBareRest_eq (cs : List Char) :
    Sql.isBareRest cs = Text.atEnd (cs.dropWhile Sql.isWord) := by
  induction cs with
  | nil => rfl
  | cons c cs ih =>
    unfold Sql.isBareRest
    split
    · rename_i heq
      cases heq
    · rename_i heq
      obtain ⟨rfl, rfl⟩ := List.cons.inj heq
      rfl
    · rename_i hbreak heq
      obtain ⟨rfl, rfl⟩ := List.cons.inj heq
      cases hc : Sql.isWord c with
      | true => rw [List.dropWhile_cons_of_pos hc, Bool.true_and, ih]
      | false =>
        rw [List.dropWhile_cons_of_neg (by simp [hc]), Bool.false_and]
        simpa [Text.atEnd] using hbreak

theorem ways_of_isWord (c : Char) (cs : List Char) (hc : Sql.isWord c) :
    Text.Pattern.ways [] (c :: cs) = [] := by
  have hbreak : c ≠ '\n' := by
    rintro rfl
    exact absurd hc (by decide)
  rw [Text.Pattern.ways, if_neg]
  simp [Text.atEnd, hbreak]

/-- A name is written without quotes if it fits the pattern and is no keyword. -/
theorem needsQuoting_eq (name : String) :
    Sql.needsQuoting name = (Sql.isKeyword name || (barePattern.match? name).isNone) := by
  have hbare : Sql.isBare name.toList = (barePattern.match? name).isSome := by
    rw [Text.Pattern.match?, Option.isSome_map, barePattern]
    cases name.toList with
    | nil => rfl
    | cons c cs =>
      rw [Sql.isBare, isBareRest_eq, Text.Pattern.ways, Text.Piece.ways]
      cases Sql.isStart c with
      | false => rfl
      | true =>
        rw [if_pos rfl, List.flatMap_singleton, Text.Pattern.ways_many ways_of_isWord,
          if_pos (Nat.zero_le _), Text.Pattern.ways]
        cases Text.atEnd (cs.dropWhile Sql.isWord) <;> rfl
  rw [Sql.needsQuoting, hbare, Option.not_isSome]

/-! ### Names -/

theorem IsRun.not_isBroken {name : String} (h : IsRun name.toList) : ¬ IsBroken name := by
  rintro ⟨run, _, hname⟩
  have hlast := h.forall_isRunChar '\n' (by simp [hname])
  exact absurd hlast (by decide)

/-- A name that is no broken word is the only word where it is written. -/
theorem readWord?_of_not_isBroken {name : String} (h : ¬ IsBroken name) :
    readWord? (Sql.identifier name).toList = some (.name name, []) := by
  cases hquote : Sql.needsQuoting name with
  | true =>
    rw [Sql.identifier, if_pos hquote]
    exact readWord?_enclosed name
  | false =>
    have hrun : IsRun name.toList := (isRun_of_bare hquote).resolve_right h
    have hread : readWord? (name.toList ++ []) = some (.ofRun name.toList, []) :=
      readWord?_run hrun (by simp)
    rw [List.append_nil, Word.ofRun, not_isReserved_of_bare hquote hrun, String.ofList_toList]
      at hread
    rw [Sql.identifier, hquote]
    exact hread

/-- Of a broken word only the word is read. -/
theorem readWord?_of_isBroken {name : String} {run : List Char} (hrun : IsRun run)
    (hname : name.toList = run ++ ['\n']) :
    readWord? (Sql.identifier name).toList = some (.ofRun run, ['\n']) := by
  have htext : Sql.identifier name = name := by
    rw [Sql.identifier, IsBroken.needsQuoting ⟨run, hrun, hname⟩]
    rfl
  rw [htext, hname]
  exact readWord?_run hrun (by simp; decide)

namespace Word

theorem ofRun_eq_name_iff {run : List Char} {s : String} :
    ofRun run = .name s ↔ isReserved run = false ∧ run = s.toList := by
  rw [ofRun]
  cases isReserved run with
  | true => simp
  | false => simp [← String.toList_inj]

theorem ofRun_eq_keyword_iff {run : List Char} {s : String} :
    ofRun run = .keyword s ↔ isReserved run = true ∧ run = s.toList := by
  rw [ofRun]
  cases isReserved run with
  | true => simp [← String.toList_inj]
  | false => simp

theorem ofRun_injective {run run' : List Char} (h : ofRun run = ofRun run') : run = run' := by
  cases hword : ofRun run' with
  | name s =>
    exact (ofRun_eq_name_iff.1 (h.trans hword)).2.trans (ofRun_eq_name_iff.1 hword).2.symm
  | keyword s =>
    exact (ofRun_eq_keyword_iff.1 (h.trans hword)).2.trans (ofRun_eq_keyword_iff.1 hword).2.symm

end Word

/-- The word that is read where a name is written. -/
def written? (name : String) : Option Word := (readWord? (Sql.identifier name).toList).map Prod.fst

theorem written?_of_not_isBroken {name : String} (h : ¬ IsBroken name) :
    written? name = some (.name name) := by
  rw [written?, readWord?_of_not_isBroken h]
  rfl

theorem written?_of_isBroken {name : String} {run : List Char} (hrun : IsRun run)
    (hname : name.toList = run ++ ['\n']) : written? name = some (.ofRun run) := by
  rw [written?, readWord?_of_isBroken hrun hname]
  rfl

/-- The first name is the second one, which is a bare word, and a line break. -/
def Trails (a b : String) : Prop :=
  IsRun b.toList ∧ isReserved b.toList = false ∧ a.toList = b.toList ++ ['\n']

theorem Trails.isBroken {a b : String} (h : Trails a b) : IsBroken a := ⟨_, h.1, h.2.2⟩

theorem Trails.not_isBroken {a b : String} (h : Trails a b) : ¬ IsBroken b := h.1.not_isBroken

/-- A broken word is read as the name of another one exactly if it trails it. -/
theorem written?_eq_of_isBroken {a b : String} (ha : IsBroken a) (hb : ¬ IsBroken b) :
    written? a = written? b ↔ Trails a b := by
  obtain ⟨run, hrun, hname⟩ := ha
  rw [written?_of_isBroken hrun hname, written?_of_not_isBroken hb, Option.some_inj,
    Word.ofRun_eq_name_iff]
  constructor
  · rintro ⟨hfree, rfl⟩
    exact ⟨hrun, hfree, hname⟩
  · rintro ⟨_, hfree, htrails⟩
    obtain rfl : run = b.toList := List.append_cancel_right (hname.symm.trans htrails)
    exact ⟨hfree, rfl⟩

theorem written?_eq_iff (a b : String) :
    written? a = written? b ↔ a = b ∨ Trails a b ∨ Trails b a := by
  by_cases ha : IsBroken a
  · by_cases hb : IsBroken b
    · have hnone : ¬ (Trails a b ∨ Trails b a) :=
        fun h => h.elim (fun h => h.not_isBroken hb) fun h => h.not_isBroken ha
      rw [or_iff_left hnone]
      refine ⟨fun h => ?_, congrArg written?⟩
      obtain ⟨run, hrun, hname⟩ := ha
      obtain ⟨run', hrun', hname'⟩ := hb
      rw [written?_of_isBroken hrun hname, written?_of_isBroken hrun' hname', Option.some_inj] at h
      rw [← String.toList_inj, hname, hname', Word.ofRun_injective h]
    · have hne : a ≠ b := fun heq => hb (heq ▸ ha)
      have hnone : ¬ Trails b a := fun h => hb h.isBroken
      rw [written?_eq_of_isBroken ha hb, or_iff_right hne, or_iff_left hnone]
  · by_cases hb : IsBroken b
    · have hne : a ≠ b := fun heq => ha (heq ▸ hb)
      have hnone : ¬ Trails a b := fun h => ha h.isBroken
      rw [eq_comm, written?_eq_of_isBroken hb ha, or_iff_right hne, or_iff_right hnone]
    · have hnone : ¬ (Trails a b ∨ Trails b a) :=
        fun h => h.elim (fun h => ha h.isBroken) fun h => hb h.isBroken
      rw [or_iff_left hnone, written?_of_not_isBroken ha, written?_of_not_isBroken hb,
        Option.some_inj, Word.name.injEq]

theorem written?_eq_keyword_iff (name : String) : (∃ s, written? name = some (.keyword s)) ↔
    ∃ run, IsRun run ∧ isReserved run ∧ name.toList = run ++ ['\n'] := by
  constructor
  · rintro ⟨s, hs⟩
    by_cases hbroken : IsBroken name
    · obtain ⟨run, hrun, hname⟩ := hbroken
      rw [written?_of_isBroken hrun hname, Option.some_inj, Word.ofRun_eq_keyword_iff] at hs
      exact ⟨run, hrun, hs.1, hname⟩
    · rw [written?_of_not_isBroken hbroken] at hs
      cases hs
  · rintro ⟨run, hrun, hreserved, hname⟩
    refine ⟨String.ofList run, ?_⟩
    rw [written?_of_isBroken hrun hname, Option.some_inj, Word.ofRun_eq_keyword_iff]
    exact ⟨hreserved, String.toList_ofList.symm⟩

/-- **A name is read back where it is written, unless it is a bare word with a line break behind
it.** So two names are read as one only if they differ by such a line break, and a name is read as a
keyword only if it is one with a line break behind it. -/
theorem identifier_read_iff (name other : String) :
    (readWord? (Sql.identifier name).toList = some (.name name, []) ↔ ¬ IsBroken name) ∧
    (written? name = written? other ↔ name = other ∨ Trails name other ∨ Trails other name) ∧
    ((∃ s, written? name = some (.keyword s)) ↔
      ∃ run, IsRun run ∧ isReserved run ∧ name.toList = run ++ ['\n']) := by
  refine ⟨⟨fun hread hbroken => ?_, readWord?_of_not_isBroken⟩, written?_eq_iff name other,
    written?_eq_keyword_iff name⟩
  obtain ⟨run, hrun, hname⟩ := hbroken
  rw [readWord?_of_isBroken hrun hname] at hread
  cases (Prod.mk.inj (Option.some.inj hread)).2

/-- Two names that are read as one, and one that is read as a keyword. -/
theorem breaks_misread : written? "id\n" = written? "id" ∧
    (∃ s, written? "null\n" = some (.keyword s)) ∧
    readWord? (Sql.identifier "id\n").toList ≠ some (.name "id\n", []) := by
  obtain ⟨hread, hsame, _⟩ := identifier_read_iff "id\n" "id"
  obtain ⟨_, _, hkeyword⟩ := identifier_read_iff "null\n" "null"
  have hid : IsRun "id".toList := ⟨'i', ['d'], by decide, by decide, List.all_eq_true.1 (by decide)⟩
  have hnull : IsRun "null".toList :=
    ⟨'n', ['u', 'l', 'l'], by decide, by decide, List.all_eq_true.1 (by decide)⟩
  refine ⟨hsame.2 (.inr (.inl ⟨hid, by decide, by decide⟩)),
    hkeyword.2 ⟨_, hnull, by decide, by decide⟩, fun h => ?_⟩
  exact hread.1 h ⟨_, hid, by decide⟩

end StrictDdl.Sqlite
