import StrictDdl.Ddl
import StrictDdl.Expr.Render
import StrictDdl.Proofs.Outcome
import StrictDdl.Proofs.Sqlite.Identifier

/-! Text constants as they are read.

A reader takes a text constant from the front of a text: a quote opens it, a doubled quote inside
stands for one quote, and a single one ends it. What it reads is what was written, whatever
characters that has, and it stops where the constant ends (`readText?_eq_some_iff`). So
a list of text constants is read back as the same list, although the constants may look like
separators and quotes themselves (`readTexts?_eq_some_iff`), and this is how the labels of an
enumeration and the texts of a membership are written (`textLiterals_read_iff`). -/
namespace StrictDdl

namespace Sqlite

/-- Between quotes the reader finds what was written there, up to the first quote that stands
alone. -/
theorem unquote_eq_some_iff {quote : Char} {cs inside rest : List Char} :
    unquote quote cs = some (inside, rest) ↔
      cs = Sql.doubled quote inside ++ quote :: rest ∧ rest.head? ≠ some quote := by
  constructor
  · intro h
    fun_induction unquote quote cs generalizing inside with
    | case1 => cases h
    | case2 =>
      cases h
      simp [Sql.doubled]
    | case3 => cases h
    | case4 c d cs hc ih =>
      obtain ⟨r, hread, heq⟩ := Option.map_eq_some_iff.1 h
      cases heq
      obtain ⟨hcs, hrest⟩ := ih hread
      exact ⟨by simp [Sql.doubled, hc, ← hcs], hrest⟩
    | case5 cs c hc ih =>
      obtain ⟨r, hread, heq⟩ := Option.map_eq_some_iff.1 h
      cases heq
      obtain ⟨hcs, hrest⟩ := ih hread
      obtain rfl := not_not.1 hc
      exact ⟨by simp [Sql.doubled, ← hcs], hrest⟩
    | case6 c d cs hc hd =>
      cases h
      obtain rfl := not_not.1 hc
      exact ⟨rfl, by simpa using hd⟩
  · rintro ⟨rfl, hrest⟩
    exact unquote_doubled hrest inside

end Sqlite

namespace Sql

/-! ### One text constant -/

/-- The text constant at the front of a text, and what is left behind it. -/
def readText? : List Char → Option (String × List Char)
  | [] => none
  | c :: cs =>
    if c = '\'' then (Sqlite.unquote '\'' cs).map fun r => (String.ofList r.1, r.2) else none

theorem toList_textLiteral_append (s : String) (rest : List Char) :
    (textLiteral s).toList ++ rest = '\'' :: (doubled '\'' s.toList ++ '\'' :: rest) := by
  rw [textLiteral, enclosed, String.toList_ofList, List.cons_append, List.cons_append,
    List.append_assoc, List.singleton_append]

/-- A text constant is read where it is written and no quote follows, and nowhere else. -/
theorem readText?_eq_some_iff {cs rest : List Char} {s : String} :
    readText? cs = some (s, rest) ↔
      cs = (textLiteral s).toList ++ rest ∧ rest.head? ≠ some '\'' := by
  rw [toList_textLiteral_append]
  cases cs with
  | nil => simp [readText?]
  | cons c cs =>
    rw [readText?]
    split
    · rename_i hc
      rw [hc, List.cons.injEq, and_iff_right rfl, ← Sqlite.unquote_eq_some_iff,
        Option.map_eq_some_iff]
      constructor
      · rintro ⟨r, hread, heq⟩
        cases heq
        rwa [String.toList_ofList]
      · intro hread
        exact ⟨_, hread, by rw [String.ofList_toList]⟩
    · rename_i hc
      simp [hc]

theorem length_lt_of_readText? {cs rest : List Char} {s : String}
    (h : readText? cs = some (s, rest)) : rest.length < cs.length := by
  rw [(readText?_eq_some_iff.1 h).1, toList_textLiteral_append, List.length_cons,
    List.length_append, List.length_cons]
  omega

/-! ### Lists of text constants -/

/-- Text constants with separators between them. -/
def textLiterals (texts : List String) : String := String.intercalate ", " (texts.map textLiteral)

/-- What is left behind a separator, if a quote stands there. -/
def behindSeparator? : List Char → Option (List Char)
  | ',' :: ' ' :: '\'' :: cs => some ('\'' :: cs)
  | _ => none

theorem behindSeparator?_eq_some_iff {cs more : List Char} :
    behindSeparator? cs = some more ↔ cs = ',' :: ' ' :: more ∧ more.head? = some '\'' := by
  constructor
  · intro h
    unfold behindSeparator? at h
    split at h
    · cases h
      exact ⟨rfl, rfl⟩
    · cases h
  · rintro ⟨rfl, hquote⟩
    obtain ⟨rest, rfl⟩ := List.head?_eq_some_iff.1 hquote
    rfl

theorem length_lt_of_behindSeparator? {cs more : List Char} (h : behindSeparator? cs = some more) :
    more.length < cs.length := by
  rw [(behindSeparator?_eq_some_iff.1 h).1, List.length_cons, List.length_cons]
  omega

/-- The text constants at the front of a text, and what is left behind them. Another one is read
where a separator and a quote follow. -/
def readTexts? (cs : List Char) : Option (List String × List Char) :=
  if cs.head? ≠ some '\'' then some ([], cs)
  else match _hread : readText? cs with
    | none => none
    | some (s, rest) =>
      match _hmore : behindSeparator? rest with
      | none => some ([s], rest)
      | some more => (readTexts? more).map fun r => (s :: r.1, r.2)
termination_by cs.length
decreasing_by
  exact (length_lt_of_behindSeparator? _hmore).trans (length_lt_of_readText? _hread)

/-- The list ends here: what is left neither continues the last text nor begins another one. -/
def Ends (texts : List String) (rest : List Char) : Prop :=
  rest.head? ≠ some '\'' ∧ (texts ≠ [] → behindSeparator? rest = none)

theorem toList_textLiterals_singleton (s : String) :
    (textLiterals [s]).toList = (textLiteral s).toList := by
  rw [textLiterals, List.map_singleton, String.intercalate_singleton]

theorem toList_textLiterals_cons_cons (s t : String) (ts : List String) :
    (textLiterals (s :: t :: ts)).toList =
      (textLiteral s).toList ++ ',' :: ' ' :: (textLiterals (t :: ts)).toList := by
  rw [textLiterals, List.map_cons, List.map_cons, String.intercalate_cons_cons,
    String.toList_append, String.toList_append, List.append_assoc]
  rfl

theorem head?_textLiterals (s : String) (ts : List String) (rest : List Char) :
    ((textLiterals (s :: ts)).toList ++ rest).head? = some '\'' := by
  cases ts with
  | nil =>
    rw [toList_textLiterals_singleton, toList_textLiteral_append]
    rfl
  | cons t ts =>
    rw [toList_textLiterals_cons_cons, List.append_assoc, toList_textLiteral_append]
    rfl

/-- Behind the first text constant the reader goes on, or is done. -/
theorem readTexts?_of_readText? {cs rest : List Char} {s : String}
    (h : readText? cs = some (s, rest)) :
    readTexts? cs = match behindSeparator? rest with
      | none => some ([s], rest)
      | some more => (readTexts? more).map fun r => (s :: r.1, r.2) := by
  have hquote : cs.head? = some '\'' := by
    rw [(readText?_eq_some_iff.1 h).1, toList_textLiteral_append]
    rfl
  rw [readTexts?, if_neg (not_not.2 hquote)]
  grind

theorem readTexts?_textLiterals {texts : List String} {rest : List Char} (h : Ends texts rest) :
    readTexts? ((textLiterals texts).toList ++ rest) = some (texts, rest) := by
  induction texts with
  | nil =>
    rw [textLiterals, List.map_nil, String.intercalate_nil, String.toList_empty, List.nil_append,
      readTexts?, if_pos h.1]
  | cons s ts ih =>
    cases ts with
    | nil =>
      have hread : readText? ((textLiterals [s]).toList ++ rest) = some (s, rest) :=
        readText?_eq_some_iff.2 ⟨by rw [toList_textLiterals_singleton], h.1⟩
      rw [readTexts?_of_readText? hread, h.2 (List.cons_ne_nil _ _)]
    | cons t ts =>
      -- The separator is no quote, so the first constant ends in front of it.
      have hread : readText? ((textLiterals (s :: t :: ts)).toList ++ rest) =
          some (s, ',' :: ' ' :: ((textLiterals (t :: ts)).toList ++ rest)) :=
        readText?_eq_some_iff.2
          ⟨by rw [toList_textLiterals_cons_cons, List.append_assoc]; rfl, by simp⟩
      have hmore := behindSeparator?_eq_some_iff.2 ⟨rfl, head?_textLiterals t ts rest⟩
      have hrest := ih ⟨h.1, fun _ => h.2 (List.cons_ne_nil _ _)⟩
      simp only [readTexts?_of_readText? hread, hmore, hrest, Option.map_some]

/-- A list of text constants is read where it is written and ends, and nowhere else. -/
theorem readTexts?_eq_some_iff {cs rest : List Char} {texts : List String} :
    readTexts? cs = some (texts, rest) ↔
      cs = (textLiterals texts).toList ++ rest ∧ Ends texts rest := by
  constructor
  · intro h
    fun_induction readTexts? cs generalizing texts with
    | case1 cs hquote =>
      cases h
      exact ⟨rfl, hquote, fun hne => absurd rfl hne⟩
    | case2 => cases h
    | case3 cs _ s rest' hread hmore =>
      cases h
      obtain ⟨hcs, hrest⟩ := readText?_eq_some_iff.1 hread
      exact ⟨by rw [hcs, toList_textLiterals_singleton], hrest, fun _ => hmore⟩
    | case4 cs _ s rest' hread more hmore ih =>
      obtain ⟨⟨texts', rest''⟩, hread', heq⟩ := Option.map_eq_some_iff.1 h
      cases heq
      obtain ⟨hcs, _⟩ := readText?_eq_some_iff.1 hread
      obtain ⟨hrest, hquote⟩ := behindSeparator?_eq_some_iff.1 hmore
      obtain ⟨htexts, hends⟩ := ih hread'
      cases texts' with
      | nil =>
        -- A quote stands behind the separator, so the list goes on.
        have hends' : more.head? ≠ some '\'' := by
          rw [htexts, textLiterals, List.map_nil, String.intercalate_nil]
          exact hends.1
        exact absurd hquote hends'
      | cons t ts =>
        refine ⟨?_, hends.1, fun _ => hends.2 (List.cons_ne_nil _ _)⟩
        rw [hcs, hrest, htexts, toList_textLiterals_cons_cons, List.append_assoc]
        rfl
  · rintro ⟨rfl, hends⟩
    exact readTexts?_textLiterals hends

/-- Behind its front a text is a list of these text constants and the parenthesis that closes it,
whatever stands behind the text. -/
def Lists (front text : String) (texts : List String) : Prop :=
  ∃ list, text.toList = front.toList ++ list ∧
    ∀ rest, readTexts? (list ++ rest) = some (texts, ')' :: rest)

theorem lists_textLiterals (front : String) (texts : List String) :
    Lists front (front ++ textLiterals texts ++ ")") texts := by
  refine ⟨(textLiterals texts).toList ++ [')'], ?_, fun rest => ?_⟩
  · rw [String.toList_append, String.toList_append, List.append_assoc]
    rfl
  · rw [List.append_assoc]
    exact readTexts?_textLiterals ⟨by simp, fun _ => rfl⟩

end Sql

/-! ### Memberships -/

namespace Expr

/-- A constant that is shown as this text. -/
def IsText (e : Expr) (s : String) : Prop := ∃ value, e = .constant value (.ok (.str s))

theorem isText_ofJson_iff {ms : Members} {s : String} :
    IsText (ofJson (.obj [("A_Const", .obj ms)])) s ↔ Constant.value (.obj ms) = .ok (.str s) :=
  ⟨fun ⟨_, h⟩ => (constant.inj h).2, fun h => ⟨_, congrArg _ h⟩⟩

/-- An operator that is written as a membership, with its word and its elements: one of a list, and
in the target dialect also a comparison with the elements of an array. -/
inductive IsMembership (d : Dialect) : OperatorForm → Json → Expr → String → List Expr → Prop where
  | listed {op : Json} {right : Expr} {es : List Expr} (h : elements d right = .ok es) :
    IsMembership d .membership op right (negatedWord (op.same (.str "<>")) "IN") es
  | quantified {all : Bool} {op : Json} {word : String} {es : List Expr} (hd : d = .sqlite)
    (h : quantifiedMembership? all op = some word) :
    IsMembership d (.quantified all) op (.array es) word es

variable {d : Dialect} {es : List Expr}

theorem render_of_isText {e : Expr} {s : String} (h : IsText e s) :
    render d e = .ok (.atom (Sql.textLiteral s)) := by
  obtain ⟨value, rfl⟩ := h
  cases d <;> rfl

theorem renderAll_of_isText {texts : List String} (h : List.Forall₂ IsText es texts) :
    ∃ rs, renderAll d es = .ok rs ∧ joinTexts rs = Sql.textLiterals texts := by
  refine ⟨texts.map fun s => .atom (Sql.textLiteral s), ?_, ?_⟩
  · induction h with
    | nil => rfl
    | cons he _ ih =>
      rw [renderAll, render_of_isText he, ih]
      rfl
  · rw [joinTexts, List.map_map]
    rfl

theorem renderElements_of_elements {e : Expr} (h : elements d e = .ok es) :
    renderElements d e = renderAll d es := by
  unfold elements at h
  split at h
  · cases h
    rw [renderElements]
  · cases h
    rw [renderElements]
  · cases h
    rw [renderElements]
  · obtain ⟨kind, _, herror⟩ := Read.bind_eq_ok_iff.1 h
    cases herror

theorem key_of_quantifiedMembership? {all : Bool} {op : Json} {word : String}
    (h : quantifiedMembership? all op = some word) : op.key = .ok op := by
  unfold quantifiedMembership? at h
  split at h
  · rfl
  · rfl
  · cases h

theorem render_of_isMembership {form : OperatorForm} {symbol : List Json} {left right : Expr}
    {word : String} {l : Rendered} {rs : List Rendered}
    (h : IsMembership d form (symbolOf symbol) right word es) (hl : render d left = .ok l)
    (hrs : renderAll d es = .ok rs) :
    render d (.operator form (.ok symbol) left right) =
      .ok ⟨l.operand .matching false ++ " " ++ word ++ " (" ++ joinTexts rs ++ ")", .matching⟩ := by
  generalize hop : symbolOf symbol = op at h
  cases h with
  | listed helements =>
    rw [render, hl, renderElements_of_elements helements, hrs, ← hop]
    rfl
  | quantified hd hword =>
    subst hd
    have hkey := key_of_quantifiedMembership? hword
    rw [render, hl, renderElements, hrs]
    simp only [bind, Except.bind, hop, hkey, Except.map, hword]
    rfl

end Expr

namespace Sql

/-- **A text constant cannot be escaped from.** Any text is read back where it is written as a
constant, up to what follows, unless a quote does; and so is any list of them. The labels of an
enumeration and the texts of a membership, in either dialect, are such lists. -/
theorem textLiterals_read_iff :
    (∀ {cs rest : List Char} {s : String}, readText? cs = some (s, rest) ↔
      cs = (textLiteral s).toList ++ rest ∧ rest.head? ≠ some '\'') ∧
    (∀ {cs rest : List Char} {texts : List String}, readTexts? cs = some (texts, rest) ↔
      cs = (textLiterals texts).toList ++ rest ∧ Ends texts rest) ∧
    (∀ (column : String) (labels : List String),
      Lists (column ++ " IN (") ((Ddl.Guard.oneOf labels).condition column) labels) ∧
    ∀ {d : Dialect} {form : OperatorForm} {symbol : List Json} {left right : Expr} {word : String}
      {es : List Expr} {texts : List String} {l : Rendered},
      Expr.IsMembership d form (Expr.symbolOf symbol) right word es →
      List.Forall₂ Expr.IsText es texts → Expr.render d left = .ok l →
      ∃ r, Expr.render d (.operator form (.ok symbol) left right) = .ok r ∧
        Lists (l.operand .matching false ++ " " ++ word ++ " (") r.text texts := by
  refine ⟨readText?_eq_some_iff, readTexts?_eq_some_iff,
    fun column labels => lists_textLiterals _ labels, ?_⟩
  intro d form symbol left right word es texts l hform htexts hl
  obtain ⟨rs, hrs, hjoined⟩ := Expr.renderAll_of_isText htexts
  refine ⟨_, Expr.render_of_isMembership hform hl hrs, ?_⟩
  rw [hjoined]
  exact lists_textLiterals _ texts

/-- Constants that look like the end of one, and like a separator between two. -/
theorem states_read_back :
    readText? "'it''s') OR (1".toList = some ("it's", ") OR (1".toList) ∧
    readTexts? "'it''s', ''', ''', '') OR (1".toList =
      some (["it's", "', '", ""], ") OR (1".toList) ∧
    ∃ r, Expr.render .sqlite (.operator .membership (.ok [.str "<>"]) (.column (.ok [.str "state"]))
        (.ofJson (.arr (["it's", "', '", ""].map fun s =>
          .obj [("A_Const", .obj [("sval", .obj [("sval", .str s)])])])))) = .ok r ∧
      Lists "state NOT IN (" r.text ["it's", "', '", ""] := by
  obtain ⟨hone, hmany, _, hlists⟩ := textLiterals_read_iff
  have htext : ∀ s,
      Expr.IsText (.ofJson (.obj [("A_Const", .obj [("sval", .obj [("sval", .str s)])])])) s :=
    fun s => Expr.isText_ofJson_iff.2 rfl
  have hcolumn : Expr.render .sqlite (.column (.ok [.str "state"])) = .ok (.atom "state") := rfl
  have hfront : (Rendered.atom "state").operand .matching false ++ " " ++
      Expr.negatedWord ((Json.str "<>").same (.str "<>")) "IN" ++ " (" = "state NOT IN (" := by
    decide
  refine ⟨hone.2 ⟨by decide, by decide⟩, hmany.2 ⟨by decide, by decide, fun _ => rfl⟩, ?_⟩
  rw [← hfront]
  exact hlists (.listed rfl) (.cons (htext _) (.cons (htext _) (.cons (htext _) .nil))) hcolumn

end Sql

end StrictDdl
