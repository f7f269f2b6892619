import StrictDdl.Proofs.Numeric.Written
import StrictDdl.Proofs.Postgres.Tree
import StrictDdl.Proofs.Sqlite.Cutting

/-! The words of a written tree.

A tree is written as a row of pieces: operands that nothing takes apart, which are names, constants
and whatever stands in parentheses, and the operators around them. Each piece is one word or some,
and no word has a blank outside quotes and parentheses. So a text gives its words away
(`Tree.Regular.words_eq`), and a list in parentheses gives the texts in it away
(`Tree.texts_eq`). -/
namespace StrictDdl.Postgres

open Sqlite (Junction Closed Solid Segment Glue)

/-! ### Pieces -/

inductive Piece where
  /-- A name, a constant, or something in parentheses. -/
  | operand (word : String)
  | operator (op : Infix)
  | nullTest (negated : Bool)
  | membership (negated : Bool) (items : String)
  | range (negated : Bool)
  /-- The word between the ends of a range. -/
  | bound
  | negation
  | junction (j : Junction)
  deriving DecidableEq

namespace Piece

/-- The word `NOT`, if it is there. -/
def notWords (negated : Bool) : List String := if negated then ["NOT"] else []

def words : Piece → List String
  | .operand word => [word]
  | .operator op => op.words
  | .nullTest negated => "IS" :: notWords negated ++ ["NULL"]
  | .membership negated items => notWords negated ++ ["IN", items]
  | .range negated => notWords negated ++ ["BETWEEN"]
  | .bound => ["AND"]
  | .negation => ["NOT"]
  | .junction .all => ["AND"]
  | .junction .any => ["OR"]

/-- The word of a piece that depends on a tree. -/
def given : Piece → List String
  | .operand word => [word]
  | .membership _ items => [items]
  | _ => []

theorem words_ne_nil (p : Piece) : p.words ≠ [] := by
  cases p with
  | operator op => cases op <;> simp [words, Infix.words]
  | junction j => cases j <;> simp [words]
  | _ => simp [words]

/-- The text of a row of pieces. -/
def text (ps : List Piece) : String := String.intercalate " " (ps.flatMap words)

variable {ps qs : List Piece}

theorem flatMap_words_ne_nil (h : ps ≠ []) : ps.flatMap words ≠ [] := by
  obtain ⟨p, ps, rfl⟩ := List.exists_cons_of_ne_nil h
  rw [List.flatMap_cons]
  exact List.append_ne_nil_of_left_ne_nil p.words_ne_nil _

theorem text_append (hp : ps ≠ []) (hq : qs ≠ []) :
    text (ps ++ qs) = text ps ++ " " ++ text qs := by
  rw [text, List.flatMap_append,
    String.intercalate_append_of_ne_nil (flatMap_words_ne_nil hp) (flatMap_words_ne_nil hq)]
  rfl

theorem text_cons (p : Piece) (hq : qs ≠ []) : text (p :: qs) = text [p] ++ " " ++ text qs :=
  text_append (List.cons_ne_nil p []) hq

theorem text_operator (op : Infix) : text [.operator op] = op.text := by
  rw [text, List.flatMap_singleton]
  rfl

theorem text_nullTest (negated : Bool) :
    " " ++ text [.nullTest negated] = if negated then " IS NOT NULL" else " IS NULL" := by
  cases negated <;> rfl

theorem text_membership (negated : Bool) (items : String) :
    text [.membership negated items] = Expr.negatedWord negated "IN" ++ " " ++ items := by
  cases negated <;> rfl

theorem text_range (negated : Bool) :
    text [.range negated] = Expr.betweenWord negated false := by
  cases negated <;> rfl

theorem text_junction (j : Junction) : j.text = " " ++ text [.junction j] ++ " " := by
  cases j <;> rfl

/-- Rows with a connective between them. -/
theorem text_intercalate (j : Junction) {pss : List (List Piece)} (h : ∀ ps ∈ pss, ps ≠ []) :
    text ([.junction j].intercalate pss) = String.intercalate j.text (pss.map text) := by
  induction pss with
  | nil => rfl
  | cons ps pss ih =>
    obtain ⟨hps, hpss⟩ := List.forall_mem_cons.1 h
    cases pss with
    | nil => simp
    | cons qs pss =>
      have hrest : [Piece.junction j].intercalate (qs :: pss) ≠ [] :=
        Sqlite.intercalate_ne_nil (hpss qs (List.mem_cons_self ..)) pss
      rw [List.intercalate_cons_cons, List.append_assoc, text_append hps (by simp),
        text_append (by simp) hrest, ih hpss, List.map_cons, List.map_cons, List.map_cons,
        String.intercalate_cons_cons]
      simp only [text_junction, String.append_assoc]

end Piece

namespace Tree

/-- A row of pieces, or its text in parentheses as one piece. -/
def bracketed (loose : Bool) (text : String) (ps : List Piece) : List Piece :=
  if loose then [.operand ("(" ++ text ++ ")")] else ps

mutual

/-- The pieces that a tree is written in. -/
def pieces : Tree → List Piece
  | .column path => [.operand (Tree.column path).rendered.text]
  | .whole n => [.operand (Tree.whole n).rendered.text]
  | .fractional m e => [.operand (Tree.fractional m e).rendered.text]
  | .text s => [.operand (Tree.text s).rendered.text]
  | .null => [.operand Tree.null.rendered.text]
  | .binary op left right =>
    bracketed (left.rendered.isLoose op.binding false) left.rendered.text left.pieces ++
      .operator op ::
        bracketed (right.rendered.isLoose op.binding true) right.rendered.text right.pieces
  | .nullTest negated operand =>
    bracketed (operand.rendered.isLoose .comparison false) operand.rendered.text operand.pieces ++
      [.nullTest negated]
  | .membership negated operand items =>
    bracketed (operand.rendered.isLoose .matching false) operand.rendered.text operand.pieces ++
      [.membership negated ("(" ++ joinTexts (renderedAll items) ++ ")")]
  | .range negated operand low high =>
    bracketed (operand.rendered.isLoose .matching false) operand.rendered.text operand.pieces ++
      .range negated ::
        (bracketed (low.rendered.isLoose .userOperator false) low.rendered.text low.pieces ++
          .bound ::
            bracketed (high.rendered.isLoose .userOperator false) high.rendered.text high.pieces)
  | .negation operand =>
    .negation ::
      bracketed (operand.rendered.isLoose .negation false) operand.rendered.text operand.pieces
  | .joined j operands => [.junction j].intercalate (operandPieces j operands)

/-- The pieces of the operands of a junction. -/
def operandPieces (j : Junction) : List Tree → List (List Piece)
  | [] => []
  | t :: rest =>
    bracketed (t.rendered.isLoose j.binding false) t.rendered.text t.pieces ::
      operandPieces j rest

end

/-- The pieces of a tree as an operand. -/
def operand (t : Tree) (place : Binding) (onRight : Bool) : List Piece :=
  bracketed (t.rendered.isLoose place onRight) t.rendered.text t.pieces

theorem operandPieces_eq_map (j : Junction) (ts : List Tree) :
    operandPieces j ts = ts.map fun t => t.operand j.binding false := by
  induction ts with
  | nil => rfl
  | cons t rest ih => rw [operandPieces, ih]; rfl

theorem pieces_binary (op : Infix) (left right : Tree) : (Tree.binary op left right).pieces =
    left.operand op.binding false ++ .operator op :: right.operand op.binding true := by
  rw [pieces]
  rfl

theorem pieces_nullTest (negated : Bool) (t : Tree) : (Tree.nullTest negated t).pieces =
    t.operand .comparison false ++ [.nullTest negated] := by
  rw [pieces]
  rfl

theorem pieces_membership (negated : Bool) (t : Tree) (items : List Tree) :
    (Tree.membership negated t items).pieces = t.operand .matching false ++
      [.membership negated ("(" ++ joinTexts (items.map rendered) ++ ")")] := by
  rw [pieces, renderedAll_eq_map]
  rfl

theorem pieces_range (negated : Bool) (t low high : Tree) :
    (Tree.range negated t low high).pieces = t.operand .matching false ++
      .range negated ::
        (low.operand .userOperator false ++ .bound :: high.operand .userOperator false) := by
  rw [pieces]
  rfl

theorem pieces_negation (t : Tree) :
    (Tree.negation t).pieces = .negation :: t.operand .negation false := by
  rw [pieces]
  rfl

theorem pieces_joined (j : Junction) (ts : List Tree) : (Tree.joined j ts).pieces =
    [.junction j].intercalate (ts.map fun t => t.operand j.binding false) := by
  rw [pieces, operandPieces_eq_map]

/-- A tree that is written as its pieces are. -/
structure IsText (t : Tree) : Prop where
  ne_nil : t.pieces ≠ []
  text : t.rendered.text = Piece.text t.pieces

namespace IsText

variable {t : Tree}

theorem of_operand (h : t.pieces = [.operand t.rendered.text]) : IsText t where
  ne_nil := by simp [h]
  text := by simp [h, Piece.text, Piece.words]

theorem operand_ne_nil (h : IsText t) {place : Binding} {onRight : Bool} :
    t.operand place onRight ≠ [] := by
  unfold Tree.operand bracketed
  split
  · simp
  · exact h.ne_nil

theorem operand_text (h : IsText t) (place : Binding) (onRight : Bool) :
    t.rendered.operand place onRight = Piece.text (t.operand place onRight) := by
  unfold Rendered.operand Tree.operand bracketed
  split
  · simp [Piece.text, Piece.words]
  · exact h.text

end IsText

/-- **A tree is written as its pieces.** -/
theorem Regular.isText {t : Tree} (h : Regular t) : IsText t := by
  induction h with
  | column _ _ => exact .of_operand rfl
  | whole => exact .of_operand rfl
  | fractional _ => exact .of_operand rfl
  | text => exact .of_operand rfl
  | null => exact .of_operand rfl
  | binary _ _ hleft hright =>
    refine ⟨by simp [pieces_binary], ?_⟩
    rw [pieces_binary, Piece.text_append hleft.operand_ne_nil (List.cons_ne_nil _ _),
      Piece.text_cons _ hright.operand_ne_nil, Piece.text_operator, rendered, Rendered.between,
      hleft.operand_text, hright.operand_text]
    simp only [String.append_assoc]
  | nullTest _ h =>
    refine ⟨by simp [pieces_nullTest], ?_⟩
    rw [pieces_nullTest, Piece.text_append h.operand_ne_nil (List.cons_ne_nil _ _),
      String.append_assoc, Piece.text_nullTest, rendered, h.operand_text]
  | membership _ _ h _ =>
    refine ⟨by simp [pieces_membership], ?_⟩
    rw [pieces_membership, Piece.text_append h.operand_ne_nil (List.cons_ne_nil _ _),
      Piece.text_membership, rendered, renderedAll_eq_map, h.operand_text]
    simp only [String.append_assoc]
    rfl
  | range _ _ _ h hlow hhigh =>
    refine ⟨by simp [pieces_range], ?_⟩
    rw [pieces_range, Piece.text_append h.operand_ne_nil (List.cons_ne_nil _ _),
      Piece.text_cons _ (List.append_ne_nil_of_left_ne_nil hlow.operand_ne_nil _),
      Piece.text_append hlow.operand_ne_nil (List.cons_ne_nil _ _),
      Piece.text_cons _ hhigh.operand_ne_nil, Piece.text_range, rendered, h.operand_text,
      hlow.operand_text, hhigh.operand_text]
    simp only [String.append_assoc]
    rfl
  | negation _ h =>
    refine ⟨by simp [pieces_negation], ?_⟩
    rw [pieces_negation, Piece.text_cons _ h.operand_ne_nil, rendered, h.operand_text]
    rfl
  | @joined j ts hlen _ _ h =>
    have hne : ∀ ps ∈ ts.map (fun t => t.operand j.binding false), ps ≠ [] := by
      intro ps hps
      obtain ⟨t, ht, rfl⟩ := List.mem_map.1 hps
      exact (h t ht).operand_ne_nil
    refine ⟨?_, ?_⟩
    · obtain ⟨t, ts, rfl⟩ := List.exists_cons_of_length_pos (show 0 < ts.length by omega)
      rw [pieces_joined]
      exact Sqlite.intercalate_ne_nil (h t (List.mem_cons_self ..)).operand_ne_nil _
    · rw [pieces_joined, Piece.text_intercalate j hne, rendered, renderedAll_eq_map]
      simp only [List.map_map]
      congr 1
      exact List.map_congr_left fun t ht => (h t ht).operand_text j.binding false

end Tree

/-! ### Words -/

/-- A text without a blank or a comma outside quotes and parentheses, all of which close. -/
structure IsWord (s : String) : Prop where
  ne_nil : s.toList ≠ []
  closed : Closed s.toList
  blank : Solid ' ' s.toList
  comma : Solid ',' s.toList

namespace IsWord

variable {s : String}

theorem of_chars (hne : s.toList ≠ []) (hclosed : Closed s.toList)
    (h : ∀ c ∈ s.toList, c ≠ ' ' ∧ c ≠ ',') : IsWord s where
  ne_nil := hne
  closed := hclosed
  blank := .of_notMem fun hc => (h ' ' hc).1 rfl
  comma := .of_notMem fun hc => (h ',' hc).2 rfl

/-- A word that is spelled out. -/
theorem of_run {last : Char} (hne : s.toList ≠ [])
    (hrun : (Sqlite.Zone.code ' ').run 0 s.toList = some (.code last, 0))
    (h : s.toList.all fun c => c ≠ ' ' && c ≠ ',') : IsWord s :=
  .of_chars hne (Sqlite.isClosed_iff.1 ⟨last, hrun⟩) (by simpa using h)

theorem parens (h : Closed s.toList) : IsWord ("(" ++ s ++ ")") := by
  constructor
  · simp
  · rw [Sqlite.toList_parens]
    exact h.parens
  · rw [Sqlite.toList_parens]
    exact .parens h (by decide)
  · rw [Sqlite.toList_parens]
    exact .parens h (by decide)

theorem enclosed {quote : Char} (hquote : quote = '\'' ∨ quote = '"') :
    IsWord (Sql.enclosed quote s) := by
  have hq : Sqlite.isQuote quote := by
    rcases hquote with rfl | rfl <;> rfl
  refine ⟨by simp [Sql.enclosed], .enclosed hq s, .enclosed hq ?_ s, .enclosed hq ?_ s⟩ <;>
    rcases hquote with rfl | rfl <;> decide

theorem identifier (name : String) : IsWord (Sql.identifier name) := by
  have hclosed := Sqlite.closed_identifier name
  unfold Sql.identifier at hclosed ⊢
  split
  · exact .enclosed (.inr rfl)
  · rename_i hquote
    rw [if_neg hquote] at hclosed
    simp only [Sql.needsQuoting, Bool.or_eq_true, Bool.not_eq_true', not_or,
      Bool.not_eq_false] at hquote
    refine .of_chars ?_ hclosed fun c hc => ?_
    · intro hnil
      rw [hnil] at hquote
      exact absurd hquote.2 (by decide)
    · have hne : ∀ d, (Sql.isWord d || d = '\n') = false → c ≠ d := by
        rintro d hd rfl
        rcases Sqlite.isWord_of_isBare hquote.2 c hc with hword | rfl
        · simp [hword] at hd
        · cases hd
      exact ⟨hne ' ' (by decide), hne ',' (by decide)⟩

/-- Parts of a path. -/
theorem path {names : List String} (hne : names ≠ []) :
    IsWord (String.intercalate "." (names.map Sql.identifier)) := by
  have hdot : Glue ".".toList := .of_harmless (by simp) (by simp; rfl)
  have hparts : ∀ cs ∈ (names.map Sql.identifier).map String.toList,
      Closed cs ∧ Solid ' ' cs ∧ Solid ',' cs := by
    intro cs hcs
    simp only [List.map_map, List.mem_map, Function.comp_apply] at hcs
    obtain ⟨name, _, hname⟩ := hcs
    rw [← hname]
    exact ⟨(identifier name).closed, (identifier name).blank, (identifier name).comma⟩
  constructor
  · obtain ⟨name, names, rfl⟩ := List.exists_cons_of_ne_nil hne
    rw [String.toList_intercalate]
    exact Sqlite.intercalate_ne_nil (identifier name).ne_nil _
  · rw [String.toList_intercalate]
    exact .intercalate hdot fun cs hcs => (hparts cs hcs).1
  · rw [String.toList_intercalate]
    exact .intercalate hdot (.of_notMem (by decide)) fun cs hcs =>
      ⟨(hparts cs hcs).1, (hparts cs hcs).2.1⟩
  · rw [String.toList_intercalate]
    exact .intercalate hdot (.of_notMem (by decide)) fun cs hcs =>
      ⟨(hparts cs hcs).1, (hparts cs hcs).2.2⟩

/-- A numeral in the characters of decimals. -/
theorem of_decimalChars (hne : s.toList ≠ []) (hclosed : Closed s.toList)
    (h : ∀ c ∈ s.toList, c ∈ Numeral.decimalChars) : IsWord s := by
  have hchars : Numeral.decimalChars.all fun c => c ≠ ' ' && c ≠ ',' := by decide
  refine .of_chars hne hclosed fun c hc => ?_
  simpa using List.all_eq_true.1 hchars c (h c hc)

theorem whole (n : Nat) : IsWord (writeNat n) := by
  have hdigits := Numeral.isDigits_digitChars n
  rw [← String.toList_ofList (l := digitChars n)] at hdigits
  exact .of_decimalChars hdigits.ne_nil (Json.sqlLiteral_spec (.int n)).1 fun c hc =>
    Numeral.mem_decimalChars (hdigits.digits c hc)

theorem fractional (m : Nat) (e : Int) :
    IsWord ((Binary64.finite false m e).write .plain) := by
  refine .of_decimalChars (fun hnil => ?_) (Json.sqlLiteral_spec (.float (.finite false m e))).1
    (Binary64.chars_write .plain m e)
  obtain ⟨coefficient, k, hread, _⟩ := Binary64.spells_write .plain m e
  rw [hnil] at hread
  cases hread

theorem text (s : String) : IsWord (Sql.textLiteral s) := .enclosed (.inl rfl)

theorem operator (op : Infix) : ∀ w ∈ op.words, IsWord w := by
  intro w hw
  cases op <;> simp only [Infix.words, List.mem_cons, List.not_mem_nil, or_false] at hw
  case notLike => rcases hw with rfl | rfl <;> exact .of_run (by simp) rfl rfl
  all_goals
    subst hw
    exact .of_run (by simp) rfl rfl

theorem keyword {w : String} (h : w ∈ ["NOT", "IS", "NULL", "IN", "BETWEEN", "AND", "OR"]) :
    IsWord w := by
  simp only [List.mem_cons, List.not_mem_nil, or_false] at h
  rcases h with rfl | rfl | rfl | rfl | rfl | rfl | rfl <;> exact .of_run (by simp) rfl rfl

/-- A piece is made of words if what it has of a tree is one. -/
theorem of_piece {p : Piece} (h : ∀ w ∈ p.given, IsWord w) : ∀ w ∈ p.words, IsWord w := by
  intro w hw
  cases p with
  | operand word => exact h w hw
  | operator op => exact operator op w hw
  | membership negated items =>
    rcases List.mem_append.1 hw with hw | hw
    · refine keyword ?_
      cases negated <;> simp_all [Piece.notWords]
    · rcases List.mem_cons.1 hw with rfl | hw
      · exact keyword (by simp)
      · exact h w hw
  | nullTest negated | range negated =>
    refine keyword ?_
    cases negated <;> simp_all [Piece.words, Piece.notWords] <;> tauto
  | bound | negation =>
    refine keyword ?_
    simp_all [Piece.words]
  | junction j =>
    refine keyword ?_
    cases j <;> simp_all [Piece.words]

end IsWord

/-- The pieces are made of words. -/
def AreWords (ps : List Piece) : Prop := ∀ p ∈ ps, ∀ w ∈ p.words, IsWord w

namespace AreWords

variable {ps qs : List Piece}

theorem append (hp : AreWords ps) (hq : AreWords qs) : AreWords (ps ++ qs) :=
  List.forall_mem_append.2 ⟨hp, hq⟩

theorem cons {p : Piece} (hp : ∀ w ∈ p.given, IsWord w) (hq : AreWords qs) : AreWords (p :: qs) :=
  List.forall_mem_cons.2 ⟨.of_piece hp, hq⟩

theorem single {p : Piece} (hp : ∀ w ∈ p.given, IsWord w) : AreWords [p] :=
  .cons hp (List.forall_mem_nil _)

theorem operand {word : String} (h : IsWord word) : AreWords [.operand word] :=
  .single (by simpa [Piece.given] using h)

theorem isWord (h : AreWords ps) : ∀ w ∈ ps.flatMap Piece.words, IsWord w := by
  intro w hw
  obtain ⟨p, hp, hw⟩ := List.mem_flatMap.1 hw
  exact h p hp w hw

theorem closed_text (h : AreWords ps) : Closed (Piece.text ps).toList := by
  rw [Piece.text, String.toList_intercalate]
  refine .intercalate (.of_harmless (by simp) (by simp; rfl)) fun cs hcs => ?_
  obtain ⟨w, hw, rfl⟩ := List.mem_map.1 hcs
  exact (h.isWord w hw).closed

theorem solid_text (h : AreWords ps) : Solid ',' (Piece.text ps).toList := by
  rw [Piece.text, String.toList_intercalate]
  refine .intercalate (.of_harmless (by simp) (by simp; rfl)) (.of_notMem (by decide)) fun cs hcs => ?_
  obtain ⟨w, hw, rfl⟩ := List.mem_map.1 hcs
  exact ⟨(h.isWord w hw).closed, (h.isWord w hw).comma⟩

/-- Words are found again in their text. -/
theorem words_eq (hp : AreWords ps) (hq : AreWords qs) (h : Piece.text ps = Piece.text qs) :
    ps.flatMap Piece.words = qs.flatMap Piece.words := by
  have hsegments : ∀ {ps : List Piece}, AreWords ps →
      ∀ cs ∈ (ps.flatMap Piece.words).map String.toList, Segment ' ' cs := by
    intro ps hp cs hcs
    obtain ⟨w, hw, rfl⟩ := List.mem_map.1 hcs
    have := hp.isWord w hw
    exact ⟨this.ne_nil, this.closed, this.blank⟩
  have htext := congrArg String.toList h
  rw [Piece.text, Piece.text, String.toList_intercalate, String.toList_intercalate] at htext
  have := Segment.intercalate_inj (hsegments hp) (hsegments hq) htext
  exact List.map_injective_iff.2 (fun _ _ => String.toList_inj.1) this

end AreWords

theorem areWords_operand {t : Tree} (ht : Tree.IsText t) (h : AreWords t.pieces) {place : Binding}
    {onRight : Bool} : AreWords (t.operand place onRight) := by
  unfold Tree.operand Tree.bracketed
  split
  · refine .operand (.parens ?_)
    rw [ht.text]
    exact h.closed_text
  · exact h

namespace Tree

/-- **A tree is written in words.** -/
theorem Regular.areWords {t : Tree} (h : Regular t) : AreWords t.pieces := by
  induction h with
  | column hne _ => exact .operand (.path hne)
  | @whole n => exact .operand (.whole n)
  | @fractional m e _ => exact .operand (.fractional m e)
  | @text s => exact .operand (.text s)
  | null => exact .operand (.of_run (by simp [rendered, Rendered.atom]) rfl rfl)
  | binary hleft hright ihleft ihright =>
    rw [pieces_binary]
    exact (areWords_operand hleft.isText ihleft).append
      (.cons (by simp [Piece.given]) (areWords_operand hright.isText ihright))
  | nullTest h ih =>
    rw [pieces_nullTest]
    exact (areWords_operand h.isText ih).append (.single (by simp [Piece.given]))
  | membership h hitems ih ihitems =>
    rw [pieces_membership]
    refine (areWords_operand h.isText ih).append (.single fun w hw => ?_)
    obtain rfl := List.mem_singleton.1 hw
    refine .parens ?_
    rw [joinTexts, String.toList_intercalate]
    refine .intercalate (.of_harmless (by simp) (by simp; decide)) fun cs hcs => ?_
    simp only [List.map_map, List.mem_map, Function.comp_apply] at hcs
    obtain ⟨t, ht, rfl⟩ := hcs
    rw [(hitems t ht).isText.text]
    exact (ihitems t ht).closed_text
  | range h hlow hhigh ih ihlow ihhigh =>
    rw [pieces_range]
    exact (areWords_operand h.isText ih).append (.cons (by simp [Piece.given])
      ((areWords_operand hlow.isText ihlow).append (.cons (by simp [Piece.given])
        (areWords_operand hhigh.isText ihhigh))))
  | negation h ih =>
    rw [pieces_negation]
    exact .cons (by simp [Piece.given]) (areWords_operand h.isText ih)
  | @joined j ts _ hts _ ih =>
    rw [pieces_joined]
    intro p hp
    rcases Sqlite.mem_intercalate hp with hp | ⟨ps, hps, hp⟩
    · obtain rfl := List.mem_singleton.1 hp
      exact .of_piece (by simp [Piece.given])
    · obtain ⟨t, ht, rfl⟩ := List.mem_map.1 hps
      exact areWords_operand (hts t ht).isText (ih t ht) p hp

variable {t t' : Tree}

/-- The words of a tree are found in its text. -/
theorem Regular.words_eq (h : Regular t) (h' : Regular t')
    (htext : t.rendered.text = t'.rendered.text) :
    t.pieces.flatMap Piece.words = t'.pieces.flatMap Piece.words := by
  rw [h.isText.text, h'.isText.text] at htext
  exact h.areWords.words_eq h'.areWords htext

theorem Regular.segment (h : Regular t) : Segment ',' t.rendered.text.toList := by
  rw [h.isText.text]
  refine ⟨?_, h.areWords.closed_text, h.areWords.solid_text⟩
  obtain ⟨w, ws, hws⟩ := List.exists_cons_of_ne_nil (Piece.flatMap_words_ne_nil h.isText.ne_nil)
  have hw := h.areWords.isWord w (by simp [hws])
  rw [Piece.text, hws, String.toList_intercalate]
  exact Sqlite.intercalate_ne_nil hw.ne_nil _

/-- The texts in a list are found in the text of the list. -/
theorem texts_eq {ts ts' : List Tree} (h : ∀ t ∈ ts, Regular t) (h' : ∀ t ∈ ts', Regular t)
    (htext : joinTexts (ts.map rendered) = joinTexts (ts'.map rendered)) :
    (ts.map rendered).map Rendered.text = (ts'.map rendered).map Rendered.text := by
  have hsegments : ∀ {ts : List Tree}, (∀ t ∈ ts, Regular t) →
      ∀ cs ∈ ((ts.map rendered).map Rendered.text).map String.toList, Segment ',' cs := by
    intro ts h cs hcs
    simp only [List.map_map, List.mem_map, Function.comp_apply] at hcs
    obtain ⟨t, ht, rfl⟩ := hcs
    exact (h t ht).segment
  have hlist := congrArg String.toList htext
  rw [joinTexts, joinTexts, String.toList_intercalate, String.toList_intercalate] at hlist
  exact List.map_injective_iff.2 (fun _ _ => String.toList_inj.1)
    (Segment.intercalate_inj (m := [' ']) (hsegments h) (hsegments h') hlist)

end Tree

end StrictDdl.Postgres
