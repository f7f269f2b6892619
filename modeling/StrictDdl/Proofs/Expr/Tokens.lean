import StrictDdl.Proofs.Expr.Tree
import StrictDdl.Proofs.Sqlite.Grammar
import StrictDdl.Proofs.Sqlite.Scanning

/-! The tokens of a rendered tree.

`Tree.tokens` are the tokens that a tree is written with, parentheses where its text
has them. The scanner cuts the text of a tree into what each of these tokens is read
as (`Regular.tokens?_text`). -/
namespace StrictDdl.Sqlite

namespace Tree

/-- Whether the text of a tree stands in parentheses in a place of this binding. -/
def isLoose (t : Tree) (place : Binding) (onRight : Bool) : Bool :=
  t.rendered.isLoose place onRight

/-- Tokens with parentheses around them, or as they are. -/
def bracketed (loose : Bool) (w : List Token) : List Token :=
  if loose then .opening :: (w ++ [.closing]) else w

mutual

/-- The tokens that a tree is written with. -/
def tokens : Tree → List Token
  | .column path => separated .dot (path.map fun s => [.name s])
  | .whole n => [.whole n]
  | .fractional numeral => [.fractional numeral]
  | .text s => [.text s]
  | .binary op left right =>
    bracketed (left.isLoose op.binding false) left.tokens ++
      (op.tokens ++ bracketed (right.isLoose op.binding true) right.tokens)
  | .nullTest negated operand =>
    bracketed (operand.isLoose .comparison false) operand.tokens ++
      (Suffix.nullTest negated).tokens
  | .membership negated operand items =>
    bracketed (operand.isLoose .matching false) operand.tokens ++
      ((Suffix.membership negated).tokens ++
        .opening :: (separated .comma (tokensAll items) ++ [.closing]))
  | .range negated operand low high =>
    bracketed (operand.isLoose .matching false) operand.tokens ++
      ((Suffix.range negated).tokens ++
        (bracketed (low.isLoose .userOperator false) low.tokens ++
          .keyword .and :: bracketed (high.isLoose .userOperator false) high.tokens))
  | .negation operand =>
    .keyword .not :: bracketed (operand.isLoose .negation false) operand.tokens
  | .joined j operands => separated j.token (operandTokens j operands)

def tokensAll : List Tree → List (List Token)
  | [] => []
  | t :: rest => t.tokens :: tokensAll rest

/-- The tokens of the operands of a junction. -/
def operandTokens (j : Junction) : List Tree → List (List Token)
  | [] => []
  | t :: rest => bracketed (t.isLoose j.binding false) t.tokens :: operandTokens j rest

end

/-- The tokens of a tree as an operand. -/
def operand (t : Tree) (place : Binding) (onRight : Bool) : List Token :=
  bracketed (t.isLoose place onRight) t.tokens

theorem tokensAll_eq_map (ts : List Tree) : tokensAll ts = ts.map tokens := by
  induction ts with
  | nil => rfl
  | cons t rest ih => rw [tokensAll, ih]; rfl

theorem operandTokens_eq_map (j : Junction) (ts : List Tree) :
    operandTokens j ts = ts.map fun t => t.operand j.binding false := by
  induction ts with
  | nil => rfl
  | cons t rest ih => rw [operandTokens, ih]; rfl

theorem tokens_membership (negated : Bool) (t : Tree) (items : List Tree) :
    (Tree.membership negated t items).tokens = t.operand .matching false ++
      ((Suffix.membership negated).tokens ++
        .opening :: (separated .comma (items.map tokens) ++ [.closing])) := by
  rw [tokens, tokensAll_eq_map]
  rfl

theorem tokens_joined (j : Junction) (ts : List Tree) : (Tree.joined j ts).tokens =
    separated j.token (ts.map fun t => t.operand j.binding false) := by
  rw [tokens, operandTokens_eq_map]

end Tree

/-! ### Pieces of text -/

namespace Mode

/-- The mode behind some characters, and the tokens read on the way. -/
def through (m : Mode) : List Char → Option (List Token × Mode)
  | [] => some ([], m)
  | c :: cs =>
    match m.step c with
    | none => none
    | some (ts, m') =>
      match m'.through cs with
      | none => none
      | some (more, m'') => some (ts ++ more, m'')

theorem Passes.of_through {m m' : Mode} {cs : List Char} {ts : List Token}
    (h : m.through cs = some (ts, m')) : Passes m cs ts m' := by
  induction cs generalizing m ts with
  | nil =>
    simp only [through, Option.some.injEq, Prod.mk.injEq] at h
    obtain ⟨rfl, rfl⟩ := h
    exact .nil
  | cons c cs ih =>
    rw [through] at h
    split at h
    · cases h
    · rename_i first next hstep
      split at h
      · cases h
      · rename_i more last hrest
        simp only [Option.some.injEq, Prod.mk.injEq] at h
        obtain ⟨rfl, rfl⟩ := h
        exact .cons hstep (ih hrest)

namespace Lexes

variable {p q : Char → Bool} {u v : List Char} {ts ts' : List Token}

/-- Pieces with a separator between them. -/
theorem intercalate {sep : List Char} {tok : Token} (hsep : Passes .start sep [tok] .start)
    (hne : sep ≠ []) (hp : ∀ c ∈ sep.head?, p c) (pieces : List (List Char × List Token))
    (h : ∀ piece ∈ pieces, Lexes p piece.1 piece.2) :
    Lexes p (sep.intercalate (pieces.map Prod.fst)) (separated tok (pieces.map Prod.snd)) := by
  induction pieces with
  | nil => exact of_passes .nil
  | cons piece pieces ih =>
    have hfirst := h piece (List.mem_cons_self ..)
    cases pieces with
    | nil => simpa [separated] using hfirst
    | cons next pieces =>
      have hrest := ih fun x hx => h x (List.mem_cons_of_mem piece hx)
      simp only [List.map_cons, separated, List.intercalate_cons_cons] at hrest ⊢
      rw [List.append_assoc]
      refine hfirst.append (behind hsep hrest) (by simp [hne]) fun c hc => hp c ?_
      obtain ⟨d, sep, rfl⟩ := List.exists_cons_of_ne_nil hne
      exact hc

theorem bracketed (h : Lexes endsExpr u ts) :
    Lexes endsExpr ('(' :: (u ++ [')'])) (.opening :: (ts ++ [.closing])) := by
  have hopen : Passes .start ['('] [.opening] .start := .of_through rfl
  have hclose : Passes .start [')'] [.closing] .start := .of_through rfl
  exact behind hopen (h.append (of_passes hclose) (by simp) (by simp; decide))

end Lexes

theorem passes_operator (op : Infix) :
    Passes .start (" " ++ op.text ++ " ").toList op.tokens .start := by
  cases op <;> exact .of_through rfl

theorem passes_junction (j : Junction) : Passes .start j.text.toList [j.token] .start := by
  cases j <;> exact .of_through rfl

theorem lexes_nullTest (negated : Bool) :
    Lexes endsExpr (if negated then " IS NOT NULL" else " IS NULL").toList
      (Suffix.nullTest negated).tokens := by
  have hword : Token.ofWord ['N', 'U', 'L', 'L'] = .keyword .null := rfl
  have hnull : Lexes endsExpr ['N', 'U', 'L', 'L'] [.keyword .null] := by
    rw [← hword]
    exact (lexes_word (by decide) (List.all_eq_true.mp rfl)).mono endsName_of_endsExpr
  cases negated with
  | false =>
    have his : Passes .start [' ', 'I', 'S', ' '] [.keyword .is] .start := .of_through rfl
    exact Lexes.behind his hnull
  | true =>
    have his : Passes .start [' ', 'I', 'S', ' ', 'N', 'O', 'T', ' '] [.keyword .is, .keyword .not]
      .start := .of_through rfl
    exact Lexes.behind his hnull

theorem passes_membership (negated : Bool) :
    Passes .start (" " ++ Expr.negatedWord negated "IN" ++ " (").toList
      ((Suffix.membership negated).tokens ++ [.opening]) .start := by
  cases negated <;> exact .of_through rfl

theorem passes_range (negated : Bool) :
    Passes .start (" " ++ Expr.betweenWord negated false ++ " ").toList
      (Suffix.range negated).tokens .start := by
  cases negated <;> exact .of_through rfl

end Mode

/-! ### The text of a tree -/

namespace Token

/-- What the scanner reads where several tokens were written. -/
def scannedAll (w : List Token) : List Token := w.flatMap scanned

@[simp] theorem scannedAll_nil : scannedAll [] = [] := rfl

@[simp] theorem scannedAll_cons (t : Token) (w : List Token) :
    scannedAll (t :: w) = t.scanned ++ scannedAll w := rfl

@[simp] theorem scannedAll_append (u v : List Token) :
    scannedAll (u ++ v) = scannedAll u ++ scannedAll v := List.flatMap_append

theorem scannedAll_operator (op : Infix) : scannedAll op.tokens = op.tokens := by
  cases op <;> rfl

theorem scannedAll_suffix (s : Suffix) : scannedAll s.tokens = s.tokens := by
  cases s with
  | binary op => exact scannedAll_operator op
  | joined j => cases j <;> rfl
  | nullTest negated => cases negated <;> rfl
  | membership negated => cases negated <;> rfl
  | range negated => cases negated <;> rfl

theorem scannedAll_separated {sep : Token} (h : sep.scanned = [sep]) (ws : List (List Token)) :
    scannedAll (separated sep ws) = separated sep (ws.map scannedAll) := by
  induction ws with
  | nil => rfl
  | cons w ws ih =>
    cases ws with
    | nil => rfl
    | cons v ws =>
      simp only [separated, scannedAll_append, scannedAll_cons, h, ih, List.map_cons]
      rfl

end Token

namespace Tree

open Mode Token

/-- The text of a tree is read as its tokens are. -/
def LexesText (t : Tree) : Prop := Lexes endsExpr t.rendered.text.toList (scannedAll t.tokens)

variable {t : Tree}

theorem LexesText.operand (h : LexesText t) (place : Binding) (onRight : Bool) :
    Lexes endsExpr (t.rendered.operand place onRight).toList
      (scannedAll (t.operand place onRight)) := by
  rw [Rendered.operand, Tree.operand, Tree.isLoose]
  cases t.rendered.isLoose place onRight with
  | false => exact h
  | true =>
    have := h.bracketed
    simpa [Tree.bracketed, scanned] using this

/-- Several texts with a separator between them. -/
theorem lexes_texts {α : Type} {p : Char → Bool} {sep : String} {tok : Token}
    (hsep : Passes .start sep.toList [tok] .start) (hne : sep.toList ≠ [])
    (hends : ∀ c ∈ sep.toList.head?, p c) (htok : tok.scanned = [tok]) {text : α → String}
    {words : α → List Token} (xs : List α)
    (h : ∀ x ∈ xs, Lexes p (text x).toList (scannedAll (words x))) :
    Lexes p (String.intercalate sep (xs.map text)).toList
      (scannedAll (separated tok (xs.map words))) := by
  have hpieces : ∀ piece ∈ xs.map (fun x => ((text x).toList, scannedAll (words x))),
      Lexes p piece.1 piece.2 := by
    intro piece hpiece
    obtain ⟨x, hx, rfl⟩ := List.mem_map.1 hpiece
    exact h x hx
  have := Lexes.intercalate hsep hne hends _ hpieces
  rw [String.toList_intercalate, scannedAll_separated htok, List.map_map, List.map_map]
  rw [List.map_map, List.map_map] at this
  exact this

theorem lexesText_column (path : List String) : LexesText (.column path) := by
  have hdot : Passes .start ".".toList [.dot] .start := .of_through rfl
  have hname : ∀ s ∈ path, Lexes endsName (Sql.identifier s).toList (scannedAll [.name s]) := by
    intro s _
    rw [scannedAll_cons, scannedAll_nil, List.append_nil]
    exact lexes_identifier s
  have hpath := lexes_texts hdot (by simp) (by simp; decide) rfl path hname
  rw [LexesText, rendered, tokens]
  exact hpath.mono endsName_of_endsExpr

theorem lexesText_binary (op : Infix) {left right : Tree} (hleft : LexesText left)
    (hright : LexesText right) : LexesText (.binary op left right) := by
  have htail := Lexes.behind (passes_operator op) (hright.operand op.binding true)
  have := (hleft.operand op.binding false).append htail (by simp) (by simp; decide)
  simpa [LexesText, rendered, Rendered.between, tokens, Tree.operand, scannedAll_operator] using this

theorem lexesText_nullTest (negated : Bool) (h : LexesText t) :
    LexesText (.nullTest negated t) := by
  have := (h.operand .comparison false).append (lexes_nullTest negated)
    (by cases negated <;> simp) (by cases negated <;> simp <;> decide)
  simpa [LexesText, rendered, tokens, Tree.operand, scannedAll_suffix] using this

theorem lexesText_membership (negated : Bool) {items : List Tree} (h : LexesText t)
    (hitems : ∀ t ∈ items, LexesText t) : LexesText (.membership negated t items) := by
  have hcomma : Passes .start ", ".toList [.comma] .start := .of_through rfl
  have hclose : Lexes endsExpr ")".toList [.closing] := .of_passes (.of_through rfl)
  have hlist := lexes_texts hcomma (by simp) (by simp; decide) rfl items hitems
  have htail := Lexes.behind (passes_membership negated)
    (hlist.append hclose (by simp) (by simp; decide))
  have := (h.operand .matching false).append htail (by simp) (by simp; decide)
  rw [LexesText, tokens_membership, rendered, joinTexts, renderedAll_eq_map, List.map_map]
  simpa [scannedAll_suffix, Function.comp_def, scanned] using this

theorem lexesText_range (negated : Bool) {low high : Tree} (h : LexesText t)
    (hlow : LexesText low) (hhigh : LexesText high) : LexesText (.range negated t low high) := by
  have hand : Passes .start " AND ".toList [.keyword .and] .start := .of_through rfl
  have hbounds := (hlow.operand .userOperator false).append
    (Lexes.behind hand (hhigh.operand .userOperator false)) (by simp) (by simp; decide)
  have htail := Lexes.behind (passes_range negated) hbounds
  have := (h.operand .matching false).append htail (by simp) (by simp; decide)
  simpa [LexesText, rendered, tokens, Tree.operand, scannedAll_suffix, scanned] using this

theorem lexesText_negation (h : LexesText t) : LexesText (.negation t) := by
  have hnot : Passes .start "NOT ".toList [.keyword .not] .start := .of_through rfl
  have := Lexes.behind hnot (h.operand .negation false)
  simpa [LexesText, rendered, tokens, Tree.operand, scanned] using this

theorem lexesText_joined (j : Junction) {ts : List Tree} (h : ∀ t ∈ ts, LexesText t) :
    LexesText (.joined j ts) := by
  have hends : ∀ c ∈ j.text.toList.head?, endsExpr c := by
    cases j <;> simp [Junction.text] <;> decide
  have hne : j.text.toList ≠ [] := by cases j <;> simp [Junction.text]
  have htok : j.token.scanned = [j.token] := by cases j <;> rfl
  have := lexes_texts (passes_junction j) hne hends htok ts
    fun t ht => (h t ht).operand j.binding false
  rw [LexesText, tokens_joined, rendered, renderedAll_eq_map, List.map_map]
  exact this

theorem Regular.lexesText (h : Regular t) : LexesText t := by
  induction h with
  | @column path _ => exact lexesText_column path
  | @whole n => exact lexes_whole n
  | @fractional x _ => simpa [LexesText, tokens, rendered, Rendered.atom] using lexes_number x
  | @text s => exact lexes_textLiteral s
  | binary _ _ hleft hright => exact lexesText_binary _ hleft hright
  | nullTest _ h => exact lexesText_nullTest _ h
  | membership _ _ h hitems => exact lexesText_membership _ h hitems
  | range _ _ _ h hlow hhigh => exact lexesText_range _ h hlow hhigh
  | negation _ h => exact lexesText_negation h
  | joined _ _ _ h => exact lexesText_joined _ h

/-- **The tokens of a text are the tokens of its tree, each as it is read.** -/
theorem Regular.tokens?_text (h : Regular t) :
    tokens? t.rendered.text = some (scannedAll t.tokens) := by
  have := h.lexesText [] (by simp)
  simpa [tokens?, scan, close?] using this

end Tree

end StrictDdl.Sqlite
