import StrictDdl.Expr.Render
import StrictDdl.Proofs.Sqlite.Reader

/-! Expressions as trees of the target database.

`Expr.tree?` is the tree of an expression that is built from columns, constants,
operators of both dialects, memberships, ranges, matches, tests and connectives; all
other expressions have none. Every expression with a tree is rendered, and its text
depends on its tree alone (`Expr.written`). -/
namespace StrictDdl

/-- Whether a number is not below zero. -/
def Expr.isNonnegative (x : Binary64) : Bool := x ≠ .nan && !(Number.float x).lt (.int 0)

/-! ### Lists of parts -/

section Parts

variable {α : Type} {parts : α → List α} {xs : List α}

theorem length_le_flatMap (hne : ∀ x ∈ xs, parts x ≠ []) : xs.length ≤ (xs.flatMap parts).length := by
  induction xs with
  | nil => simp
  | cons x xs ih =>
    obtain ⟨hx, hxs⟩ := List.forall_mem_cons.1 hne
    have hpos := List.length_pos_iff.2 hx
    have hrest := ih hxs
    rw [List.flatMap_cons, List.length_append, List.length_cons]
    omega

/-- Joining texts and joining the texts of the parts that each of them is joined of is the same. -/
theorem intercalate_flatMap {sep : String} {text : α → String} (hne : ∀ x ∈ xs, parts x ≠ [])
    (htext : ∀ x ∈ xs, text x = String.intercalate sep ((parts x).map text)) :
    String.intercalate sep (xs.map text) =
      String.intercalate sep ((xs.flatMap parts).map text) := by
  induction xs with
  | nil => rfl
  | cons x xs ih =>
    obtain ⟨hx, hxs⟩ := List.forall_mem_cons.1 hne
    obtain ⟨hfirst, hrest⟩ := List.forall_mem_cons.1 htext
    cases xs with
    | nil => simpa using hfirst
    | cons y ys =>
      have hflat : (y :: ys).flatMap parts ≠ [] := by
        rw [List.flatMap_cons]
        exact List.append_ne_nil_of_left_ne_nil (hxs y (List.mem_cons_self ..)) _
      rw [List.flatMap_cons, List.map_append,
        String.intercalate_append_of_ne_nil (by simpa using hx) (by simpa using hflat),
        ← ih hxs hrest, ← hfirst, List.map_cons, List.map_cons, String.intercalate_cons_cons]

end Parts

/-! ### The text of a tree -/

namespace Sqlite

namespace Infix

def text : Infix → String
  | .eq => "="
  | .ne => "<>"
  | .is => "IS"
  | .isNot => "IS NOT"
  | .like => "LIKE"
  | .notLike => "NOT LIKE"
  | .lt => "<"
  | .le => "<="
  | .gt => ">"
  | .ge => ">="
  | .add => "+"
  | .sub => "-"
  | .mul => "*"
  | .div => "/"
  | .mod => "%"
  | .concat => "||"

/-- The binding that the operator is rendered with. -/
def binding : Infix → Binding
  | .eq | .ne | .lt | .le | .gt | .ge => .comparison
  | .is | .isNot => .test
  | .like | .notLike => .matching
  | .add | .sub => .sum
  | .mul | .div | .mod => .product
  | .concat => .userOperator

/-- The operators that both dialects have. -/
def shared : List (String × Infix) :=
  [("=", eq), ("<>", ne), ("<", lt), (">", gt), ("<=", le), (">=", ge), ("+", add), ("-", sub),
   ("*", mul), ("/", div), ("%", mod), ("||", concat)]

end Infix

namespace Junction

def text : Junction → String
  | .any => " OR "
  | .all => " AND "

def binding : Junction → Binding
  | .any => .disjunction
  | .all => .conjunction

end Junction

namespace Tree

mutual

/-- The text of a tree and its binding. -/
def rendered : Tree → Rendered
  | .column path => .atom (String.intercalate "." (path.map Sql.identifier))
  | .whole n => .atom (writeNat n)
  | .fractional numeral => .atom numeral
  | .text s => .atom (Sql.textLiteral s)
  | .binary op left right => left.rendered.between op.text right.rendered op.binding
  | .nullTest negated operand =>
    ⟨operand.rendered.operand .comparison false ++
      (if negated then " IS NOT NULL" else " IS NULL"), .test⟩
  | .membership negated operand items =>
    ⟨operand.rendered.operand .matching false ++ " " ++ Expr.negatedWord negated "IN" ++ " (" ++
      joinTexts (renderedAll items) ++ ")", .matching⟩
  | .range negated operand low high =>
    ⟨operand.rendered.operand .matching false ++ " " ++ Expr.betweenWord negated false ++ " " ++
      low.rendered.operand .userOperator false ++ " AND " ++
      high.rendered.operand .userOperator false, .matching⟩
  | .negation operand => ⟨"NOT " ++ operand.rendered.operand .negation false, .negation⟩
  | .joined j operands =>
    ⟨String.intercalate j.text
      ((renderedAll operands).map fun r => r.operand j.binding false), j.binding⟩

def renderedAll : List Tree → List Rendered
  | [] => []
  | t :: rest => t.rendered :: renderedAll rest

end

theorem renderedAll_eq_map (ts : List Tree) : renderedAll ts = ts.map rendered := by
  induction ts with
  | nil => rfl
  | cons t rest ih => rw [renderedAll, ih]; rfl

/-- The trees that expressions have: no path is empty, a numeral is that of a number, and
a junction has at least two operands and no junction of its own kind among them. -/
inductive Regular : Tree → Prop where
  | column {path} : path ≠ [] → Regular (.column path)
  | whole {n} : Regular (.whole n)
  | fractional {x} : Expr.isNonnegative x → Regular (.fractional (x.write .plain))
  | text {s} : Regular (.text s)
  | binary {op left right} : Regular left → Regular right → Regular (.binary op left right)
  | nullTest {negated operand} : Regular operand → Regular (.nullTest negated operand)
  | membership {negated operand items} : Regular operand → (∀ t ∈ items, Regular t) →
      Regular (.membership negated operand items)
  | range {negated operand low high} : Regular operand → Regular low → Regular high →
      Regular (.range negated operand low high)
  | negation {operand} : Regular operand → Regular (.negation operand)
  | joined {j operands} : 2 ≤ operands.length → (∀ t ∈ operands, Regular t) →
      (∀ t ∈ operands, ∀ ts, t ≠ .joined j ts) → Regular (.joined j operands)

/-- The operands of a junction inside another kind of junction stay together. -/
theorem Regular.of_mem_spread {j : Junction} {t u : Tree} (h : Regular t) (hu : u ∈ t.spread j) :
    Regular u ∧ ∀ ts, u ≠ .joined j ts := by
  cases h with
  | @joined k operands hlen hall hnot =>
    rw [spread] at hu
    split at hu
    · rename_i hk
      subst hk
      exact ⟨hall u hu, hnot u hu⟩
    · rename_i hk
      rw [List.mem_singleton.1 hu]
      refine ⟨.joined hlen hall hnot, fun ts heq => hk ?_⟩
      exact (Tree.joined.inj heq).1
  | _ =>
    rw [List.mem_singleton.1 hu]
    exact ⟨by constructor <;> assumption, fun ts => by simp⟩

theorem Regular.spread_ne_nil {j : Junction} {t : Tree} (h : Regular t) : t.spread j ≠ [] := by
  cases h with
  | joined hlen _ _ =>
    rw [spread]
    split
    · exact List.ne_nil_of_length_pos (by omega)
    · simp
  | _ => simp [spread]

/-- Joining the texts of the operands and joining the texts of what they bring in is the
same. -/
theorem text_spread (j : Junction) (t : Tree) :
    t.rendered.operand j.binding false =
      String.intercalate j.text ((t.spread j).map fun u => u.rendered.operand j.binding false) := by
  cases t with
  | joined k operands =>
    rw [spread]
    split
    · rename_i hk
      subst hk
      have hloose : ((Tree.joined k operands).rendered.isLoose k.binding false) = false := by
        simp [rendered, Rendered.isLoose]
      rw [Rendered.operand, hloose, rendered, renderedAll_eq_map, List.map_map]
      rfl
    · simp
  | _ => simp [spread]

theorem text_flatMap_spread {j : Junction} {ts : List Tree} (h : ∀ t ∈ ts, Regular t) :
    String.intercalate j.text (ts.map fun t => t.rendered.operand j.binding false) =
      String.intercalate j.text
        ((ts.flatMap (spread j)).map fun t => t.rendered.operand j.binding false) :=
  intercalate_flatMap (fun t ht => (h t ht).spread_ne_nil) fun t _ => text_spread j t

end Tree

end Sqlite

/-! ### The tree of an expression -/

namespace Expr

open Sqlite (Tree Infix Junction)

/-- The tree of a constant: a text, or a number that is not below zero. -/
def constantTree? : Json → Option Tree
  | .int (.ofNat n) => some (.whole n)
  | .float x => if isNonnegative x then some (.fractional (x.write .plain)) else none
  | .str s => some (.text s)
  | _ => none

/-- The match that an operator stands for. -/
def likeInfix? : Json → Option Infix
  | .str "~~" => some .like
  | .str "!~~" => some .notLike
  | _ => none

/-- Whether the operator of a membership negates it. -/
def membershipNegated? : Json → Option Bool
  | .str "=" => some false
  | .str "<>" => some true
  | _ => none

/-- The junction of several trees. -/
def junction? (j : Junction) (ts : List Tree) : Option Tree :=
  if 2 ≤ ts.length then some (.joined j (ts.flatMap (Tree.spread j))) else none

mutual

/-- The tree of an expression, if it is built from what trees are built from. -/
def tree? : Expr → Option Tree
  | .column (.ok path) => do
    let names ← path.mapM Json.str?
    if names.isEmpty then none else some (.column names)
  | .constant _ (.ok value) => constantTree? value
  | .operator .plain (.ok symbol) left right => do
    let op ← (symbolOf symbol).str?.bind fun s => Infix.shared.lookup s
    return .binary op (← tree? left) (← tree? right)
  | .operator (.like false) (.ok symbol) left right => do
    let op ← likeInfix? (symbolOf symbol)
    return .binary op (← tree? left) (← tree? right)
  | .operator .membership (.ok symbol) left right => do
    let negated ← membershipNegated? (symbolOf symbol)
    return .membership negated (← tree? left) (← elementTrees? right)
  | .operator (.between negated false) _ left right => do
    match ← elementTrees? right with
    | [low, high] => return .range negated (← tree? left) low high
    | _ => none
  | .operator (.distinct negated) _ left right => do
    return .binary (if negated then .is else .isNot) (← tree? left) (← tree? right)
  | .nullTest negated operand => (tree? operand).map (.nullTest negated)
  | .connective .negation [operand] => (tree? operand).map .negation
  | .connective .conjunction operands => (trees? operands).bind (junction? .all)
  | .connective .disjunction operands => (trees? operands).bind (junction? .any)
  | _ => none

def trees? : List Expr → Option (List Tree)
  | [] => some []
  | e :: rest => do return (← tree? e) :: (← trees? rest)

/-- The trees of the elements of a list. -/
def elementTrees? : Expr → Option (List Tree)
  | .row es => trees? es
  | .items es => trees? es
  | _ => none

end

/-! ### What is rendered is the text of the tree -/

attribute [local simp] tree? trees? elementTrees? render renderAll renderElements

theorem mapM_text {path : List Json} {names : List String} (h : path.mapM Json.str? = some names) :
    path.mapM Json.text = (.ok names : Read (List String)) := by
  induction path generalizing names with
  | nil =>
    simp only [List.mapM_nil, Option.pure_def, Option.some.injEq] at h
    subst h
    rfl
  | cons j path ih =>
    simp only [List.mapM_cons, Option.bind_eq_bind, Option.bind_eq_some_iff, Option.pure_def,
      Option.some.injEq] at h
    obtain ⟨name, hj, names, hpath, rfl⟩ := h
    cases j with
    | str s =>
      simp only [Json.str?, Option.some.injEq] at hj
      subst hj
      rw [List.mapM_cons, ih hpath]
      rfl
    | _ => simp [Json.str?] at hj

theorem rendered_constantTree? {value : Json} {t : Tree} (h : constantTree? value = some t) :
    t.rendered = .atom value.sqlLiteral ∧ t.Regular := by
  unfold constantTree? at h
  split at h
  · cases h
    exact ⟨rfl, .whole⟩
  · split at h
    · rename_i hx
      cases h
      exact ⟨rfl, .fractional hx⟩
    · cases h
  · cases h
    exact ⟨rfl, .text⟩
  · cases h

/-- An operator of both dialects is spelled the same in both and keeps its binding. -/
theorem targetOperator_shared {s : String} {op : Infix} (h : Infix.shared.lookup s = some op) :
    bindingOf (.str s) = .ok op.binding ∧
      targetOperator (.str s) op.binding = .ok (op.text, op.binding) := by
  have hmem : (s, op) ∈ Infix.shared := by
    obtain ⟨before, after, hshared, _⟩ := List.lookup_eq_some_iff.1 h
    simp [hshared]
  simp only [Infix.shared, List.mem_cons, Prod.mk.injEq, List.not_mem_nil, or_false] at hmem
  rcases hmem with h | h | h | h | h | h | h | h | h | h | h | h <;> obtain ⟨rfl, rfl⟩ := h <;>
    exact ⟨rfl, rfl⟩

theorem isAbsent_of_tree? {e : Expr} {t : Tree} (h : tree? e = some t) : e.isAbsent = false := by
  cases e with
  | stray value => simp at h
  | _ => rfl

theorem positioned_of_tree? {e : Expr} {t : Tree} (h : tree? e = some t) :
    positioned e = .ok () := by
  cases e with
  | memberName name => simp at h
  | _ => rfl

theorem render_negation {d : Dialect} {e : Expr} (h : ∀ name, e ≠ .memberName name) :
    render d (.connective .negation [e]) =
      (render d e).map fun r => ⟨"NOT " ++ r.operand .negation false, .negation⟩ := by
  have hmap : ∀ {α β : Type} (x : Read α) (f : α → β), (do return f (← x)) = x.map f :=
    fun x f => by cases x <;> rfl
  cases e with
  | memberName name => exact absurd rfl (h name)
  | _ => exact hmap _ _

/-- Each match has one operator. -/
theorem likeInfix?_eq_some {op : Json} {i : Infix} (h : likeInfix? op = some i) :
    ∃ negated, isNegated op = .ok negated ∧ i.text = likeWord .sqlite false negated ∧
      i.binding = .matching := by
  unfold likeInfix? at h
  split at h
  · cases h
    exact ⟨false, rfl, rfl, rfl⟩
  · cases h
    exact ⟨true, rfl, rfl, rfl⟩
  · cases h

theorem membershipNegated?_eq_some {op : Json} {negated : Bool}
    (h : membershipNegated? op = some negated) : op.same (.str "<>") = negated := by
  unfold membershipNegated? at h
  split at h
  · cases h
    rfl
  · cases h
    rfl
  · cases h

/-- A junction of operands that are rendered as their trees. -/
theorem rendered_junction? {j : Junction} {ts : List Tree} {t : Tree}
    (hts : ∀ t ∈ ts, Tree.Regular t) (h : junction? j ts = some t) :
    t.rendered =
      ⟨String.intercalate j.text ((ts.map Tree.rendered).map fun r => r.operand j.binding false),
        j.binding⟩ ∧ t.Regular := by
  rw [junction?] at h
  split at h
  · rename_i hlen
    cases h
    constructor
    · rw [Tree.rendered, Tree.renderedAll_eq_map, List.map_map, List.map_map]
      congr 1
      exact (Tree.text_flatMap_spread hts).symm
    · have hmem : ∀ u ∈ ts.flatMap (Tree.spread j), u.Regular ∧ ∀ us, u ≠ .joined j us := by
        intro u hu
        obtain ⟨t, ht, hut⟩ := List.mem_flatMap.1 hu
        exact (hts t ht).of_mem_spread hut
      refine .joined (Nat.le_trans hlen ?_) (fun u hu => (hmem u hu).1) fun u hu => (hmem u hu).2
      exact length_le_flatMap fun t ht => (hts t ht).spread_ne_nil
  · cases h

/-- An expression is rendered as its tree. -/
def Written (e : Expr) : Prop :=
  ∀ t, tree? e = some t → render .sqlite e = .ok t.rendered ∧ t.Regular

/-- All of several expressions are, and each may be asked for by its position. -/
def WrittenAll (es : List Expr) : Prop :=
  ∀ ts, trees? es = some ts → renderAll .sqlite es = .ok (ts.map Tree.rendered) ∧
    (∀ t ∈ ts, t.Regular) ∧ es.length = ts.length ∧ es.forM positioned = (.ok () : Read Unit)

def WrittenElements (e : Expr) : Prop :=
  ∀ ts, elementTrees? e = some ts → renderElements .sqlite e = .ok (ts.map Tree.rendered) ∧
    (∀ t ∈ ts, t.Regular) ∧ ∃ es, elements .sqlite e = .ok es ∧ es.length = ts.length ∧
      es.forM positioned = (.ok () : Read Unit)

namespace Written

theorem column (path : List Json) : Written (.column (.ok path)) := by
  intro t h
  simp only [tree?, Option.bind_eq_bind, Option.bind_eq_some_iff] at h
  obtain ⟨names, hnames, h⟩ := h
  split at h
  · cases h
  · rename_i hne
    cases h
    refine ⟨?_, .column (by simpa using hne)⟩
    simp only [render, bind, Except.bind, mapM_text hnames]
    rfl

theorem constant (value : Read Json) (shown : Json) : Written (.constant value (.ok shown)) := by
  intro t h
  obtain ⟨hr, hreg⟩ := rendered_constantTree? (by simpa only [tree?] using h)
  exact ⟨by rw [hr]; rfl, hreg⟩

theorem plain {left right : Expr} (symbol : List Json) (hleft : Written left)
    (hright : Written right) : Written (.operator .plain (.ok symbol) left right) := by
  intro t h
  simp only [tree?, Option.bind_eq_bind, Option.bind_eq_some_iff, Option.pure_def,
    Option.some.injEq] at h
  obtain ⟨op, ⟨s, hs, hop⟩, l, hl, r, hr, rfl⟩ := h
  obtain ⟨hl', hlreg⟩ := hleft l hl
  obtain ⟨hr', hrreg⟩ := hright r hr
  have hsymbol : symbolOf symbol = .str s := by
    cases heq : symbolOf symbol <;> simp_all [Json.str?]
  obtain ⟨hbinding, htarget⟩ := targetOperator_shared hop
  refine ⟨?_, .binary hlreg hrreg⟩
  simp only [render, bind, Except.bind, hsymbol, isAbsent_of_tree? hl, Bool.false_eq_true,
    if_false, hbinding, htarget, hl', hr', Tree.rendered]
  rfl

theorem like {left right : Expr} (symbol : List Json) (hleft : Written left)
    (hright : Written right) : Written (.operator (.like false) (.ok symbol) left right) := by
  intro t h
  simp only [tree?, Option.bind_eq_bind, Option.bind_eq_some_iff, Option.pure_def,
    Option.some.injEq] at h
  obtain ⟨op, hop, l, hl, r, hr, rfl⟩ := h
  obtain ⟨hl', hlreg⟩ := hleft l hl
  obtain ⟨hr', hrreg⟩ := hright r hr
  obtain ⟨negated, hnegated, htext, hbinding⟩ := likeInfix?_eq_some hop
  refine ⟨?_, .binary hlreg hrreg⟩
  simp only [render, bind, Except.bind, hnegated, hl', hr', Tree.rendered, htext, hbinding]
  rfl

theorem membership {left right : Expr} (symbol : List Json) (hleft : Written left)
    (hright : WrittenElements right) :
    Written (.operator .membership (.ok symbol) left right) := by
  intro t h
  simp only [tree?, Option.bind_eq_bind, Option.bind_eq_some_iff, Option.pure_def,
    Option.some.injEq] at h
  obtain ⟨negated, hnegated, l, hl, items, hitems, rfl⟩ := h
  obtain ⟨hl', hlreg⟩ := hleft l hl
  obtain ⟨hitems', hreg, _⟩ := hright items hitems
  refine ⟨?_, .membership hlreg hreg⟩
  simp only [render, bind, Except.bind, membershipNegated?_eq_some hnegated, hl', hitems',
    Tree.rendered, Tree.renderedAll_eq_map]
  rfl

theorem between {left right : Expr} (negated : Bool) (symbol : Read (List Json))
    (hright : WrittenElements right) (hleft : Written left) :
    Written (.operator (.between negated false) symbol left right) := by
  intro t h
  simp only [tree?, Option.bind_eq_bind, Option.bind_eq_some_iff] at h
  obtain ⟨items, hitems, h⟩ := h
  split at h
  · rename_i low high
    simp only [Option.bind_eq_some_iff, Option.pure_def, Option.some.injEq] at h
    obtain ⟨l, hl, rfl⟩ := h
    obtain ⟨hl', hlreg⟩ := hleft l hl
    obtain ⟨hitems', hreg, es, hes, hlen, hpos⟩ := hright [low, high] hitems
    refine ⟨?_, .range hlreg (hreg low (by simp)) (hreg high (by simp))⟩
    have hcount : count es = .ok 2 := by
      match es with
      | [e, e'] => simp only [count, List.length_cons, List.length_nil]
    simp only [render, bind, Except.bind, hes, hl', hitems', hcount, hpos, Tree.rendered]
    rfl
  · cases h

theorem distinct {left right : Expr} (negated : Bool) (symbol : Read (List Json))
    (hleft : Written left) (hright : Written right) :
    Written (.operator (.distinct negated) symbol left right) := by
  intro t h
  simp only [tree?, Option.bind_eq_bind, Option.bind_eq_some_iff, Option.pure_def,
    Option.some.injEq] at h
  obtain ⟨l, hl, r, hr, rfl⟩ := h
  obtain ⟨hl', hlreg⟩ := hleft l hl
  obtain ⟨hr', hrreg⟩ := hright r hr
  refine ⟨?_, .binary hlreg hrreg⟩
  cases negated <;> simp only [render, bind, Except.bind, hl', hr', Tree.rendered] <;> rfl

theorem nullTest {operand : Expr} (negated : Bool) (h : Written operand) :
    Written (.nullTest negated operand) := by
  intro t ht
  simp only [tree?, Option.map_eq_some_iff] at ht
  obtain ⟨t, ht, rfl⟩ := ht
  obtain ⟨hr, hreg⟩ := h t ht
  refine ⟨?_, .nullTest hreg⟩
  simp only [render, bind, Except.bind, hr, Tree.rendered]
  rfl

theorem negation {operand : Expr} (h : Written operand) :
    Written (.connective .negation [operand]) := by
  intro t ht
  simp only [tree?, Option.map_eq_some_iff] at ht
  obtain ⟨t, ht, rfl⟩ := ht
  obtain ⟨hr, hreg⟩ := h t ht
  refine ⟨?_, .negation hreg⟩
  have hnot : ∀ name, operand ≠ .memberName name := by
    rintro name rfl
    simp at ht
  rw [render_negation hnot, hr]
  rfl

theorem conjunction {operands : List Expr} (h : WrittenAll operands) :
    Written (.connective .conjunction operands) := by
  intro t ht
  simp only [tree?, Option.bind_eq_some_iff] at ht
  obtain ⟨ts, hts, ht⟩ := ht
  obtain ⟨hrs, hregs, _⟩ := h ts hts
  obtain ⟨hr, hreg⟩ := rendered_junction? hregs ht
  refine ⟨?_, hreg⟩
  simp only [render, bind, Except.bind, hrs, hr]
  rfl

theorem disjunction {operands : List Expr} (h : WrittenAll operands) :
    Written (.connective .disjunction operands) := by
  intro t ht
  simp only [tree?, Option.bind_eq_some_iff] at ht
  obtain ⟨ts, hts, ht⟩ := ht
  obtain ⟨hrs, hregs, _⟩ := h ts hts
  obtain ⟨hr, hreg⟩ := rendered_junction? hregs ht
  refine ⟨?_, hreg⟩
  simp only [render, bind, Except.bind, hrs, hr]
  rfl

end Written

theorem WrittenAll.nil : WrittenAll [] := by
  intro ts h
  simp only [trees?, Option.some.injEq] at h
  subst h
  exact ⟨rfl, by simp, rfl, rfl⟩

theorem WrittenAll.cons {e : Expr} {es : List Expr} (he : Written e) (hes : WrittenAll es) :
    WrittenAll (e :: es) := by
  intro ts h
  simp only [trees?, Option.bind_eq_bind, Option.bind_eq_some_iff, Option.pure_def,
    Option.some.injEq] at h
  obtain ⟨t, ht, ts, hts, rfl⟩ := h
  obtain ⟨hr, hreg⟩ := he t ht
  obtain ⟨hrs, hregs, hlen, hpos⟩ := hes ts hts
  refine ⟨?_, List.forall_mem_cons.2 ⟨hreg, hregs⟩, by simp [hlen], ?_⟩
  · simp only [renderAll, bind, Except.bind, hr, hrs]
    rfl
  · show (positioned e).bind (fun _ => es.forM positioned) = _
    rw [positioned_of_tree? ht]
    exact hpos

/-- **Every expression with a tree is rendered, as the text of its tree.** -/
theorem written (e : Expr) : Written e := by
  refine tree?.induct Written WrittenAll WrittenElements .column .constant
    (fun symbol _ _ hl hr => .plain symbol hl hr) (fun symbol _ _ hl hr => .like symbol hl hr)
    (fun symbol _ _ hl hr => .membership symbol hl hr)
    (fun negated symbol _ _ hr hl => .between negated symbol hr hl)
    (fun negated symbol _ _ hl hr => .distinct negated symbol hl hr)
    (fun negated _ h => .nullTest negated h) (fun _ h => .negation h) (fun _ h => .conjunction h)
    (fun _ h => .disjunction h) ?_ ?_ ?_ ?_ .nil (fun _ _ he hes => .cons he hes) e
  · intro e h₁ h₂ h₃ h₄ h₅ h₆ h₇ h₈ h₉ h₁₀ h₁₁ t h
    unfold tree? at h
    split at h
    · exact (h₁ _ rfl).elim
    · exact (h₂ _ _ rfl).elim
    · exact (h₃ _ _ _ rfl).elim
    · exact (h₄ _ _ _ rfl).elim
    · exact (h₅ _ _ _ rfl).elim
    · exact (h₆ _ _ _ _ rfl).elim
    · exact (h₇ _ _ _ _ rfl).elim
    · exact (h₈ _ _ rfl).elim
    · exact (h₉ _ rfl).elim
    · exact (h₁₀ _ rfl).elim
    · exact (h₁₁ _ rfl).elim
    · cases h
  · intro es hes ts h
    obtain ⟨hrs, hregs, hpos⟩ := hes ts (by simpa only [elementTrees?] using h)
    exact ⟨by rw [renderElements, hrs], hregs, es, rfl, hpos⟩
  · intro es hes ts h
    obtain ⟨hrs, hregs, hpos⟩ := hes ts (by simpa only [elementTrees?] using h)
    exact ⟨by rw [renderElements, hrs], hregs, es, rfl, hpos⟩
  · intro e hrow hitems ts h
    unfold elementTrees? at h
    split at h
    · exact absurd rfl (hrow _)
    · exact absurd rfl (hitems _)
    · cases h

end Expr

end StrictDdl
