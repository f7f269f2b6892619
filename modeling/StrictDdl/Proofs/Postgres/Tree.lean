import StrictDdl.Proofs.Expr.Tree
import StrictDdl.Proofs.Numeric.Rounding

/-! Expressions as trees of the source database.

`Postgres.tree?` is the tree of an expression that is built from columns, constants without a sign,
operators between two operands, memberships, ranges, matches, null tests and connectives; all other
expressions have none. A tree keeps what its text should tell: the names of a column, the values
of constants, which operator it is. Nested conjunctions are one conjunction, and so are
disjunctions. Every expression with a tree is rendered, and its text depends on its tree alone
(`Postgres.written`). -/
namespace StrictDdl

instance Binary64.decidableIsCanonical (m : Nat) (e : Int) : Decidable (Binary64.IsCanonical m e) :=
  decidable_of_iff
    (m < significandBound ∧ leastExponent ≤ e ∧ e ≤ greatestExponent ∧
      (leastExponent < e → significandBound / 2 ≤ m))
    ⟨fun ⟨bound, least, most, full⟩ => ⟨bound, least, most, full⟩,
      fun h => ⟨h.bound, h.least, h.most, h.full⟩⟩

namespace Postgres

open Sqlite (Junction)

/-! ### Trees -/

/-- The operators between two operands, the connectives apart. -/
inductive Infix where
  | eq
  | ne
  /-- The second spelling of `ne`. -/
  | differs
  | lt
  | gt
  | le
  | ge
  | add
  | sub
  | mul
  | div
  | mod
  | concat
  | like
  | notLike
  deriving DecidableEq

namespace Infix

/-- The words that the operator is written in. -/
def words : Infix → List String
  | .eq => ["="]
  | .ne => ["<>"]
  | .differs => ["!="]
  | .lt => ["<"]
  | .gt => [">"]
  | .le => ["<="]
  | .ge => [">="]
  | .add => ["+"]
  | .sub => ["-"]
  | .mul => ["*"]
  | .div => ["/"]
  | .mod => ["%"]
  | .concat => ["||"]
  | .like => ["LIKE"]
  | .notLike => ["NOT", "LIKE"]

def text (op : Infix) : String := String.intercalate " " op.words

def binding : Infix → Binding
  | .eq | .ne | .differs | .lt | .gt | .le | .ge => .comparison
  | .add | .sub => .sum
  | .mul | .div | .mod => .product
  | .concat => .userOperator
  | .like | .notLike => .matching

/-- The operators with a name of their own. -/
def named : List (String × Infix) :=
  [("=", eq), ("<>", ne), ("!=", differs), ("<", lt), (">", gt), ("<=", le), (">=", ge),
   ("+", add), ("-", sub), ("*", mul), ("/", div), ("%", mod), ("||", concat)]

end Infix

inductive Tree where
  | column (path : List String)
  | whole (n : Nat)
  /-- The number `significand * 2 ^ exponent`. -/
  | fractional (significand : Nat) (exponent : Int)
  | text (s : String)
  | null
  | binary (op : Infix) (left right : Tree)
  | nullTest (negated : Bool) (operand : Tree)
  | membership (negated : Bool) (operand : Tree) (items : List Tree)
  | range (negated : Bool) (operand low high : Tree)
  | negation (operand : Tree)
  | joined (j : Junction) (operands : List Tree)

namespace Tree

/-- The operands that a tree brings into a junction. -/
def spread (j : Junction) : Tree → List Tree
  | .joined k ts => if k = j then ts else [.joined k ts]
  | t => [t]

mutual

/-- The text of a tree and its binding. -/
def rendered : Tree → Rendered
  | .column path => .atom (String.intercalate "." (path.map Sql.identifier))
  | .whole n => .atom (writeNat n)
  | .fractional m e => .atom ((Binary64.finite false m e).write .plain)
  | .text s => .atom (Sql.textLiteral s)
  | .null => .atom "NULL"
  | .binary op left right => left.rendered.between op.text right.rendered op.binding
  | .nullTest negated operand =>
    ⟨operand.rendered.operand .comparison false ++
      (if negated then " IS NOT NULL" else " IS NULL"), .test⟩
  | .membership negated operand items =>
    ⟨operand.rendered.operand .matching false ++ " " ++ Expr.negatedWord negated "IN" ++ " (" ++
      joinTexts (renderedAll items) ++ ")", .matching⟩
  | .range negated operand low high =>
    ⟨operand.rendered.operand .matching false ++ " " ++ Expr.betweenWord negated false ++ " " ++
      low.rendered.operand .userOperator false ++ " AND " ++
      high.rendered.operand .userOperator false, .matching⟩
  | .negation operand => ⟨"NOT " ++ operand.rendered.operand .negation false, .negation⟩
  | .joined j operands =>
    ⟨String.intercalate j.text
      ((renderedAll operands).map fun r => r.operand j.binding false), j.binding⟩

def renderedAll : List Tree → List Rendered
  | [] => []
  | t :: rest => t.rendered :: renderedAll rest

end

theorem renderedAll_eq_map (ts : List Tree) : renderedAll ts = ts.map rendered := by
  induction ts with
  | nil => rfl
  | cons t rest ih => rw [renderedAll, ih]; rfl

/-- The trees that expressions have: a path has names and none of them ends in a line break, a
fractional number is one of the format, and a junction has at least two operands and no junction of
its own kind among them. -/
inductive Regular : Tree → Prop where
  | column {path} : path ≠ [] → (∀ s ∈ path, s.toList.getLast? ≠ some '\n') →
      Regular (.column path)
  | whole {n} : Regular (.whole n)
  | fractional {m e} : Binary64.IsCanonical m e → Regular (.fractional m e)
  | text {s} : Regular (.text s)
  | null : Regular .null
  | binary {op left right} : Regular left → Regular right → Regular (.binary op left right)
  | nullTest {negated operand} : Regular operand → Regular (.nullTest negated operand)
  | membership {negated operand items} : Regular operand → (∀ t ∈ items, Regular t) →
      Regular (.membership negated operand items)
  | range {negated operand low high} : Regular operand → Regular low → Regular high →
      Regular (.range negated operand low high)
  | negation {operand} : Regular operand → Regular (.negation operand)
  | joined {j operands} : 2 ≤ operands.length → (∀ t ∈ operands, Regular t) →
      (∀ t ∈ operands, ∀ ts, t ≠ .joined j ts) → Regular (.joined j operands)

variable {j : Junction} {t u : Tree} {ts : List Tree}

/-- The operands of a junction inside another kind of junction stay together. -/
theorem Regular.of_mem_spread (h : Regular t) (hu : u ∈ t.spread j) :
    Regular u ∧ ∀ ts, u ≠ .joined j ts := by
  cases h with
  | @joined k operands hlen hall hnot =>
    rw [spread] at hu
    split at hu
    · rename_i hk
      subst hk
      exact ⟨hall u hu, hnot u hu⟩
    · rename_i hk
      rw [List.mem_singleton.1 hu]
      refine ⟨.joined hlen hall hnot, fun ts heq => hk ?_⟩
      exact (Tree.joined.inj heq).1
  | _ =>
    rw [List.mem_singleton.1 hu]
    exact ⟨by constructor <;> assumption, fun ts => by simp⟩

theorem Regular.spread_ne_nil (h : Regular t) : t.spread j ≠ [] := by
  cases h with
  | joined hlen _ _ =>
    rw [spread]
    split
    · exact List.ne_nil_of_length_pos (by omega)
    · simp
  | _ => simp [spread]

/-- Joining the texts of the operands and joining the texts of what they bring in is the
same. -/
theorem text_spread (j : Junction) (t : Tree) :
    t.rendered.operand j.binding false =
      String.intercalate j.text ((t.spread j).map fun u => u.rendered.operand j.binding false) := by
  cases t with
  | joined k operands =>
    rw [spread]
    split
    · rename_i hk
      subst hk
      have hloose : ((Tree.joined k operands).rendered.isLoose k.binding false) = false := by
        simp [rendered, Rendered.isLoose]
      rw [Rendered.operand, hloose, rendered, renderedAll_eq_map, List.map_map]
      rfl
    · simp
  | _ => simp [spread]

end Tree

/-! ### The tree of an expression -/

/-- The tree of a constant: a text, nothing at all, or a number without a sign. -/
def constantTree? : Json → Option Tree
  | .null => some .null
  | .int (.ofNat n) => some (.whole n)
  | .float (.finite false m e) =>
    if Binary64.IsCanonical m e then some (.fractional m e) else none
  | .str s => some (.text s)
  | _ => none

/-- Every finite number without a sign that is read from a text has a tree. -/
theorem constantTree?_of_readFloat? {s : String} {m : Nat} {e : Int}
    (h : Numeral.readFloat? s = some (.finite false m e)) :
    constantTree? (.float (.finite false m e)) = some (.fractional m e) :=
  if_pos (Numeral.canonical_of_readFloat? h)

/-- The names of a column. -/
def path? (path : List Json) : Option (List String) := do
  let names ← path.mapM Json.str?
  if names ≠ [] ∧ ∀ s ∈ names, s.toList.getLast? ≠ some '\n' then some names else none

def infix? : Json → Option Infix
  | .str s => Infix.named.lookup s
  | _ => none

/-- The match that an operator stands for. -/
def likeInfix? : Json → Option Infix
  | .str "~~" => some .like
  | .str "!~~" => some .notLike
  | _ => none

/-- The junction of several trees. -/
def junction? (j : Junction) (ts : List Tree) : Option Tree :=
  if 2 ≤ ts.length then some (.joined j (ts.flatMap (Tree.spread j))) else none

mutual

/-- The tree of an expression, if it is built from what trees are built from. -/
def tree? : Expr → Option Tree
  | .column (.ok path) => (path? path).map .column
  | .constant _ (.ok value) => constantTree? value
  | .operator .plain (.ok [op]) left right => do
    return .binary (← infix? op) (← tree? left) (← tree? right)
  | .operator (.like false) (.ok [op]) left right => do
    return .binary (← likeInfix? op) (← tree? left) (← tree? right)
  | .operator .membership (.ok [op]) left (.row items) => do
    return .membership (← Expr.membershipNegated? op) (← tree? left) (← trees? items)
  | .operator (.between negated false) _ left (.row [low, high]) => do
    return .range negated (← tree? left) (← tree? low) (← tree? high)
  | .nullTest negated operand => (tree? operand).map (.nullTest negated)
  | .connective .negation [operand] => (tree? operand).map .negation
  | .connective .conjunction operands => (trees? operands).bind (junction? .all)
  | .connective .disjunction operands => (trees? operands).bind (junction? .any)
  | _ => none

def trees? : List Expr → Option (List Tree)
  | [] => some []
  | e :: rest => do return (← tree? e) :: (← trees? rest)

end

/-! ### What is rendered is the text of the tree -/

open StrictDdl.Expr

attribute [local simp] tree? trees? render renderAll renderElements

/-- An expression is rendered as its tree. -/
def Written (e : Expr) : Prop :=
  ∀ t, tree? e = some t → render .postgres e = .ok t.rendered ∧ t.Regular

/-- All of several expressions are. -/
def WrittenAll (es : List Expr) : Prop :=
  ∀ ts, trees? es = some ts → renderAll .postgres es = .ok (ts.map Tree.rendered) ∧
    ∀ t ∈ ts, t.Regular

theorem isAbsent_of_tree? {e : Expr} {t : Tree} (h : tree? e = some t) : e.isAbsent = false := by
  cases e with
  | stray value => simp at h
  | _ => rfl

theorem positioned_of_tree? {e : Expr} {t : Tree} (h : tree? e = some t) :
    positioned e = .ok () := by
  cases e with
  | memberName name => simp at h
  | _ => rfl

theorem rendered_constantTree? {value : Json} {t : Tree} (h : constantTree? value = some t) :
    t.rendered = .atom value.sourceLiteral ∧ t.Regular := by
  unfold constantTree? at h
  split at h
  · cases h
    exact ⟨rfl, .null⟩
  · cases h
    exact ⟨rfl, .whole⟩
  · split at h
    · rename_i hcanonical
      cases h
      exact ⟨rfl, .fractional hcanonical⟩
    · cases h
  · cases h
    exact ⟨rfl, .text⟩
  · cases h

/-- An operator with a name is spelled as it is named. -/
theorem infix?_eq_some {op : Json} {i : Infix} (h : infix? op = some i) :
    bindingOf op = .ok i.binding ∧ op.display = i.text := by
  unfold infix? at h
  split at h
  · rename_i s
    obtain ⟨before, after, hnamed, _⟩ := List.lookup_eq_some_iff.1 h
    have hmem : (s, i) ∈ Infix.named := by simp [hnamed]
    simp only [Infix.named, List.mem_cons, Prod.mk.injEq, List.not_mem_nil, or_false] at hmem
    rcases hmem with h | h | h | h | h | h | h | h | h | h | h | h | h <;> obtain ⟨rfl, rfl⟩ := h <;>
      exact ⟨rfl, rfl⟩
  · cases h

/-- Each match has one operator. -/
theorem likeInfix?_eq_some {op : Json} {i : Infix} (h : likeInfix? op = some i) :
    ∃ negated, isNegated op = .ok negated ∧ i.text = likeWord .postgres false negated ∧
      i.binding = .matching := by
  unfold likeInfix? at h
  split at h
  · cases h
    exact ⟨false, rfl, rfl, rfl⟩
  · cases h
    exact ⟨true, rfl, rfl, rfl⟩
  · cases h

/-- A junction of operands that are rendered as their trees. -/
theorem rendered_junction? {j : Junction} {ts : List Tree} {t : Tree}
    (hts : ∀ t ∈ ts, Tree.Regular t) (h : junction? j ts = some t) :
    t.rendered =
      ⟨String.intercalate j.text ((ts.map Tree.rendered).map fun r => r.operand j.binding false),
        j.binding⟩ ∧ t.Regular := by
  rw [junction?] at h
  split at h
  · rename_i hlen
    cases h
    have hne : ∀ t ∈ ts, t.spread j ≠ [] := fun t ht => (hts t ht).spread_ne_nil
    constructor
    · rw [Tree.rendered, Tree.renderedAll_eq_map, List.map_map, List.map_map]
      congr 1
      exact (intercalate_flatMap hne fun t _ => Tree.text_spread j t).symm
    · have hmem : ∀ u ∈ ts.flatMap (Tree.spread j), u.Regular ∧ ∀ us, u ≠ .joined j us := by
        intro u hu
        obtain ⟨t, ht, hut⟩ := List.mem_flatMap.1 hu
        exact (hts t ht).of_mem_spread hut
      exact .joined (Nat.le_trans hlen (length_le_flatMap hne)) (fun u hu => (hmem u hu).1)
        fun u hu => (hmem u hu).2
  · cases h

namespace Written

theorem column (path : List Json) : Written (.column (.ok path)) := by
  intro t h
  simp only [tree?, path?, Option.map_eq_some_iff, Option.bind_eq_bind,
    Option.bind_eq_some_iff] at h
  obtain ⟨path, ⟨names, hnames, hpath⟩, rfl⟩ := h
  split at hpath
  · rename_i hgood
    cases hpath
    refine ⟨?_, .column hgood.1 hgood.2⟩
    simp only [render, bind, Except.bind, mapM_text hnames]
    rfl
  · cases hpath

theorem constant (value : Read Json) (shown : Json) : Written (.constant value (.ok shown)) := by
  intro t h
  obtain ⟨hr, hreg⟩ := rendered_constantTree? (by simpa only [tree?] using h)
  exact ⟨by rw [hr]; rfl, hreg⟩

theorem plain (op : Json) {left right : Expr} (hleft : Written left) (hright : Written right) :
    Written (.operator .plain (.ok [op]) left right) := by
  intro t h
  simp only [tree?, Option.bind_eq_bind, Option.bind_eq_some_iff, Option.pure_def,
    Option.some.injEq] at h
  obtain ⟨i, hi, l, hl, r, hr, rfl⟩ := h
  obtain ⟨hl', hlreg⟩ := hleft l hl
  obtain ⟨hr', hrreg⟩ := hright r hr
  obtain ⟨hbinding, htext⟩ := infix?_eq_some hi
  have hsymbol : symbolOf [op] = op := rfl
  refine ⟨?_, .binary hlreg hrreg⟩
  simp only [render, bind, Except.bind, hsymbol, isAbsent_of_tree? hl, Bool.false_eq_true,
    if_false, hbinding, htext, hl', hr', Tree.rendered]
  rfl

theorem like (op : Json) {left right : Expr} (hleft : Written left) (hright : Written right) :
    Written (.operator (.like false) (.ok [op]) left right) := by
  intro t h
  simp only [tree?, Option.bind_eq_bind, Option.bind_eq_some_iff, Option.pure_def,
    Option.some.injEq] at h
  obtain ⟨i, hi, l, hl, r, hr, rfl⟩ := h
  obtain ⟨hl', hlreg⟩ := hleft l hl
  obtain ⟨hr', hrreg⟩ := hright r hr
  obtain ⟨negated, hnegated, htext, hbinding⟩ := likeInfix?_eq_some hi
  have hsymbol : symbolOf [op] = op := rfl
  refine ⟨?_, .binary hlreg hrreg⟩
  simp only [render, bind, Except.bind, hsymbol, hnegated, hl', hr', Tree.rendered, htext, hbinding]
  rfl

theorem membership (op : Json) {left : Expr} {items : List Expr} (hleft : Written left)
    (hitems : WrittenAll items) : Written (.operator .membership (.ok [op]) left (.row items)) := by
  intro t h
  simp only [tree?, Option.bind_eq_bind, Option.bind_eq_some_iff, Option.pure_def,
    Option.some.injEq] at h
  obtain ⟨negated, hnegated, l, hl, ts, hts, rfl⟩ := h
  obtain ⟨hl', hlreg⟩ := hleft l hl
  obtain ⟨hts', hreg⟩ := hitems ts hts
  have hsymbol : symbolOf [op] = op := rfl
  refine ⟨?_, .membership hlreg hreg⟩
  simp only [render, renderElements, bind, Except.bind, hsymbol, membershipNegated?_eq_some hnegated,
    hl', hts', Tree.rendered, Tree.renderedAll_eq_map]
  rfl

theorem between (negated : Bool) (symbol : Read (List Json)) {left low high : Expr}
    (hleft : Written left) (hlow : Written low) (hhigh : Written high) :
    Written (.operator (.between negated false) symbol left (.row [low, high])) := by
  intro t h
  simp only [tree?, Option.bind_eq_bind, Option.bind_eq_some_iff, Option.pure_def,
    Option.some.injEq] at h
  obtain ⟨l, hl, t₁, h₁, t₂, h₂, rfl⟩ := h
  obtain ⟨hl', hlreg⟩ := hleft l hl
  obtain ⟨hlow', hreg₁⟩ := hlow t₁ h₁
  obtain ⟨hhigh', hreg₂⟩ := hhigh t₂ h₂
  have hpositioned : [low, high].forM positioned = (.ok () : Read Unit) := by
    show (positioned low).bind (fun _ => [high].forM positioned) = _
    rw [positioned_of_tree? h₁]
    show (positioned high).bind (fun _ => [].forM positioned) = _
    rw [positioned_of_tree? h₂]
    rfl
  have hcount : count [low, high] = .ok 2 := by
    simp only [count, List.length_cons, List.length_nil]
  refine ⟨?_, .range hlreg hreg₁ hreg₂⟩
  simp only [render, renderElements, renderAll, elements, bind, Except.bind, hl', hlow', hhigh',
    hcount, hpositioned, Tree.rendered]
  rfl

theorem nullTest (negated : Bool) {operand : Expr} (h : Written operand) :
    Written (.nullTest negated operand) := by
  intro t ht
  simp only [tree?, Option.map_eq_some_iff] at ht
  obtain ⟨t, ht, rfl⟩ := ht
  obtain ⟨hr, hreg⟩ := h t ht
  refine ⟨?_, .nullTest hreg⟩
  simp only [render, bind, Except.bind, hr, Tree.rendered]
  rfl

theorem negation {operand : Expr} (h : Written operand) :
    Written (.connective .negation [operand]) := by
  intro t ht
  simp only [tree?, Option.map_eq_some_iff] at ht
  obtain ⟨t, ht, rfl⟩ := ht
  obtain ⟨hr, hreg⟩ := h t ht
  refine ⟨?_, .negation hreg⟩
  have hnot : ∀ name, operand ≠ .memberName name := by
    rintro name rfl
    simp at ht
  rw [render_negation hnot, hr]
  rfl

theorem conjunction {operands : List Expr} (h : WrittenAll operands) :
    Written (.connective .conjunction operands) := by
  intro t ht
  simp only [tree?, Option.bind_eq_some_iff] at ht
  obtain ⟨ts, hts, ht⟩ := ht
  obtain ⟨hrs, hregs⟩ := h ts hts
  obtain ⟨hr, hreg⟩ := rendered_junction? hregs ht
  refine ⟨?_, hreg⟩
  simp only [render, bind, Except.bind, hrs, hr]
  rfl

theorem disjunction {operands : List Expr} (h : WrittenAll operands) :
    Written (.connective .disjunction operands) := by
  intro t ht
  simp only [tree?, Option.bind_eq_some_iff] at ht
  obtain ⟨ts, hts, ht⟩ := ht
  obtain ⟨hrs, hregs⟩ := h ts hts
  obtain ⟨hr, hreg⟩ := rendered_junction? hregs ht
  refine ⟨?_, hreg⟩
  simp only [render, bind, Except.bind, hrs, hr]
  rfl

end Written

theorem WrittenAll.nil : WrittenAll [] := by
  intro ts h
  simp only [trees?, Option.some.injEq] at h
  subst h
  exact ⟨rfl, by simp⟩

theorem WrittenAll.cons {e : Expr} {es : List Expr} (he : Written e) (hes : WrittenAll es) :
    WrittenAll (e :: es) := by
  intro ts h
  simp only [trees?, Option.bind_eq_bind, Option.bind_eq_some_iff, Option.pure_def,
    Option.some.injEq] at h
  obtain ⟨t, ht, ts, hts, rfl⟩ := h
  obtain ⟨hr, hreg⟩ := he t ht
  obtain ⟨hrs, hregs⟩ := hes ts hts
  refine ⟨?_, List.forall_mem_cons.2 ⟨hreg, hregs⟩⟩
  simp only [renderAll, bind, Except.bind, hr, hrs]
  rfl

/-- **Every expression with a tree is rendered, as the text of its tree.** -/
theorem written (e : Expr) : Written e := by
  refine tree?.induct Written WrittenAll .column .constant (fun op _ _ hl hr => .plain op hl hr)
    (fun op _ _ hl hr => .like op hl hr) (fun op _ _ hl hitems => .membership op hl hitems)
    (fun negated symbol _ _ _ hl hlow hhigh => .between negated symbol hl hlow hhigh)
    (fun negated _ h => .nullTest negated h) (fun _ h => .negation h) (fun _ h => .conjunction h)
    (fun _ h => .disjunction h) ?_ .nil (fun _ _ he hes => .cons he hes) e
  intro e h₁ h₂ h₃ h₄ h₅ h₆ h₇ h₈ h₉ h₁₀ t h
  unfold tree? at h
  split at h
  · exact (h₁ _ rfl).elim
  · exact (h₂ _ _ rfl).elim
  · exact (h₃ _ _ _ rfl).elim
  · exact (h₄ _ _ _ rfl).elim
  · exact (h₅ _ _ _ rfl).elim
  · exact (h₆ _ _ _ _ _ rfl).elim
  · exact (h₇ _ _ rfl).elim
  · exact (h₈ _ rfl).elim
  · exact (h₉ _ rfl).elim
  · exact (h₁₀ _ rfl).elim
  · cases h

end Postgres

end StrictDdl
