import StrictDdl.Ddl
import StrictDdl.Proofs.Expr.Precedence
import StrictDdl.Proofs.Outcome
import StrictDdl.Proofs.Sql.Truth

/-! What the guards of a column say of a value.

A guard is read as the database reads it, and its tree is evaluated when the column has the value:
null tests, memberships of constants, and what is joined of these. The labels of an enumeration
are read as they are, whatever characters they have (`Ddl.Guard.read_oneOf`), and they are what
the guard lets through (`Ddl.ColumnDef.verdict?_labels_iff`). A column has to be read as a name to
be one: a bare word with a line break behind it may turn out to be a keyword
(`Sqlite.isName_iff`). -/
namespace StrictDdl

open Sql

namespace Sqlite

/-- The name that a text is read as, if it is one. -/
def name? (text : String) : Option String :=
  match tokens? text with
  | some [.name s] => some s
  | _ => none

/-- Where a name is written, it is read as a name. -/
def IsName (name : String) : Prop := (name? (Sql.identifier name)).isSome

namespace Tree

/-- The value of the column or of a constant. -/
def value? (column : String) (v : Value) : Tree → Option Value
  | .column path => if path.getLast? = some column then some v else none
  | .whole n => some (.ofRat n)
  | .text s => some (.text s)
  | _ => none

mutual

/-- What a condition says when the column has the value. -/
def truth? (column : String) (v : Value) : Tree → Option Truth
  | .nullTest negated operand => (operand.value? column v).map fun w =>
    .ofBool (decide (w = .null) != negated)
  | .membership negated operand items => do
    let w ← operand.value? column v
    let found := Truth.any ((← items.mapM (value? column v)).map w.equal)
    return if negated then found.not else found
  | .joined .any operands => (truths? column v operands).map .any
  | .joined .all operands => (truths? column v operands).map .all
  | _ => none

def truths? (column : String) (v : Value) : List Tree → Option (List Truth)
  | [] => some []
  | t :: rest => do return (← truth? column v t) :: (← truths? column v rest)

end

end Tree

/-! ### Names -/

theorem tokens?_identifier (name : String) :
    tokens? (Sql.identifier name) = some (Token.name name).scanned := by
  have := Mode.lexes_identifier name [] (by simp)
  simpa [tokens?, Mode.scan, Mode.close?] using this

theorem scanned_of_name? {name s : String} (h : name? (Sql.identifier name) = some s) :
    (Token.name name).scanned = [.name s] := by
  rw [name?, tokens?_identifier] at h
  split at h
  · rename_i heq
    cases h
    exact Option.some.inj heq
  · cases h

/-- A name is read as one if it is quoted, or if the word that is left of it is no keyword. -/
theorem isName_iff (name : String) :
    IsName name ↔ Sql.needsQuoting name ∨ Keyword.ofWord? (Mode.bareWord name) = none := by
  rw [IsName, name?, tokens?_identifier, Token.scanned]
  cases Sql.needsQuoting name with
  | true => simp
  | false =>
    rw [if_neg Bool.false_ne_true, Token.ofWord]
    cases Keyword.ofWord? (Mode.bareWord name) <;> simp

end Sqlite

namespace Ddl

open Sqlite

namespace Guard

/-- The condition of a guard with the absent value let through. -/
def guarded (column : String) (g : Guard) : String :=
  column ++ " IS NULL OR " ++ g.condition column

/-- A guard is written as a check of its condition. -/
theorem text_eq (column : String) (g : Guard) :
    g.text column = "CHECK (" ++ g.guarded column ++ ")" := by
  simp [text, guarded, String.append_assoc]

/-- The tree of a guard for labels. -/
def oneOfTree (column : String) (labels : List String) : Tree :=
  .joined .any [.nullTest false (.column [column]),
    .membership false (.column [column]) (labels.map .text)]

/-- The text of the guard is that of its tree. -/
theorem guarded_oneOf (name : String) (labels : List String) :
    (Guard.oneOf labels).guarded (Sql.identifier name) = (oneOfTree name labels).rendered.text := by
  have hlabels : joinTexts (Tree.renderedAll (labels.map .text)) =
      String.intercalate ", " (labels.map Sql.textLiteral) := by
    rw [Tree.renderedAll_eq_map, List.map_map, joinTexts, List.map_map]
    rfl
  -- Texts are only taken apart as variables: rewriting looks into the letters of a literal.
  have happend : ∀ column null or blank member opening list closing : String,
      column ++ (null ++ or) ++ (column ++ (blank ++ member ++ opening) ++ list ++ closing) =
        column ++ null ++ or ++ (column ++ blank ++ member ++ opening ++ list ++ closing) := by
    simp only [String.append_assoc, implies_true]
  have htext := happend (Sql.identifier name) " IS NULL" " OR " " " "IN" " ("
    (joinTexts (Tree.renderedAll (labels.map .text))) ")"
  have hguarded : (Guard.oneOf labels).guarded (Sql.identifier name) =
      Sql.identifier name ++ (" IS NULL" ++ " OR ") ++ (Sql.identifier name ++ (" " ++ "IN" ++ " (") ++
        String.intercalate ", " (labels.map Sql.textLiteral) ++ ")") := rfl
  rewrite [hguarded, ← hlabels, htext]
  rfl

theorem regular_oneOfTree (column : String) (labels : List String) :
    (oneOfTree column labels).Regular := by
  have hcolumn : Tree.Regular (.column [column]) := .column (by simp)
  have hmembership : Tree.Regular (.membership false (.column [column]) (labels.map .text)) := by
    refine .membership hcolumn fun t ht => ?_
    obtain ⟨label, _, rfl⟩ := List.mem_map.1 ht
    exact .text
  refine .joined (by simp) ?_ ?_
  · simpa using ⟨.nullTest hcolumn, hmembership⟩
  · simp

theorem isGrouped_oneOfTree (column : String) (labels : List String) :
    (oneOfTree column labels).isGrouped := by
  have hlabels : Tree.areGrouped (labels.map .text) := by
    rw [Tree.areGrouped_iff]
    intro t ht
    obtain ⟨label, _, rfl⟩ := List.mem_map.1 ht
    rfl
  simp [oneOfTree, Tree.isGrouped, Tree.areGrouped, hlabels]

theorem tokens_oneOfTree (column : String) (labels : List String) :
    (oneOfTree column labels).tokens =
      .name column :: .keyword .is :: .keyword .null :: .keyword .or ::
        .name column :: .keyword .member :: .opening ::
          (separated .comma (labels.map fun label => [.text label]) ++ [.closing]) := by
  have hlabels : (labels.map .text).map Tree.tokens = labels.map fun label => [.text label] := by
    rw [List.map_map]
    rfl
  have hmembership := Tree.tokens_membership false (.column [column]) (labels.map .text)
  rw [hlabels] at hmembership
  have hoperand : (Tree.membership false (.column [column]) (labels.map .text)).operand
      Junction.any.binding false = _ := hmembership
  rw [oneOfTree, Tree.tokens_joined, List.map_cons, List.map_cons, List.map_nil,
    Tree.separated_head _ _ _ (List.cons_ne_nil _ _), separated, hoperand]
  rfl

/-- The scanner changes no more than the name of the column. -/
theorem scannedAll_oneOfTree {name s : String} (h : (Token.name name).scanned = [.name s])
    (labels : List String) :
    Token.scannedAll (oneOfTree name labels).tokens = (oneOfTree s labels).tokens := by
  have hlabels : Token.scannedAll (separated .comma (labels.map fun label => [.text label])) =
      separated .comma (labels.map fun label => [.text label]) := by
    rw [Token.scannedAll_separated rfl, List.map_map]
    rfl
  simp only [tokens_oneOfTree, Token.scannedAll_cons, Token.scannedAll_append, h, hlabels]
  rfl

/-- **A guard for labels is read as it was meant**, for any labels. -/
theorem read_oneOf {name s : String} (h : name? (Sql.identifier name) = some s)
    (labels : List String) :
    Sqlite.read ((Guard.oneOf labels).guarded (Sql.identifier name)) = some (oneOfTree s labels) := by
  have htokens := (regular_oneOfTree name labels).tokens?_text
  rw [← guarded_oneOf, scannedAll_oneOfTree (scanned_of_name? h)] at htokens
  rw [Sqlite.read_eq_some_iff htokens]
  exact ⟨_, (regular_oneOfTree s labels).readable (isGrouped_oneOfTree s labels) _
    (oneOfTree s labels).loosest_le_leftLevel⟩

/-- A text is let through if it is a label. -/
theorem truth?_oneOfTree (column : String) (labels : List String) (s : String) :
    ∃ t, (oneOfTree column labels).truth? column (.text s) = some t ∧ (t ≠ .no ↔ s ∈ labels) := by
  have hitems : (labels.map .text).mapM (Tree.value? column (.text s)) =
      some (labels.map Value.text) :=
    Ending.option.mapM_iff.2 (List.forall₂_map_left_iff.2 (List.forall₂_map_right_iff.2
      (List.forall₂_same.2 fun _ _ => rfl)))
  have hcolumn : (Tree.column [column]).value? column (.text s) = some (.text s) := by
    simp [Tree.value?]
  refine ⟨.any [.no, .any ((labels.map Value.text).map (Value.text s).equal)], ?_, ?_⟩
  · simp [oneOfTree, Tree.truth?, Tree.truths?, hcolumn, hitems, Truth.ofBool]
  · have hother : ∀ label, (Value.text s).equal (.text label) = .no ↔ label ≠ s := fun label => by
      simp [Value.equal_eq_no_iff (show (Value.text s).IsPlain from trivial)]
    have hall : Truth.any [.no, .any ((labels.map Value.text).map (Value.text s).equal)] = .no ↔
        ∀ label ∈ labels, label ≠ s := by
      simp [Truth.any_eq_no_iff, hother]
    rw [Ne, hall]
    simp

end Guard

namespace ColumnDef

/-- What the guards of a column say of a value, if they can be read. -/
def verdict? (c : ColumnDef) (v : Value) : Option Truth := do
  let name ← Sqlite.name? (Sql.identifier c.name)
  let truths ← c.guards.mapM fun g => do
    (← Sqlite.read (g.guarded (Sql.identifier c.name))).truth? name v
  return .all truths

/-- **The guards of a column for labels let through the labels and nothing else, exactly if there
are labels and the column can be read.** Without labels there is no guard. -/
theorem verdict?_labels_iff {c : ColumnDef} {labels : List String}
    (hguards : c.guards = if labels.isEmpty then [] else [.oneOf labels]) :
    (∀ s, ∃ t, c.verdict? (.text s) = some t ∧ (t ≠ .no ↔ s ∈ labels)) ↔
      labels ≠ [] ∧ Sqlite.IsName c.name := by
  constructor
  · intro h
    obtain ⟨t, ht, hlabel⟩ := h ""
    unfold verdict? at ht
    obtain ⟨name, hname, hverdict⟩ := Option.bind_eq_some_iff.1 ht
    refine ⟨?_, Option.isSome_iff_exists.2 ⟨name, hname⟩⟩
    rintro rfl
    rw [hguards] at hverdict
    cases hverdict
    exact absurd (hlabel.1 (by decide)) (List.not_mem_nil)
  · rintro ⟨hne, hname⟩ s
    obtain ⟨name, hname⟩ := Option.isSome_iff_exists.1 hname
    obtain ⟨t, ht, hlabel⟩ := Guard.truth?_oneOfTree name labels s
    have hone : Truth.all [t] = t := by cases t <;> rfl
    refine ⟨t, ?_, hlabel⟩
    rw [verdict?, hguards, if_neg (by simpa using hne)]
    simp [hname, Guard.read_oneOf hname, ht, hone]

end ColumnDef

end Ddl

end StrictDdl
