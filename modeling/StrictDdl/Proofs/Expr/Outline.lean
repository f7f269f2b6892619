import StrictDdl.Default

/-! What is seen of an expression.

An expression keeps a value that is no node as it is, but whoever reads the expression only sees
the type of the value, whether it is empty, and the name of its only member. With no more than that
left of such values (`Expr.outline`), an expression is written and classified as before. -/
namespace StrictDdl

/-- What is seen of a value that is no node. -/
def Json.outline : Json → Json
  | .arr items => .arr (if items.isEmpty then [] else [.null])
  | .obj [(tag, _)] => .obj [(tag, .bool true)]
  | .obj ms => .obj (if ms.isEmpty then [] else [("", .null), ("", .null)])
  | j => j

namespace Expr

mutual

/-- The expression with no more of other values than is seen of them. -/
def outline : Expr → Expr
  | .stray value => .stray value.outline
  | .items es => .items (outlineAll es)
  | .valueFunction code => .valueFunction code.outline
  | .operator form symbol left right => .operator form symbol (outline left) (outline right)
  | .connective op operands => .connective op (outlineAll operands)
  | .nullTest negated operand => .nullTest negated (outline operand)
  | .truthTest code operand => .truthTest code.outline (outline operand)
  | .call function star arguments => .call function star (outlineAll arguments)
  | .cast type operand => .cast type (outline operand)
  | .array es => .array (outlineAll es)
  | .row es => .row (outlineAll es)
  | .coalesce arguments => .coalesce (outlineAll arguments)
  | .extremum greatest arguments => .extremum greatest (outlineAll arguments)
  | .choice subject arms otherwise =>
    .choice (outline subject) (outlineAll arms) (outline otherwise)
  | .arm condition result => .arm (outline condition) (outline result)
  | .memberName name => .memberName name
  | .unlisted => .unlisted
  | .unknown kind => .unknown kind
  | .column path => .column path
  | .constant value shown => .constant value shown

def outlineAll : List Expr → List Expr
  | [] => []
  | e :: es => outline e :: outlineAll es

end

theorem outlineAll_eq_map (es : List Expr) : outlineAll es = es.map outline := by
  induction es with
  | nil => rfl
  | cons e es ih => rw [outlineAll, ih, List.map_cons]

end Expr

namespace Json

theorem outline_of_isScalar {j : Json} (h : j.isScalar = true) : j.outline = j := by
  cases j with
  | arr _ | obj _ => cases h
  | _ => rfl

theorem key_outline (j : Json) : j.outline.key = j.key := by
  unfold outline
  split <;> rfl

theorem text_outline (j : Json) : j.outline.text = j.text := by
  unfold outline
  split <;> rfl

theorem truthy_outline (j : Json) : j.outline.truthy = j.truthy := by
  unfold outline
  split
  · rename_i items
    cases items <;> rfl
  · rfl
  · rename_i ms _
    cases ms <;> rfl
  · rfl

end Json

namespace Expr

theorem kind_outline (e : Expr) : kind e.outline = kind e := by
  cases e with
  | stray value =>
    rw [outline]
    match value with
    | .obj [] | .obj [_] | .obj (_ :: _ :: _) | .arr _ => rfl
    | .null | .bool _ | .int _ | .float _ | .str _ => rfl
  | _ => rfl

theorem kind_stray (value : Json) : kind (.stray value.outline) = kind (.stray value) :=
  kind_outline (.stray value)

theorem sound_outline (kinds : List String) (e : Expr) : sound kinds e.outline = sound kinds e := by
  cases e with
  | stray value =>
    rw [outline]
    match value with
    | .obj [] | .obj [_] | .obj (_ :: _ :: _) | .arr _ => rfl
    | .null | .bool _ | .int _ | .float _ | .str _ => rfl
  | _ => rfl

theorem sound_stray (kinds : List String) (value : Json) :
    sound kinds (.stray value.outline) = sound kinds (.stray value) :=
  sound_outline kinds (.stray value)

theorem isAbsent_outline (e : Expr) : isAbsent e.outline = isAbsent e := by
  cases e with
  | stray value =>
    rw [outline]
    match value with
    | .obj [] | .obj [_] | .obj (_ :: _ :: _) | .arr _ => rfl
    | .null | .bool _ | .int _ | .float _ | .str _ => rfl
  | _ => rfl

theorem isGiven_outline (e : Expr) : isGiven e.outline = isGiven e := by
  cases e with
  | stray value => exact value.truthy_outline
  | items es => cases es <;> rfl
  | _ => rfl

theorem count_outline (es : List Expr) : count (outlineAll es) = count es := by
  match es with
  | [] => rfl
  | [e] => cases e <;> rfl
  | e :: e' :: es =>
    rw [outlineAll_eq_map, List.map_cons, List.map_cons, count, count, List.length_cons,
      List.length_cons, List.length_map, List.length_cons, List.length_cons]
    all_goals simp

theorem elements_outline (d : Dialect) (e : Expr) :
    elements d e.outline = (elements d e).map outlineAll := by
  cases e with
  | stray value =>
    show (do .error (.unrenderable (← kind (.stray value.outline)) d) : Read (List Expr)) = _
    rw [kind_stray]
    show _ = Except.map outlineAll (do .error (.unrenderable (← kind (.stray value)) d))
    cases kind (.stray value) <;> rfl
  | _ => rfl

theorem forM_positioned_outline (es : List Expr) :
    (outlineAll es).forM positioned = es.forM positioned := by
  induction es with
  | nil => rfl
  | cons e es ih =>
    show (do positioned e.outline; (outlineAll es).forM positioned) = _
    rw [ih, show positioned e.outline = positioned e by cases e <;> rfl]
    rfl

theorem renderValueFunction_outline (d : Dialect) (code : Json) :
    renderValueFunction d code.outline = renderValueFunction d code := by
  by_cases h : code.isScalar = true
  · rw [Json.outline_of_isScalar h]
  · have hkey : code.key = .error .mistyped := if_neg h
    unfold renderValueFunction
    rw [code.key_outline, hkey]
    rfl

theorem truthTestWords_outline (code : Json) :
    truthTestWords code.outline = truthTestWords code := by
  rw [truthTestWords, code.text_outline, truthTestWords]

theorem textConstant?_outline (e : Expr) : textConstant? e.outline = textConstant? e := by
  unfold textConstant?
  rw [sound_outline]
  cases e <;> rfl

theorem truthCast?_outline (type : String) (e : Expr) :
    truthCast? type e.outline = truthCast? type e := by
  rw [truthCast?, truthCast?, textConstant?_outline]

theorem isEmpty_outlineAll (es : List Expr) : (outlineAll es).isEmpty = es.isEmpty := by
  cases es <;> rfl

theorem render_negation_cons (d : Dialect) {e : Expr} (es : List Expr)
    (h : ∀ name, e ≠ .memberName name) :
    render d (.connective .negation (e :: es)) =
      (do return ⟨"NOT " ++ (← render d e).operand .negation false, .negation⟩) := by
  rw [render]
  exact h

mutual

theorem render_outline (d : Dialect) (e : Expr) : render d e.outline = render d e := by
  cases e with
  | stray value =>
    rw [outline]
    unfold render
    rw [kind_stray]
  | valueFunction code =>
    rw [outline, render, render, renderValueFunction_outline]
  | operator form symbol left right =>
    rw [outline]
    cases form with
    | plain =>
      rw [render, render, render_outline d left, render_outline d right, isAbsent_outline]
    | like _ | distinct _ =>
      rw [render, render, render_outline d left, render_outline d right]
    | nullIf | similar =>
      cases d <;> simp only [render, render_outline _ left, render_outline _ right]
    | membership =>
      rw [render, render, render_outline d left, renderElements_outline d right]
    | between _ _ =>
      rw [render, render, render_outline d left, renderElements_outline d right, elements_outline]
      cases elements d right with
      | error _ => rfl
      | ok bounds => simp only [Except.map, count_outline, forM_positioned_outline, bind, Except.bind]
    | quantified _ =>
      cases d with
      | postgres => simp only [render, render_outline _ left, render_outline _ right]
      | sqlite =>
        have hright := renderElements_outline .sqlite right
        simp only [render, render_outline _ left, hright]
        congr 1
        funext parts
        congr 1
        funext word?
        cases word? with
        | none => cases right <;> rfl
        | some word =>
          cases right with
          | stray value =>
            match value with
            | .obj ((tag, b) :: rest) =>
              by_cases htag : tag = "A_ArrayExpr"
              · subst htag
                cases rest <;> rfl
              · cases rest <;> simp [outline, Json.outline, htag]
            | .obj [] | .arr _ | .null | .bool _ | .int _ | .float _ | .str _ => rfl
          | _ => rfl
    | other _ => rfl
  | connective op operands =>
    rw [outline]
    cases op with
    | negation =>
      cases operands with
      | nil => rfl
      | cons e es =>
        by_cases h : ∃ name, e = .memberName name
        · obtain ⟨name, rfl⟩ := h
          rfl
        · have hname : ∀ name, e ≠ .memberName name := fun name he => h ⟨name, he⟩
          have houtline : ∀ name, e.outline ≠ .memberName name := by
            intro name he
            cases e with
            | memberName name => exact hname name rfl
            | _ => cases he
          rw [outlineAll, render_negation_cons d _ houtline, render_negation_cons d _ hname,
            render_outline d e]
    | _ => rw [render, render, renderAll_outline d operands]; all_goals simp
  | nullTest _ operand => rw [outline, render, render, render_outline d operand]
  | truthTest code operand =>
    rw [outline, render, render, truthTestWords_outline, render_outline d operand]
  | call _ _ arguments =>
    rw [outline, render, render, renderAll_outline d arguments, isEmpty_outlineAll]
  | cast _ operand =>
    rw [outline]
    cases d <;> simp only [render, render_outline _ operand, truthCast?_outline]
  | array es => rw [outline]; cases d <;> simp only [render, renderAll_outline _ es]
  | row es => rw [outline, render, render, renderAll_outline d es]
  | coalesce es => rw [outline]; cases d <;> simp only [render, renderAll_outline _ es]
  | extremum greatest es =>
    rw [outline]; cases d <;> cases greatest <;> simp only [render, renderAll_outline _ es]
  | choice subject arms otherwise =>
    rw [outline, render, render, render_outline d subject, renderArms_outline d arms,
      render_outline d otherwise, isGiven_outline, isGiven_outline]
  | _ => rfl

theorem renderAll_outline (d : Dialect) : (es : List Expr) →
    renderAll d (outlineAll es) = renderAll d es
  | [] => rfl
  | e :: es => by
    rw [outlineAll, renderAll, renderAll, render_outline d e, renderAll_outline d es]

theorem renderElements_outline (d : Dialect) (e : Expr) :
    renderElements d e.outline = renderElements d e := by
  cases e with
  | stray value =>
    rw [outline]
    unfold renderElements
    rw [kind_stray]
  | items es | row es | array es =>
    rw [outline, renderElements, renderElements, renderAll_outline d es]
  | _ => rfl

theorem renderArms_outline (d : Dialect) : (es : List Expr) →
    renderArms d (outlineAll es) = renderArms d es
  | [] => rfl
  | e :: es => by
    rw [outlineAll]
    cases e with
    | arm condition result =>
      rw [outline, renderArms, renderArms, render_outline d condition, render_outline d result,
        renderArms_outline d es]
    | stray value =>
      match value with
      | .obj [] | .obj [_] | .obj (_ :: _ :: _) | .arr _ => rfl
      | .null | .bool _ | .int _ | .float _ | .str _ => rfl
    | _ => rfl

end

theorem text_outline (d : Dialect) (e : Expr) : text d e.outline = text d e := by
  rw [text, text, render_outline]

/-! ### Checks -/

theorem isColumn_outline (column : Json) (e : Expr) :
    isColumn column e.outline = isColumn column e := by
  cases e with
  | stray value =>
    simp only [outline, isColumn, sound_stray]
  | _ => rfl

theorem constant?_outline (e : Expr) : constant? e.outline = constant? e := by
  cases e with
  | cast _ operand => rw [outline, constant?, constant?, constant?_outline operand]
  | operator form symbol left right =>
    cases form with
    | plain => rw [outline, constant?, constant?, isAbsent_outline, constant?_outline right]
    | _ => rfl
  | stray value =>
    rw [outline]
    unfold constant?
    rw [sound_stray]
  | _ => rfl

theorem mapM_constant?_outline (es : List Expr) :
    (outlineAll es).mapM constant? = es.mapM constant? := by
  induction es with
  | nil => rfl
  | cons e es ih => rw [outlineAll, List.mapM_cons, List.mapM_cons, constant?_outline, ih]

theorem constants?_outline (es : List Expr) : constants? (outlineAll es) = constants? es := by
  rw [constants?, constants?, mapM_constant?_outline]

theorem listed?_outline (e : Expr) : listed? e.outline = (listed? e).map (Option.map outlineAll) := by
  cases e with
  | stray value =>
    simp only [outline, listed?, sound_stray]
    cases sound ["List", "A_ArrayExpr"] (.stray value) <;> rfl
  | _ => rfl

/-- Whoever sees the same in every outlined list sees it in a list that is read. -/
theorem bind_map_outlineAll {α : Type} (es? : Read (Option (List Expr)))
    (next : Option (List Expr) → Read α) (h : ∀ es, next (some (outlineAll es)) = next (some es)) :
    es?.map (Option.map outlineAll) >>= next = es? >>= next := by
  cases es? with
  | error _ => rfl
  | ok es? =>
    cases es? with
    | none => rfl
    | some es => exact h es

end Expr

namespace Check

open StrictDdl.Expr

theorem comparisonBounds_outline (column : Json) (symbol : Read (List Json)) (left right : Expr) :
    comparisonBounds column symbol left.outline right.outline =
      comparisonBounds column symbol left right := by
  have hchoose : ∀ (swapped : Bool) (op flipped : String),
      (if swapped then (right.outline, left.outline, flipped) else (left.outline, right.outline, op))
        = (fun (t : Expr × Expr × String) => (t.1.outline, t.2.1.outline, t.2.2))
          (if swapped then (right, left, flipped) else (left, right, op)) := by
    intro swapped op flipped
    cases swapped <;> rfl
  unfold comparisonBounds
  simp only [hchoose, isColumn_outline, constant?_outline]

theorem betweenBounds_outline (column : Json) (left right : Expr) :
    betweenBounds column left.outline right.outline = betweenBounds column left right := by
  unfold betweenBounds
  rw [isColumn_outline, listed?_outline]
  congr 1
  funext isColumn
  cases isColumn with
  | false => rfl
  | true => exact bind_map_outlineAll _ _ fun es => by simp only [constants?_outline]

mutual

theorem bounds?_outline (column : Json) (e : Expr) : bounds? column e.outline = bounds? column e := by
  cases e with
  | operator form symbol left right =>
    rw [outline]
    cases form with
    | plain => exact comparisonBounds_outline column symbol left right
    | between negated symmetric =>
      cases negated <;> cases symmetric
      · exact betweenBounds_outline column left right
      all_goals rfl
    | _ => rfl
  | connective op operands =>
    rw [outline]
    cases op with
    | conjunction => rw [bounds?, bounds?, meetAll?_outline column {} operands]
    | _ => rfl
  | stray value =>
    rw [outline]
    unfold bounds?
    rw [sound_stray]
  | _ => rfl

theorem meetAll?_outline (column : Json) (found : Bounds) : (es : List Expr) →
    meetAll? column found (outlineAll es) = meetAll? column found es
  | [] => rfl
  | e :: es => by
    rw [outlineAll, meetAll?, meetAll?, bounds?_outline column e]
    congr 1
    funext b?
    cases b? with
    | none => rfl
    | some b => exact meetAll?_outline column (found.meet b) es

end

theorem equality?_outline (column : Json) (symbol : Read (List Json)) (left right : Expr) :
    equality? column symbol left.outline right.outline = equality? column symbol left right := by
  have hchoose : ∀ swapped : Bool,
      (if swapped then (right.outline, left.outline) else (left.outline, right.outline))
        = (fun (t : Expr × Expr) => (t.1.outline, t.2.outline))
          (if swapped then (right, left) else (left, right)) := by
    intro swapped
    cases swapped <;> rfl
  unfold equality?
  simp only [hchoose, isColumn_outline, constant?_outline]

theorem isEqualityOf_outline (column : Json) (symbol : Read (List Json)) (left : Expr) :
    isEqualityOf column symbol left.outline = isEqualityOf column symbol left := by
  rw [isEqualityOf, isEqualityOf, isColumn_outline]

theorem arrayElements?_outline (e : Expr) :
    arrayElements? e.outline = (arrayElements? e).map (Option.map outlineAll) := by
  unfold arrayElements?
  rw [sound_outline]
  cases e.sound ["TypeCast"] with
  | error _ => rfl
  | ok _ =>
    cases e with
    | cast _ operand =>
      show (operand.outline.sound ["A_ArrayExpr"] >>= _) =
        Except.map _ (operand.sound ["A_ArrayExpr"] >>= _)
      rw [sound_outline]
      cases operand.sound ["A_ArrayExpr"] with
      | error _ => rfl
      | ok _ => cases operand <;> rfl
    | stray value =>
      show ((Expr.stray value).outline.sound ["A_ArrayExpr"] >>= _) =
        Except.map _ ((Expr.stray value).sound ["A_ArrayExpr"] >>= _)
      rw [sound_outline]
      cases (Expr.stray value).sound ["A_ArrayExpr"] <;> rfl
    | _ => rfl

mutual

theorem values?_outline (column : Json) (e : Expr) : values? column e.outline = values? column e := by
  cases e with
  | operator form symbol left right =>
    rw [outline]
    cases form with
    | plain => rw [values?, values?, equality?_outline]
    | membership =>
      rw [values?, values?, isEqualityOf_outline, listed?_outline]
      congr 1
      funext isEquality
      cases isEquality with
      | false => rfl
      | true => exact bind_map_outlineAll _ _ constants?_outline
    | quantified all =>
      cases all with
      | true => rfl
      | false =>
        rw [values?, values?, isEqualityOf_outline, arrayElements?_outline]
        congr 1
        funext isEquality
        cases isEquality with
        | false => rfl
        | true => exact bind_map_outlineAll _ _ constants?_outline
    | _ => rfl
  | connective op operands =>
    rw [outline]
    cases op with
    | disjunction => rw [values?, values?, joinAll?_outline column [] operands]
    | _ => rfl
  | stray value =>
    rw [outline]
    unfold values?
    rw [sound_stray]
  | _ => rfl

theorem joinAll?_outline (column : Json) (found : List Json) : (es : List Expr) →
    joinAll? column found (outlineAll es) = joinAll? column found es
  | [] => rfl
  | e :: es => by
    rw [outlineAll, joinAll?, joinAll?, values?_outline column e]
    congr 1
    funext vs?
    cases vs? with
    | none => rfl
    | some vs => exact joinAll?_outline column (addNew found vs) es

end

theorem pattern?_outline (column : Json) (e : Expr) : pattern? column e.outline = pattern? column e := by
  cases e with
  | operator form symbol left right =>
    rw [outline]
    cases form with
    | plain => rw [pattern?, pattern?, isColumn_outline, constant?_outline]
    | _ => rfl
  | stray value =>
    simp only [outline, pattern?, sound_stray]
  | _ => rfl

/-- **A check is classified by its outline.** -/
theorem classify_outline (mentioned : List Json) (e : Expr) (column : Json) (whole : Bool) :
    classify mentioned e.outline column whole = classify mentioned e column whole := by
  unfold classify
  simp only [bounds?_outline, values?_outline, pattern?_outline]

end Check

/-! ### Defaults -/

namespace Default

open StrictDdl.Expr

theorem truthCast?_outline (type : TypeName) (operand : Expr) :
    truthCast? type operand.outline = truthCast? type operand := by
  unfold truthCast?
  rw [sound_outline]
  cases operand <;> rfl

theorem negative?_outline (symbol : Read (List Json)) (left right : Expr) :
    negative? symbol left.outline right.outline = negative? symbol left right := by
  unfold negative?
  rw [isAbsent_outline, sound_outline]
  cases right <;> rfl

theorem literal?_outline (e : Expr) : literal? e.outline = literal? e := by
  cases e with
  | operator form symbol left right => exact negative?_outline symbol left right
  | cast type operand => rw [outline, literal?, literal?, truthCast?_outline]
  | _ => rfl

theorem functionKey_outline (e : Expr) : functionKey e.outline = functionKey e := by
  cases e with
  | valueFunction code =>
    match code with
    | .obj [] | .obj [_] | .obj (_ :: _ :: _) | .arr _ => rfl
    | .null | .bool _ | .int _ | .float _ | .str _ => rfl
  | _ => rfl

end Default

theorem ComputedKind.of_outline (e : Expr) : ComputedKind.of e.outline = ComputedKind.of e := by
  cases e <;> rfl

end StrictDdl
