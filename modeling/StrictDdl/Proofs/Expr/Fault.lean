import StrictDdl.Default
import StrictDdl.Proofs.Fault

/-! Which expressions can meet a construct without a counterpart.

The parts of an expression that a parse tree gives are read as nodes are, so they fail only on what
is malformed (`Expr.ofJson_plain`). Looking for a rule or for a constant in such an expression then
fails on nothing else; writing it in a dialect fails also where the dialect has no form
(`Expr.text_supported`), and that is all a computed default can fail on
(`Default.classify_supported`). -/
namespace StrictDdl

/-- The fault is no construct without a counterpart; it may be an expression without a form. -/
def Fault.Supported (fault : Fault) : Prop :=
  ∀ construct detail, fault ≠ .unsupported construct detail

/-- The reading meets no construct without a counterpart but an expression without a form. -/
def Read.Supported {α : Type} (r : Read α) : Prop := r.Fails Fault.Supported

theorem Fault.supported_of_plain {fault : Fault} (h : fault.isUnsupported = false) :
    fault.Supported := by
  rintro construct detail rfl
  cases h

namespace Read

variable {α : Type}

theorem Plain.supported {r : Read α} (h : r.Plain) : r.Supported :=
  h.mono fun _ => Fault.supported_of_plain

theorem supported_unrenderable (kind : String) (d : Dialect) :
    Supported (.error (.unrenderable kind d) : Read α) := by
  refine fails_error fun _ _ h => ?_
  cases h

end Read

open Read

namespace Expr

mutual

/-- No part that the expression keeps as it was read meets a construct without a counterpart. -/
def Plain : Expr → Prop
  | .stray _ => True
  | .memberName _ => True
  | .unlisted => True
  | .unknown _ => True
  | .valueFunction _ => True
  | .column path => path.Plain
  | .constant value shown => value.Plain ∧ shown.Plain
  | .operator _ symbol left right => symbol.Plain ∧ Plain left ∧ Plain right
  | .nullTest _ operand => Plain operand
  | .truthTest _ operand => Plain operand
  | .call function _ arguments => function.Plain ∧ AllPlain arguments
  | .cast type operand => type.Plain ∧ Plain operand
  | .items es => AllPlain es
  | .connective _ operands => AllPlain operands
  | .array es => AllPlain es
  | .row es => AllPlain es
  | .coalesce arguments => AllPlain arguments
  | .extremum _ arguments => AllPlain arguments
  | .choice subject arms otherwise => Plain subject ∧ AllPlain arms ∧ Plain otherwise
  | .arm condition result => Plain condition ∧ Plain result

def AllPlain : List Expr → Prop
  | [] => True
  | e :: es => Plain e ∧ AllPlain es

end

theorem allPlain_iff {es : List Expr} : AllPlain es ↔ ∀ e ∈ es, e.Plain := by
  induction es with
  | nil => simp [AllPlain]
  | cons e es ih => rw [AllPlain, ih, List.forall_mem_cons]

/-! ### Reading -/

theorem listed_plain {value : Json} {e : Expr} (h : e.Plain) : AllPlain (listed value e) := by
  unfold listed
  split
  · exact h
  · rw [allPlain_iff]
    intro e he
    obtain ⟨c, _, rfl⟩ := List.mem_map.1 he
    trivial
  · rw [allPlain_iff]
    intro e he
    obtain ⟨m, _, rfl⟩ := List.mem_map.1 he
    trivial
  · split
    · exact ⟨trivial, trivial⟩
    · trivial

theorem part_plain {read : List (String × Expr)} (h : ∀ m ∈ read, m.2.Plain) (key : String) :
    (part read key).Plain := by
  unfold part
  cases hfind : read.lookup key with
  | none => trivial
  | some e =>
    obtain ⟨before, after, rfl, _⟩ := List.lookup_eq_some_iff.1 hfind
    exact h (key, e) (by simp)

theorem ofNode_plain (kind : String) (ms : Members) {read : List (String × Expr)}
    (h : ∀ m ∈ read, m.2.Plain) : (ofNode kind ms read).Plain := by
  have hpart := part_plain h
  have hlist : ∀ key, AllPlain (listed (ms.get key) (part read key)) := fun key =>
    listed_plain (hpart key)
  unfold ofNode
  extract_lets list
  split
  · exact Node.strings_plain _
  · exact ⟨Constant.ofBody_plain ms, Constant.value_plain _⟩
  · trivial
  · exact ⟨Node.strings_plain _, hpart _, hpart _⟩
  · exact hlist _
  · exact hpart _
  · exact hpart _
  · exact ⟨Node.strings_plain _, hlist _⟩
  · exact ⟨TypeName.ofJson_plain _, hpart _⟩
  · exact hlist _
  · exact hlist _
  · exact hlist _
  · exact hlist _
  · exact ⟨hpart _, hlist _, hpart _⟩
  · exact ⟨hpart _, hpart _⟩
  · trivial

theorem ofJson_of_two (m m' : String × Json) (ms : Members) :
    ofJson (.obj (m :: m' :: ms)) = .stray (.obj (m :: m' :: ms)) := by
  obtain ⟨kind, value⟩ := m
  cases value <;> rfl

mutual

/-- **The expression of a value keeps no part that meets a construct without a counterpart.** -/
theorem ofJson_plain : (j : Json) → (ofJson j).Plain
  | .arr js => by
    rw [ofJson]
    exact ofElements_plain js
  | .obj [(kind, .obj ms)] => by
    rw [ofJson]
    exact ofNode_plain kind ms (ofMembers_plain ms)
  | .obj [(kind, .null)] => by
    rw [ofJson]
    exact ofNode_plain kind [] (by simp)
  | .obj [] => trivial
  | .obj (m :: m' :: ms) => by
    rw [ofJson_of_two]
    trivial
  | .obj [(_, .bool _)] | .obj [(_, .int _)] | .obj [(_, .float _)] => trivial
  | .obj [(_, .str _)] | .obj [(_, .arr _)] => trivial
  | .null | .bool _ | .int _ | .float _ | .str _ => trivial

theorem ofElements_plain : (js : List Json) → AllPlain (ofElements js)
  | [] => trivial
  | j :: js => ⟨ofJson_plain j, ofElements_plain js⟩

theorem ofMembers_plain : (ms : List (String × Json)) → ∀ m ∈ ofMembers ms, m.2.Plain
  | [] => by simp [ofMembers]
  | (_, j) :: ms => by
    rw [ofMembers, List.forall_mem_cons]
    exact ⟨ofJson_plain j, ofMembers_plain ms⟩

end

/-! ### Writing -/

theorem kind_plain (e : Expr) : e.kind.Plain := by
  unfold kind
  split <;> first | exact fails_ok _ | exact fails_error rfl

theorem sound_plain (kinds : List String) (e : Expr) : (e.sound kinds).Plain := by
  unfold sound
  split
  · exact Fails.ite (fails_error rfl) (fails_ok _)
  · exact fails_ok _

theorem isNegated_plain (op : Json) : (isNegated op).Plain :=
  op.text_plain.bind fun _ => fails_ok _

theorem bindingOf_plain (op : Json) : (bindingOf op).Plain := by
  refine op.key_plain.bind fun key => ?_
  cases key <;> exact fails_ok _

theorem targetOperator_supported (op : Json) (binding : Binding) :
    (targetOperator op binding).Supported := by
  unfold targetOperator
  extract_lets refused
  have hrefused : refused.Supported := supported_unrenderable _ _
  split
  · split
    · exact fails_ok _
    · exact Fails.ite (fails_ok _) hrefused
  · exact hrefused

theorem elements_supported (d : Dialect) (e : Expr) : (elements d e).Supported := by
  unfold elements
  split
  · exact fails_ok _
  · exact fails_ok _
  · exact fails_ok _
  · exact (kind_plain _).supported.bind fun _ => supported_unrenderable _ _

theorem count_plain (es : List Expr) : (count es).Plain := by
  unfold count
  split
  · exact fails_error rfl
  · exact fails_ok _

theorem positioned_plain (e : Expr) : (positioned e).Plain := by
  cases e with
  | memberName _ => exact fails_error rfl
  | _ => exact fails_ok ()

theorem renderValueFunction_supported (d : Dialect) (code : Json) :
    (renderValueFunction d code).Supported := by
  refine code.key_plain.supported.bind fun key => ?_
  split
  · exact supported_unrenderable _ _
  · split
    · exact fails_ok _
    · split
      · exact fails_ok _
      · exact supported_unrenderable _ _

theorem renderCall_plain (d : Dialect) (function : List Json) (plain : Bool) (arguments : String) :
    (renderCall d function plain arguments).Plain := by
  unfold renderCall
  extract_lets names
  split
  · exact (Node.join_plain _ _).bind fun _ => fails_ok _
  · split
    · exact fails_error rfl
    · refine (Json.text_plain _).bind fun _ => ?_
      dsimp only
      split <;> exact fails_ok _

theorem castTarget_plain {type : TypeName} (h : type.Plain) : (castTarget type).Plain := by
  refine h.names.bind fun names => ?_
  split
  · exact fails_ok _
  · exact (Json.text_plain _).bind fun _ => Fails.ite (fails_ok _) (fails_ok _)

theorem textConstant?_plain {e : Expr} (h : e.Plain) : (textConstant? e).Plain := by
  refine (sound_plain _ e).bind fun _ => ?_
  split
  · refine Fails.bind h.1 fun value => ?_
    split <;> exact fails_ok _
  · exact fails_ok _

theorem truthCast?_plain (type : String) {e : Expr} (h : e.Plain) : (truthCast? type e).Plain :=
  Fails.ite ((textConstant?_plain h).bind fun _ => fails_ok _) (fails_ok _)

theorem truthTestWords_plain (code : Json) : (truthTestWords code).Plain :=
  code.text_plain.bind fun _ => fails_ok _

theorem spelling_plain {type : TypeName} (h : type.Plain) : type.spelling.Plain :=
  h.names.bind fun _ => (Node.join_plain _ _).bind fun _ => h.modifiers.bind fun _ =>
    h.depth.bind fun _ => fails_ok _

mutual

/-- **An expression is written, or it has no form in the dialect, or it is malformed.** -/
theorem render_supported (d : Dialect) (e : Expr) (h : e.Plain) : (render d e).Supported := by
  have hkind : Supported (do .error (.unrenderable (← e.kind) d) : Read Rendered) :=
    (kind_plain e).supported.bind fun _ => supported_unrenderable _ _
  cases e with
  | column path =>
    exact (Plain.supported h).bind fun names =>
      Fails.bind (Plain.supported (fails_mapM Json.text_plain names)) fun _ => fails_ok _
  | constant value shown =>
    exact (Plain.supported h.2).bind fun _ => fails_ok _
  | valueFunction code => exact renderValueFunction_supported d code
  | operator form symbol left right =>
    obtain ⟨hsymbol, hleft, hright⟩ := h
    have hl := render_supported d left hleft
    have hr := render_supported d right hright
    have helements := renderElements_supported d right hright
    have hnegated : ∀ parts, (isNegated (symbolOf parts)).Supported := fun parts =>
      (isNegated_plain _).supported
    cases form with
    | plain =>
      rw [render]
      refine hsymbol.supported.bind fun parts => .ite ?_ ?_
      · split
        · exact hr.bind fun _ => fails_ok _
        · exact hr.bind fun _ => fails_ok _
        · exact supported_unrenderable _ _
      · refine (bindingOf_plain _).supported.bind fun binding => ?_
        cases d with
        | sqlite =>
          exact (targetOperator_supported _ _).bind fun _ => hl.bind fun _ => hr.bind fun _ =>
            fails_ok _
        | postgres => exact (fails_ok _).bind fun _ => hl.bind fun _ => hr.bind fun _ => fails_ok _
    | like _ =>
      exact hsymbol.supported.bind fun parts => (hnegated parts).bind fun _ => hl.bind fun _ =>
        hr.bind fun _ => fails_ok _
    | membership =>
      exact hsymbol.supported.bind fun _ => hl.bind fun _ => helements.bind fun _ => fails_ok _
    | between _ _ =>
      rw [render]
      refine .ite (supported_unrenderable _ _) ?_
      refine (elements_supported d right).bind fun bounds =>
        (count_plain bounds).supported.bind fun _ => .ite (supported_unrenderable _ _) ?_
      have hpositioned : (bounds.forM positioned).Plain := fails_forM positioned_plain bounds
      refine hl.bind fun _ => hpositioned.supported.bind fun _ => helements.bind fun rs => ?_
      split
      · exact fails_ok _
      · exact Plain.supported (fails_error rfl)
    | quantified all =>
      cases d with
      | postgres =>
        exact hsymbol.supported.bind fun _ => hl.bind fun _ => hr.bind fun _ => fails_ok _
      | sqlite =>
        rw [render]
        refine hsymbol.supported.bind fun parts => ?_
        refine Fails.bind (Fails.map (Json.key_plain _).supported _) fun word? => ?_
        split
        · exact hl.bind fun _ => helements.bind fun _ => fails_ok _
        · exact hl.bind fun _ => Plain.supported (fails_error rfl)
        · exact supported_unrenderable _ _
    | distinct _ => exact hl.bind fun _ => hr.bind fun _ => fails_ok _
    | nullIf => cases d <;> exact hl.bind fun _ => hr.bind fun _ => fails_ok _
    | similar =>
      cases d with
      | sqlite => exact supported_unrenderable _ _
      | postgres =>
        exact hsymbol.supported.bind fun parts => (hnegated parts).bind fun _ => hl.bind fun _ =>
          hr.bind fun _ => fails_ok _
    | other _ => exact supported_unrenderable _ _
  | connective op operands =>
    have hall := renderAll_supported d operands h
    cases op with
    | negation =>
      cases operands with
      | nil => exact Plain.supported (fails_error rfl)
      | cons e es =>
        by_cases hname : ∃ name, e = .memberName name
        · obtain ⟨name, rfl⟩ := hname
          exact Plain.supported (fails_error rfl)
        · rw [render]
          · exact (render_supported d e h.1).bind fun _ => fails_ok _
          · exact fun name he => hname ⟨name, he⟩
    | _ => exact hall.bind fun _ => fails_ok _
  | nullTest _ operand => exact (render_supported d operand h).bind fun _ => fails_ok _
  | truthTest code operand =>
    exact (truthTestWords_plain code).supported.bind fun _ =>
      (render_supported d operand h).bind fun _ => fails_ok _
  | call function star arguments =>
    rw [render]
    refine h.1.supported.bind fun names => .ite ?_ ?_
    · exact (fails_ok _).bind fun _ => (renderCall_plain d names _ _).supported
    · exact Fails.bind (Fails.map (renderAll_supported d arguments h.2) _) fun _ =>
        (renderCall_plain d names _ _).supported
  | cast type operand =>
    have hoperand := render_supported d operand h.2
    cases d with
    | postgres => exact hoperand.bind fun _ => (spelling_plain h.1).supported.bind fun _ => fails_ok _
    | sqlite =>
      rw [render]
      refine (castTarget_plain h.1).supported.bind fun target? => ?_
      split
      · exact hoperand
      · refine (truthCast?_plain _ h.2).supported.bind fun text? => ?_
        split
        · exact fails_ok _
        · exact hoperand.bind fun _ => fails_ok _
  | array es => exact (renderAll_supported d es h).bind fun _ => fails_ok _
  | row es => exact (renderAll_supported d es h).bind fun _ => fails_ok _
  | coalesce es => exact (renderAll_supported d es h).bind fun _ => fails_ok _
  | extremum _ es => exact (renderAll_supported d es h).bind fun _ => fails_ok _
  | choice subject arms otherwise =>
    have hlast : ∀ head middle : List String, Supported (do
        let last ← if otherwise.isGiven then
            (render d otherwise).map (fun r => ["ELSE " ++ r.text])
          else pure []
        return Rendered.atom (String.intercalate " " ("CASE" :: head ++ middle ++ last ++ ["END"]))) := by
      intro head middle
      refine Fails.ite ?_ (fails_ok _)
      exact Fails.bind (Fails.map (render_supported d otherwise h.2.2) _) fun _ => fails_ok _
    have harms := renderArms_supported d arms h.2.1
    rw [render]
    refine .ite ?_ ?_
    · exact Fails.bind (Fails.map (render_supported d subject h.1) _) fun head =>
        harms.bind fun middle => hlast head middle
    · exact (fails_ok _).bind fun head => harms.bind fun middle => hlast head middle
  | arm _ _ => exact supported_unrenderable _ _
  | unknown _ => exact supported_unrenderable _ _
  | _ => exact hkind

theorem renderAll_supported (d : Dialect) : (es : List Expr) → AllPlain es →
    (renderAll d es).Supported
  | [], _ => fails_ok _
  | e :: es, h => (render_supported d e h.1).bind fun _ =>
    (renderAll_supported d es h.2).bind fun _ => fails_ok _

theorem renderElements_supported (d : Dialect) (e : Expr) (h : e.Plain) :
    (renderElements d e).Supported := by
  have hkind : Supported (do .error (.unrenderable (← e.kind) d) : Read (List Rendered)) :=
    (kind_plain e).supported.bind fun _ => supported_unrenderable _ _
  cases e with
  | items es | row es | array es => exact renderAll_supported d es h
  | _ => exact hkind

theorem renderArms_supported (d : Dialect) : (es : List Expr) → AllPlain es →
    (renderArms d es).Supported
  | [], _ => fails_ok _
  | e :: es, h => by
    have hkind : Supported (do malformed ("expected CaseWhen, got " ++ (← e.kind)) :
        Read (List String)) :=
      (kind_plain e).supported.bind fun _ => Plain.supported (fails_error rfl)
    cases e with
    | arm condition result =>
      exact (render_supported d condition h.1.1).bind fun _ =>
        (render_supported d result h.1.2).bind fun _ =>
          (renderArms_supported d es h.2).bind fun _ => fails_ok _
    | stray value =>
      match value with
      | .obj [(_, _)] =>
        exact .ite (Plain.supported (fails_error rfl)) (Plain.supported (fails_error rfl))
      | .obj [] | .obj ((_, _) :: _ :: _) | .arr _ => exact hkind
      | .null | .bool _ | .int _ | .float _ | .str _ => exact hkind
    | _ => exact hkind

end

theorem text_supported (d : Dialect) {e : Expr} (h : e.Plain) : (e.text d).Supported :=
  (render_supported d e h).bind fun _ => fails_ok _

/-! ### Rules -/

theorem operatorName_plain {symbol : Read (List Json)} (h : symbol.Plain) :
    (operatorName symbol).Plain :=
  h.bind fun _ => fails_ok _

theorem isColumn_plain (column : Json) {e : Expr} (h : e.Plain) : (isColumn column e).Plain := by
  cases e with
  | column path =>
    refine Fails.bind h fun names => ?_
    split <;> exact fails_ok _
  | _ => exact (sound_plain _ _).bind fun _ => fails_ok _

theorem constant?_plain (e : Expr) (h : e.Plain) : (constant? e).Plain := by
  cases e with
  | cast _ operand => exact constant?_plain operand h.2
  | constant value _ => exact Fails.map h.1 _
  | operator form symbol left right =>
    cases form with
    | plain =>
      rw [constant?]
      refine .ite ((operatorName_plain h.1).bind fun _ => .ite ?_ (fails_ok _)) (fails_ok _)
      refine (constant?_plain right h.2.2).bind fun value? => ?_
      split <;> exact fails_ok _
    | _ => exact (sound_plain _ _).bind fun _ => fails_ok _
  | unlisted => exact fails_error rfl
  | _ => exact (sound_plain _ _).bind fun _ => fails_ok _

theorem constants?_plain {es : List Expr} (h : AllPlain es) : (constants? es).Plain :=
  Fails.bind (fails_mapM_of_mem fun e he => constant?_plain e (allPlain_iff.1 h e he)) fun _ =>
    fails_ok _

theorem listed?_plain (e : Expr) : (listed? e).Plain := by
  cases e with
  | items es | row es | array es => exact fails_ok _
  | _ => exact (sound_plain _ _).bind fun _ => fails_ok _

/-- The elements of a plain list are plain. -/
theorem allPlain_of_listed? {e : Expr} {es : List Expr} (h : e.Plain)
    (hes : listed? e = .ok (some es)) : AllPlain es := by
  cases e with
  | items _ | row _ | array _ =>
    cases hes
    exact h
  | _ =>
    obtain ⟨_, _, hnone⟩ := bind_eq_ok_iff.1 hes
    cases hnone

end Expr

theorem Number.floor_plain (n : Number) : n.floor.Plain := by
  cases n with
  | int n => exact fails_ok n
  | float x =>
    unfold Number.floor
    dsimp only
    split
    · exact fails_ok _
    · exact Json.wholePart_plain x

theorem Number.ceil_plain (n : Number) : n.ceil.Plain := by
  cases n with
  | int n => exact fails_ok n
  | float x =>
    unfold Number.ceil
    dsimp only
    split
    · exact fails_ok _
    · exact Json.wholePart_plain x

theorem Bounds.rules_plain (b : Bounds) (whole : Bool) : (b.rules whole).Plain := by
  have hlast : ∀ low high : ValueRules,
      Plain (return if b.lower.isNone && b.upper.isNone then none else some (low.merge high) :
        Read (Option ValueRules)) := fun _ _ => fails_ok _
  unfold rules
  extract_lets rest
  have hrest : ∀ low, (rest low).Plain := by
    intro low
    unfold rest
    extract_lets last
    split
    · exact (fails_ok _).bind (hlast low)
    · exact (fails_ok _).bind (hlast low)
    · exact .ite ((Fails.map (Number.ceil_plain _) _).bind (hlast low)) ((fails_ok _).bind (hlast low))
  split
  · exact (fails_ok _).bind hrest
  · exact (fails_ok _).bind hrest
  · exact .ite ((Fails.map (Number.floor_plain _) _).bind hrest) ((fails_ok _).bind hrest)

theorem Lenient.toRead_plain {α : Type} (r : Lenient α) : r.toRead.Plain := by
  cases r with
  | ok a => exact fails_ok a
  | refused problems => exact fails_error rfl

namespace Check

open StrictDdl.Expr

variable {column : Json} {symbol : Read (List Json)} {left right : Expr}

theorem comparisonBounds_plain (hsymbol : symbol.Plain) (hleft : left.Plain) (hright : right.Plain) :
    (comparisonBounds column symbol left right).Plain := by
  refine (operatorName_plain hsymbol).bind fun name => (Json.key_plain _).bind fun op => ?_
  split
  · split
    · exact fails_ok _
    · extract_lets rest
      have hrest : ∀ swapped, (rest swapped).Plain := by
        intro swapped
        cases swapped with
        | false =>
          refine (isColumn_plain column hleft).bind fun _ => .ite ?_ (fails_ok _)
          refine (constant?_plain right hright).bind fun value? => ?_
          split <;> exact fails_ok _
        | true =>
          refine (isColumn_plain column hright).bind fun _ => .ite ?_ (fails_ok _)
          refine (constant?_plain left hleft).bind fun value? => ?_
          split <;> exact fails_ok _
      refine (isColumn_plain column hright).bind fun _ => .ite ?_ ?_
      · exact Fails.bind (Fails.map (isColumn_plain column hleft) _) hrest
      · exact (fails_ok _).bind hrest
  · exact fails_ok _

theorem betweenBounds_plain (hleft : left.Plain) (hright : right.Plain) :
    (betweenBounds column left right).Plain := by
  refine (isColumn_plain column hleft).bind fun _ => .ite ?_ (fails_ok _)
  refine (listed?_plain right).bind_ok fun es? hes => ?_
  split
  · exact fails_ok _
  · refine (constants?_plain (allPlain_of_listed? hright hes)).bind fun values? => ?_
    split
    · split <;> exact fails_ok _
    · exact fails_ok _

mutual

theorem bounds?_plain (column : Json) (e : Expr) (h : e.Plain) : (bounds? column e).Plain := by
  have hother : Plain (do e.sound ["A_Expr", "BoolExpr"]; return none : Read (Option Bounds)) :=
    (sound_plain _ e).bind fun _ => fails_ok _
  cases e with
  | operator form symbol left right =>
    cases form with
    | plain => exact comparisonBounds_plain h.1 h.2.1 h.2.2
    | between negated symmetric =>
      cases negated <;> cases symmetric
      · exact betweenBounds_plain h.2.1 h.2.2
      all_goals exact hother
    | _ => exact hother
  | connective op operands =>
    cases op with
    | conjunction => exact meetAll?_plain column {} operands h
    | _ => exact hother
  | unlisted => exact fails_error rfl
  | _ => exact hother

theorem meetAll?_plain (column : Json) (found : Bounds) : (es : List Expr) → AllPlain es →
    (meetAll? column found es).Plain
  | [], _ => fails_ok _
  | e :: es, h => by
    rw [meetAll?]
    refine (bounds?_plain column e h.1).bind fun b? => ?_
    cases b? with
    | none => exact fails_ok _
    | some b => exact meetAll?_plain column (found.meet b) es h.2

end

theorem equality?_plain (hsymbol : symbol.Plain) (hleft : left.Plain) (hright : right.Plain) :
    (equality? column symbol left right).Plain := by
  have hcompared : ∀ e value : Expr, e.Plain → value.Plain → Plain (do
      if ← e.isColumn column then value.constant? else return none : Read (Option Json)) :=
    fun e value he hvalue => (isColumn_plain column he).bind fun _ =>
      .ite (constant?_plain value hvalue) (fails_ok _)
  refine (operatorName_plain hsymbol).bind fun _ => .ite ?_ (fails_ok _)
  refine (isColumn_plain column hright).bind fun swapped => ?_
  cases swapped with
  | false => exact hcompared left right hleft hright
  | true => exact hcompared right left hright hleft

theorem isEqualityOf_plain (hsymbol : symbol.Plain) (hleft : left.Plain) :
    (isEqualityOf column symbol left).Plain :=
  (operatorName_plain hsymbol).bind fun _ => .ite (isColumn_plain column hleft) (fails_ok _)

theorem arrayElements?_plain (e : Expr) : (arrayElements? e).Plain := by
  refine (sound_plain _ e).bind fun _ => (sound_plain _ _).bind fun _ => ?_
  split <;> exact fails_ok _

/-- The elements of a plain array are plain, also behind a cast. -/
theorem allPlain_of_arrayElements? {e : Expr} {es : List Expr} (h : e.Plain)
    (hes : arrayElements? e = .ok (some es)) : AllPlain es := by
  obtain ⟨_, _, hes⟩ := bind_eq_ok_iff.1 hes
  obtain ⟨_, _, hes⟩ := bind_eq_ok_iff.1 hes
  cases e with
  | array _ =>
    cases hes
    exact h
  | cast _ operand =>
    cases operand with
    | array _ =>
      cases hes
      exact h.2
    | _ => cases hes
  | _ => cases hes

mutual

theorem values?_plain (column : Json) (e : Expr) (h : e.Plain) : (values? column e).Plain := by
  have hother : Plain (do e.sound ["A_Expr", "BoolExpr"]; return none : Read (Option (List Json))) :=
    (sound_plain _ e).bind fun _ => fails_ok _
  cases e with
  | operator form symbol left right =>
    cases form with
    | plain => exact (equality?_plain h.1 h.2.1 h.2.2).bind fun _ => fails_ok _
    | membership =>
      refine (isEqualityOf_plain h.1 h.2.1).bind fun _ => .ite ?_ (fails_ok _)
      refine (listed?_plain right).bind_ok fun es? hes => ?_
      split
      · exact constants?_plain (allPlain_of_listed? h.2.2 hes)
      · exact fails_ok _
    | quantified all =>
      cases all with
      | true => exact hother
      | false =>
        refine (isEqualityOf_plain h.1 h.2.1).bind fun _ => .ite ?_ (fails_ok _)
        refine (arrayElements?_plain right).bind_ok fun es? hes => ?_
        split
        · exact constants?_plain (allPlain_of_arrayElements? h.2.2 hes)
        · exact fails_ok _
    | _ => exact hother
  | connective op operands =>
    cases op with
    | disjunction => exact joinAll?_plain column [] operands h
    | _ => exact hother
  | unlisted => exact fails_error rfl
  | _ => exact hother

theorem joinAll?_plain (column : Json) (found : List Json) : (es : List Expr) → AllPlain es →
    (joinAll? column found es).Plain
  | [], _ => fails_ok _
  | e :: es, h => by
    rw [joinAll?]
    refine (values?_plain column e h.1).bind fun vs? => ?_
    cases vs? with
    | none => exact fails_ok _
    | some vs => exact joinAll?_plain column (addNew found vs) es h.2

end

theorem pattern?_plain (column : Json) {e : Expr} (h : e.Plain) : (pattern? column e).Plain := by
  have hother : Plain (do e.sound ["A_Expr"]; return none : Read (Option String)) :=
    (sound_plain _ e).bind fun _ => fails_ok _
  cases e with
  | operator form symbol left right =>
    cases form with
    | plain =>
      refine (operatorName_plain h.1).bind fun _ => .ite ?_ (fails_ok _)
      refine (isColumn_plain column h.2.1).bind fun _ => .ite ?_ (fails_ok _)
      refine (constant?_plain right h.2.2).bind fun value? => ?_
      split <;> exact fails_ok _
    | _ => exact hother
  | _ => exact hother

/-- **Looking for the rules of a check fails on what is malformed only.** -/
theorem classify_plain (mentioned : List Json) {e : Expr} (h : e.Plain) (column : Json)
    (whole : Bool) : (classify mentioned e column whole).Plain := by
  unfold classify
  split
  · refine .ite ((bounds?_plain column e h).bind fun b? => ?_) (fails_ok _)
    split
    · exact Bounds.rules_plain _ _
    · refine (values?_plain column e h).bind fun vs? => ?_
      split
      · exact Fails.map (Lenient.toRead_plain _) _
      · exact (pattern?_plain column h).bind fun _ => fails_ok _
  · exact fails_ok _

end Check

/-! ### Defaults -/

namespace Default

open StrictDdl.Expr

theorem truthCast?_plain {type : TypeName} {operand : Expr} (htype : type.Plain)
    (h : operand.Plain) : (truthCast? type operand).Plain := by
  refine htype.names.bind fun names => ?_
  split
  · exact fails_ok _
  · refine (Json.text_plain _).bind fun _ => .ite ?_ (fails_ok _)
    refine (sound_plain _ operand).bind fun _ => ?_
    split
    · refine Fails.bind h.1 fun value => ?_
      split <;> exact fails_ok _
    · exact fails_ok _

theorem negative?_plain {symbol : Read (List Json)} {right : Expr} (left : Expr)
    (hsymbol : symbol.Plain) (h : right.Plain) : (negative? symbol left right).Plain := by
  refine .ite (hsymbol.bind fun names => ?_) (fails_ok _)
  split
  · refine (sound_plain _ right).bind fun _ => ?_
    split
    · refine Fails.bind h.1 fun value => ?_
      split <;> exact fails_ok _
    · exact fails_ok _
  · exact fails_ok _

theorem literal?_plain {e : Expr} (h : e.Plain) : (literal? e).Plain := by
  cases e with
  | constant value shown =>
    exact Fails.bind h.2 fun _ => (Lenient.toRead_plain _).bind fun _ => fails_ok _
  | operator form symbol left right => exact negative?_plain left h.1 h.2.2
  | cast type operand => exact (truthCast?_plain h.1 h.2).bind fun _ => fails_ok _
  | _ => exact fails_ok _

theorem functionKey_plain {e : Expr} (h : e.Plain) : (functionKey e).Plain := by
  cases e with
  | call function star arguments =>
    refine h.1.bind fun names => ?_
    split
    · exact fails_ok _
    · exact (Json.text_plain _).bind fun _ => fails_ok _
    · refine .ite ?_ (fails_ok _)
      split
      · exact (Json.text_plain _).bind fun _ => fails_ok _
      · exact fails_ok _
  | _ => exact fails_ok _

/-- **A default is classified, or it has no form in the source dialect, or it is malformed.** -/
theorem classify_supported {e : Expr} (h : e.Plain) : (classify e).Supported := by
  refine (kind_plain e).supported.bind fun _ => (literal?_plain h).supported.bind fun value? => ?_
  split
  · exact fails_ok _
  · exact (text_supported .postgres h).bind fun _ => (functionKey_plain h).supported.bind fun _ =>
      fails_ok _

end Default

end StrictDdl
