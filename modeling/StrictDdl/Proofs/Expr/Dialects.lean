import StrictDdl.Model.Constraint
import StrictDdl.Proofs.Expr.Fault

/-! What the target dialect can write, the source dialect can.

The source text is the normal form that the other parts of a conversion hold on to, so a form that
is missing there loses the expression. The two writers are followed side by side: whenever the
target run ends with a text, the source run meets nothing without a form (`Read.Covers`), and the
calculus of that relation mirrors the steps of the writer. The dialects do not write the same parts.
A cast that SQLite drops or folds into a truth value is written by PostgreSQL, and so is an operator
that SQLite respells; what PostgreSQL reads in addition are names, codes and constants, and these
fail only on what is malformed. -/
namespace StrictDdl

namespace Read

variable {α β γ δ : Type}

/-- Whenever `target` ends with a value, `source` meets no construct without a counterpart. -/
def Covers (source : Read α) (target : Read β) : Prop := ∀ b, target = .ok b → source.Plain

theorem Plain.covers {source : Read α} (h : source.Plain) (target : Read β) :
    source.Covers target :=
  fun _ _ => h

theorem covers_error (source : Read α) (fault : Fault) : source.Covers (.error fault : Read β) := by
  intro b h
  cases h

/-- Two steps, one after the other on both sides. -/
theorem Covers.bind {source : Read α} {target : Read β} {f : α → Read γ} {g : β → Read δ}
    (h : source.Covers target) (hnext : ∀ a b, (f a).Covers (g b)) :
    (source >>= f).Covers (target >>= g) := by
  intro d hd
  obtain ⟨b, hb, hd⟩ := bind_eq_ok_iff.1 hd
  exact Fails.bind (h b hb) fun a => hnext a b d hd

/-- A step that both sides take. -/
theorem Plain.covers_bind {r : Read α} {f : α → Read γ} {g : α → Read δ} (h : r.Plain)
    (hnext : ∀ a, (f a).Covers (g a)) : (r >>= f).Covers (r >>= g) := by
  intro d hd
  obtain ⟨a, ha, hd⟩ := bind_eq_ok_iff.1 hd
  refine h.bind_ok fun a' ha' => ?_
  obtain rfl : a' = a := Except.ok.inj (ha'.symm.trans ha)
  exact hnext a' d hd

/-- A step that only the source takes. -/
theorem Plain.bind_covers {r : Read α} {f : α → Read γ} {target : Read δ} (h : r.Plain)
    (hnext : ∀ a, (f a).Covers target) : (r >>= f).Covers target :=
  fun d hd => Fails.bind h fun a => hnext a d hd

/-- A step that only the target takes. -/
theorem covers_bind {source : Read γ} {r : Read α} {g : α → Read δ}
    (hnext : ∀ a, r = .ok a → source.Covers (g a)) : source.Covers (r >>= g) := by
  intro d hd
  obtain ⟨a, ha, hd⟩ := bind_eq_ok_iff.1 hd
  exact hnext a ha d hd

/-- Further steps of the source that meet nothing without a counterpart. -/
theorem Covers.bind_plain {source : Read α} {target : Read β} {f : α → Read γ}
    (h : source.Covers target) (hf : ∀ a, (f a).Plain) : (source >>= f).Covers target :=
  fun b hb => Fails.bind (h b hb) hf

/-- Further steps of the target. -/
theorem Covers.of_bind {source : Read α} {target : Read β} {g : β → Read γ}
    (h : source.Covers target) : source.Covers (target >>= g) :=
  covers_bind fun b hb _ _ => h b hb

theorem Covers.map {source : Read α} {target : Read β} (h : source.Covers target) (f : α → γ)
    (g : β → δ) : Covers (source.map f) (target.map g) := by
  intro d hd
  obtain ⟨b, hb, -⟩ := map_eq_ok_iff.1 hd
  exact Fails.map (h b hb) f

theorem Covers.ite {p : Prop} [Decidable p] {s s' : Read α} {t t' : Read β} (h : s.Covers t)
    (h' : s'.Covers t') : Covers (if p then s else s') (if p then t else t') := by
  split
  · exact h
  · exact h'

theorem covers_ok (a : α) (target : Read β) : Covers (.ok a : Read α) target :=
  Plain.covers (fails_ok a) target

end Read

open Read

namespace Expr

/-- A cast folded into a truth value is a cast of a text constant, which has a source text. -/
theorem render_plain_of_truthCast {type : String} {e : Expr} (h : e.Plain) {s : String}
    (hs : truthCast? type e = .ok (some s)) : (render .postgres e).Plain := by
  unfold truthCast? at hs
  split at hs
  · obtain ⟨text?, htext, hsome⟩ := bind_eq_ok_iff.1 hs
    obtain ⟨_, _, hvalue⟩ := bind_eq_ok_iff.1 htext
    cases e with
    | constant value shown => exact Fails.bind h.2 fun _ => fails_ok _
    | _ =>
      cases hvalue
      cases hsome
  · cases hs

/-- The elements that are written in the target dialect are those of the source dialect. -/
theorem elements_postgres {e : Expr} {es : List Expr} (h : elements .sqlite e = .ok es) :
    elements .postgres e = .ok es := by
  cases e with
  | items _ | row _ | array _ => exact h
  | _ =>
    obtain ⟨_, _, hrefused⟩ := bind_eq_ok_iff.1 h
    cases hrefused

theorem renderValueFunction_covers (code : Json) :
    (renderValueFunction .postgres code).Covers (renderValueFunction .sqlite code) := by
  refine code.key_plain.covers_bind fun key => ?_
  split
  · exact covers_error _ _
  · exact covers_ok _ _

/-- An operator between operands that are covered. -/
theorem operator_covers {form : OperatorForm} {symbol : Read (List Json)} {left right : Expr}
    (hsymbol : symbol.Plain) (hl : (render .postgres left).Covers (render .sqlite left))
    (hr : (render .postgres right).Covers (render .sqlite right))
    (helements : (renderElements .postgres right).Covers (renderElements .sqlite right)) :
    (render .postgres (.operator form symbol left right)).Covers
      (render .sqlite (.operator form symbol left right)) := by
  have hboth : ∀ {α : Type} (f : Rendered → Rendered → α) (g : Rendered → Rendered → α),
      Covers (do return f (← render .postgres left) (← render .postgres right))
        (do return g (← render .sqlite left) (← render .sqlite right)) := fun f g =>
    hl.bind fun _ _ => hr.bind fun _ _ => covers_ok _ _
  cases form with
  | plain =>
    rw [render, render]
    refine hsymbol.covers_bind fun parts => .ite ?_ ?_
    · split
      · exact hr.bind fun _ _ => covers_ok _ _
      · exact hr.bind fun _ _ => covers_ok _ _
      · exact covers_error _ _
    · exact (bindingOf_plain _).covers_bind fun _ => covers_bind fun _ _ => hboth _ _
  | like _ => exact hsymbol.covers_bind fun _ => (isNegated_plain _).covers_bind fun _ => hboth _ _
  | membership =>
    exact hsymbol.covers_bind fun _ => hl.bind fun _ _ => helements.bind fun _ _ => covers_ok _ _
  | between negated symmetric =>
    rw [render, render]
    cases symmetric with
    | true => exact covers_error _ _
    | false =>
      refine covers_bind fun bounds hbounds => ?_
      rw [elements_postgres hbounds]
      refine (count_plain bounds).covers_bind fun _ => .ite (covers_error _ _) ?_
      have hpositioned : (bounds.forM positioned).Plain := fails_forM positioned_plain bounds
      refine hl.bind fun _ _ => hpositioned.covers_bind fun _ => helements.bind fun rs _ =>
        Plain.covers ?_ _
      split
      · exact fails_ok _
      · exact fails_error rfl
  | quantified all =>
    rw [render, render]
    refine hsymbol.covers_bind fun parts => covers_bind fun word? _ => ?_
    dsimp only
    split
    · -- SQLite writes the elements of the array; PostgreSQL writes the array around them.
      exact hl.bind fun _ _ => (helements.bind_plain fun _ => fails_ok _).bind fun _ _ =>
        covers_ok _ _
    · exact covers_bind fun _ _ => covers_error _ _
    · exact covers_error _ _
  | distinct _ => exact hboth _ _
  | nullIf => exact hboth _ _
  | similar => exact covers_error _ _
  | other _ => exact covers_error _ _

/-- A choice between parts that are covered. -/
theorem choice_covers {subject otherwise : Expr} {arms : List Expr}
    (hsubject : (render .postgres subject).Covers (render .sqlite subject))
    (harms : (renderArms .postgres arms).Covers (renderArms .sqlite arms))
    (hotherwise : (render .postgres otherwise).Covers (render .sqlite otherwise)) :
    (render .postgres (.choice subject arms otherwise)).Covers
      (render .sqlite (.choice subject arms otherwise)) := by
  have hlast : ∀ (head middle head' middle' : List String), Covers (do
      let last ← if otherwise.isGiven then
          (render .postgres otherwise).map (fun r => ["ELSE " ++ r.text])
        else pure []
      return Rendered.atom (String.intercalate " " ("CASE" :: head ++ middle ++ last ++ ["END"])))
    (do
      let last ← if otherwise.isGiven then
          (render .sqlite otherwise).map (fun r => ["ELSE " ++ r.text])
        else pure []
      return Rendered.atom
        (String.intercalate " " ("CASE" :: head' ++ middle' ++ last ++ ["END"]))) := by
    intro head middle head' middle'
    refine .ite ?_ (covers_ok _ _)
    exact (hotherwise.map _ _).bind fun _ _ => covers_ok _ _
  rw [render, render]
  refine .ite ?_ ?_
  · exact (hsubject.map _ _).bind fun head head' =>
      harms.bind fun middle middle' => hlast head middle head' middle'
  · exact (covers_ok _ _).bind fun head head' =>
      harms.bind fun middle middle' => hlast head middle head' middle'

mutual

/-- **What has a text in the target dialect has one in the source dialect, or it is malformed in a
part that only the source dialect reads.** -/
theorem render_covers (e : Expr) (h : e.Plain) :
    (render .postgres e).Covers (render .sqlite e) := by
  cases e with
  | column path =>
    refine Plain.covers (Fails.bind h fun names => ?_) _
    exact Fails.bind (fails_mapM Json.text_plain names) fun _ => fails_ok _
  | constant value shown => exact Plain.covers (Fails.bind h.2 fun _ => fails_ok _) _
  | valueFunction code => exact renderValueFunction_covers code
  | operator form symbol left right =>
    exact operator_covers h.1 (render_covers left h.2.1) (render_covers right h.2.2)
      (renderElements_covers right h.2.2)
  | connective op operands =>
    have hall := renderAll_covers operands h
    cases op with
    | negation =>
      cases operands with
      | nil => exact covers_error _ _
      | cons e es =>
        by_cases hname : ∃ name, e = .memberName name
        · obtain ⟨name, rfl⟩ := hname
          exact covers_error _ _
        · rw [render, render]
          · exact (render_covers e h.1).bind fun _ _ => covers_ok _ _
          all_goals exact fun name he => hname ⟨name, he⟩
    | _ => exact hall.bind fun _ _ => covers_ok _ _
  | nullTest _ operand => exact (render_covers operand h).bind fun _ _ => covers_ok _ _
  | truthTest code operand =>
    exact (truthTestWords_plain code).covers_bind fun _ =>
      (render_covers operand h).bind fun _ _ => covers_ok _ _
  | call function star arguments =>
    rw [render, render]
    refine h.1.covers_bind fun names => .ite ?_ ?_
    · exact Plain.covers ((fails_ok _).bind fun _ => renderCall_plain .postgres names _ _) _
    · exact ((renderAll_covers arguments h.2).map _ _).bind fun _ _ =>
        Plain.covers (renderCall_plain .postgres names _ _) _
  | cast type operand =>
    have hoperand := render_covers operand h.2
    rw [render, render]
    refine Covers.bind_plain ?_ fun _ => (spelling_plain h.1).bind fun _ => fails_ok _
    refine covers_bind fun target? _ => ?_
    split
    · exact hoperand
    · refine covers_bind fun text? htext => ?_
      split
      · exact Plain.covers (render_plain_of_truthCast h.2 htext) _
      · exact hoperand.of_bind
  | array es => exact (renderAll_covers es h).bind fun _ _ => covers_ok _ _
  | row es => exact (renderAll_covers es h).bind fun _ _ => covers_ok _ _
  | coalesce es => exact (renderAll_covers es h).bind fun _ _ => covers_ok _ _
  | extremum _ es => exact (renderAll_covers es h).bind fun _ _ => covers_ok _ _
  | choice subject arms otherwise =>
    exact choice_covers (render_covers subject h.1) (renderArms_covers arms h.2.1)
      (render_covers otherwise h.2.2)
  | arm _ _ => exact covers_error _ _
  | unknown _ => exact covers_error _ _
  | _ => exact covers_bind fun _ _ => covers_error _ _

theorem renderAll_covers : (es : List Expr) → AllPlain es →
    (renderAll .postgres es).Covers (renderAll .sqlite es)
  | [], _ => covers_ok _ _
  | e :: es, h => (render_covers e h.1).bind fun _ _ => (renderAll_covers es h.2).bind fun _ _ =>
    covers_ok _ _

theorem renderElements_covers (e : Expr) (h : e.Plain) :
    (renderElements .postgres e).Covers (renderElements .sqlite e) := by
  cases e with
  | items es | row es | array es => exact renderAll_covers es h
  | _ => exact covers_bind fun _ _ => covers_error _ _

theorem renderArms_covers : (es : List Expr) → AllPlain es →
    (renderArms .postgres es).Covers (renderArms .sqlite es)
  | [], _ => covers_ok _ _
  | e :: es, h => by
    have hkind : ∀ source : Read (List String),
        source.Covers (do malformed ("expected CaseWhen, got " ++ (← e.kind)) : Read (List String)) :=
      fun _ => covers_bind fun _ _ => covers_error _ _
    cases e with
    | arm condition result =>
      exact (render_covers condition h.1.1).bind fun _ _ =>
        (render_covers result h.1.2).bind fun _ _ =>
          (renderArms_covers es h.2).bind fun _ _ => covers_ok _ _
    | stray value =>
      match value with
      | .obj [(_, _)] => exact .ite (covers_error _ _) (covers_error _ _)
      | .obj [] | .obj ((_, _) :: _ :: _) | .arr _ => exact hkind _
      | .null | .bool _ | .int _ | .float _ | .str _ => exact hkind _
    | _ => exact hkind _

end

theorem text_covers {e : Expr} (h : e.Plain) : (e.text .postgres).Covers (e.text .sqlite) :=
  (render_covers e h).bind fun _ _ => covers_ok _ _

end Expr

/-! ### Checks and defaults -/

theorem Default.classify_covers {e : Expr} (h : e.Plain) :
    (Default.classify e).Covers (e.text .sqlite) := by
  refine (Expr.kind_plain e).bind_covers fun _ => (Default.literal?_plain h).bind_covers
    fun value? => ?_
  split
  · exact covers_ok _ _
  · exact (Expr.text_covers h).bind_plain fun _ => (Default.functionKey_plain h).bind fun _ =>
      fails_ok _

theorem CheckDraft.ofConstraint_covers {body : Members} {entity j : Json}
    (h : Node.require (.obj body) "raw_expr" entity = .ok j) :
    (CheckDraft.ofConstraint body entity).Covers ((Expr.ofJson j).text .sqlite) := by
  unfold ofConstraint
  rw [h]
  exact (Expr.text_covers (Expr.ofJson_plain j)).bind_plain fun _ =>
    (ParseTree.columns_plain j).bind fun _ => fails_ok _

theorem Read.Plain.ne_unrenderable {α : Type} {r : Read α} (h : r.Plain) (kind : String)
    (d : Dialect) : r ≠ .error (.unrenderable kind d) := by
  intro hr
  cases h _ hr

/-- **Whatever the target dialect can express, the source text can.** A node with a text for SQLite
is not refused for PostgreSQL, so neither a check nor a default of this node is given up for want of
a source text. -/
theorem Expr.source_text_of_target (j : Json) {s : String}
    (h : (ofJson j).text .sqlite = .ok s) :
    (∀ kind d, (ofJson j).text .postgres ≠ .error (.unrenderable kind d)) ∧
      (∀ kind d, Default.classify (ofJson j) ≠ .error (.unrenderable kind d)) ∧
      ∀ body entity, Node.require (.obj body) "raw_expr" entity = .ok j →
        ∀ kind d, CheckDraft.ofConstraint body entity ≠ .error (.unrenderable kind d) := by
  have hplain : (ofJson j).Plain := ofJson_plain j
  refine ⟨(text_covers hplain s h).ne_unrenderable, ?_, ?_⟩
  · exact (Default.classify_covers hplain s h).ne_unrenderable
  · intro body entity hsource
    exact (CheckDraft.ofConstraint_covers hsource s h).ne_unrenderable

/-- The node `status = ANY (ARRAY['sent'])`. -/
def Sample.sentStatus : Json :=
  .obj [("A_Expr", .obj [("kind", .str "AEXPR_OP_ANY"),
    ("name", .arr [.obj [("String", .obj [("sval", .str "=")])]]),
    ("lexpr", .obj [("ColumnRef", .obj [("fields",
      .arr [.obj [("String", .obj [("sval", .str "status")])]])])]),
    ("rexpr", .obj [("A_ArrayExpr", .obj [("elements",
      .arr [.obj [("A_Const", .obj [("sval", .obj [("sval", .str "sent")])])]])])])])]

/-- SQLite writes a membership for the comparison with the elements of an array. -/
theorem Expr.source_text_of_quantified :
    (ofJson Sample.sentStatus).text .sqlite = .ok "status IN ('sent')" ∧
      ∀ kind d, (ofJson Sample.sentStatus).text .postgres ≠ .error (.unrenderable kind d) := by
  have h : (ofJson Sample.sentStatus).text .sqlite = .ok "status IN ('sent')" := rfl
  exact ⟨h, (source_text_of_target Sample.sentStatus h).1⟩

end StrictDdl
