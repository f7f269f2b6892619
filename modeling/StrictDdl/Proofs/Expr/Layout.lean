import StrictDdl.Proofs.Expr.Fault
import StrictDdl.Proofs.Expr.Outline
import StrictDdl.Proofs.ParseTree.Layout

/-! Expressions of parse trees in different layouts.

The expressions of trees that are alike have the same outline (`Expr.outline_eq`), so they are
written and classified in the same way, and the trees mention the same columns
(`ParseTree.columns_eq`). -/
namespace StrictDdl

namespace Json

theorem Alike.outline_eq {j j' : Json} (h : j.Alike j') : j'.outline = j.outline := by
  cases h with
  | scalar _ | constant _ | text _ _ => rfl
  | arr hitems => cases hitems <;> rfl
  | @obj ms ms' hkeys _ _ =>
    match ms, ms', hkeys with
    | [], [], _ => rfl
    | [(tag, _)], [(tag', _)], hkeys =>
      obtain rfl : tag = tag' := (List.cons.inj hkeys).1
      rfl
    | _ :: _ :: _, _ :: _ :: _, _ => rfl

end Json

/-! ### Nodes -/

theorem Connective.ofCode_eq {code? code?' : Option Json} (h : Option.Rel Json.Alike code? code?') :
    Connective.ofCode code?' = Connective.ofCode code? := by
  cases h with
  | none => rfl
  | some h => cases h <;> rfl

theorem Json.Alike.getD {value? value?' : Option Json} (h : Option.Rel Json.Alike value? value?')
    {absent absent' : Json} (habsent : absent.Alike absent') :
    (value?.getD absent).Alike (value?'.getD absent') := by
  cases h with
  | none => exact habsent
  | some h => exact h

namespace Expr

theorem exists_items_of_outline_eq {e : Expr} {es : List Expr}
    (h : (items es).outline = e.outline) : ∃ es', e = .items es' ∧ outlineAll es = outlineAll es' := by
  cases e with
  | items es' => exact ⟨es', rfl, items.inj h⟩
  | _ => cases h

/-- The elements of a value that is no list. -/
theorem listed_of_ne_items {e : Expr} (he : ∀ es, e ≠ .items es) (value : Json) :
    listed value e = match value with
      | .str s => s.toList.map fun c => .stray (.str (String.ofList [c]))
      | .obj ms => ms.map fun m => .memberName m.1
      | value => if value.truthy then [.unlisted] else [] := by
  cases e with
  | items es => exact absurd rfl (he es)
  | _ => cases value <;> rfl

theorem outlineAll_listed_eq {value value' : Json} {e e' : Expr} (h : value.Alike value')
    (he : e'.outline = e.outline) :
    outlineAll (listed value' e') = outlineAll (listed value e) := by
  by_cases hitems : ∃ es, e = .items es
  · obtain ⟨es, rfl⟩ := hitems
    obtain ⟨es', rfl, hes⟩ := exists_items_of_outline_eq he.symm
    exact hes.symm
  · have hne : ∀ es, e ≠ .items es := fun es heq => hitems ⟨es, heq⟩
    have hne' : ∀ es, e' ≠ .items es := by
      rintro es rfl
      obtain ⟨es', heq, _⟩ := exists_items_of_outline_eq he
      exact hne es' heq
    rw [listed_of_ne_items hne, listed_of_ne_items hne']
    cases h with
    | scalar _ | constant _ | text _ _ => rfl
    | arr hitems => cases hitems <;> rfl
    | obj hkeys _ _ =>
      have hnames := congrArg (List.map memberName) hkeys.symm
      rw [Members.keys, Members.keys, List.map_map, List.map_map] at hnames
      exact congrArg outlineAll hnames

variable {ms ms' : Members} {read read' : List (String × Expr)}

/-- The expressions of nodes whose members are alike. A constant looks at other members and is
compared on its own. -/
theorem ofNode_outline_eq {kind : String} (hkind : kind ≠ "A_Const") (hms : ms.Alike ms')
    (hread : ∀ name ∉ ParseTree.hiddenNames,
      (part read' name).outline = (part read name).outline) :
    (ofNode kind ms' read').outline = (ofNode kind ms read).outline := by
  have hlist : ∀ name ∉ ParseTree.hiddenNames,
      outlineAll (listed (ms'.get name) (part read' name)) =
        outlineAll (listed (ms.get name) (part read name)) := fun name hname =>
    outlineAll_listed_eq (hms.get hname) (hread name hname)
  unfold ofNode
  extract_lets list' type' list type
  split
  · rw [outline, outline, Node.strings_eq (hms.get (by decide))]
  · exact absurd rfl hkind
  · rw [outline, outline, (hms.get (by decide)).outline_eq]
  · rw [outline, outline, ← hms.plain "kind" (by decide) (by decide),
      Node.strings_eq (hms.get (by decide)), hread _ (by decide), hread _ (by decide)]
  · rw [outline, outline, Connective.ofCode_eq (hms.find _ (by decide)), hlist _ (by decide)]
  · rw [outline, outline, (hms.get (by decide)).same_str_eq, hread _ (by decide)]
  · rw [outline, outline, (Json.Alike.getD (hms.find _ (by decide)) (.refl _)).outline_eq,
      hread _ (by decide)]
  · rw [outline, outline, Node.strings_eq (hms.get (by decide)), (hms.get (by decide)).truthy_eq,
      hlist _ (by decide)]
  · have htype : type.Alike type' := hms.get (by decide)
    have hgiven : (if type.truthy then type else .obj []).Alike
        (if type'.truthy then type' else .obj []) := by
      rw [htype.truthy_eq]
      split
      · exact htype
      · exact .refl _
    rw [outline, outline, TypeName.ofJson_eq hgiven, hread _ (by decide)]
  · rw [outline, outline, hlist _ (by decide)]
  · rw [outline, outline, hlist _ (by decide)]
  · rw [outline, outline, hlist _ (by decide)]
  · rw [outline, outline, (Json.Alike.getD (hms.find _ (by decide)) (.refl _)).same_str_eq,
      hlist _ (by decide)]
  · rw [outline, outline, hread _ (by decide), hlist _ (by decide), hread _ (by decide)]
  · rw [outline, outline, hread _ (by decide), hread _ (by decide)]
  · rfl

/-- A constant has no node of its own for a body. -/
theorem isA_of_sameValue (h : Constant.SameValue ms ms') :
    Node.isA "A_Const" (.obj ms) = false := by
  obtain ⟨c, _, hc, _, _⟩ := h.value
  cases hisA : Node.isA "A_Const" (.obj ms) with
  | false => rfl
  | true =>
    obtain ⟨b, rfl⟩ := Node.exists_body_of_isA hisA
    cases hc

theorem ofConstant_eq (h : Constant.SameValue ms ms') : ofConstant ms' = ofConstant ms := by
  have hvalue : ∀ {ms : Members}, Node.isA "A_Const" (.obj ms) = false →
      Constant.value (.obj ms) = Constant.ofBody ms := by
    intro ms hms
    unfold Constant.value
    rw [if_neg (by simp [hms])]
    rfl
  have hsymm : Constant.SameValue ms' ms := by
    obtain ⟨c, c', hc, hc', heq⟩ := h.value
    exact ⟨⟨c', c, hc', hc, heq.symm⟩, h.others.symm⟩
  rw [ofConstant, ofConstant, hvalue (isA_of_sameValue h), hvalue (isA_of_sameValue hsymm),
    h.ofBody_eq]

/-- Nothing that is looked at stands under the name of a node with several layouts. -/
theorem part_hidden {name tag : String} (value : Json) (hname : name ∉ ParseTree.hiddenNames)
    (htag : tag ∈ ParseTree.hiddenNames) : part (ofMembers [(tag, value)]) name = .stray .null := by
  have hne : name ≠ tag := by
    rintro rfl
    exact hname htag
  simp [part, ofMembers, List.lookup_cons, beq_false_of_ne hne]

theorem ofJson_of_holds {s : String} {held : Json}
    (h : Json.Holds ["sval", "str"] (.str "") (.str s) held) :
    ofJson (.obj [("String", held)]) = .unknown "String" := by
  cases h <;> rfl

mutual

/-- **The expressions of trees that are alike have the same outline.** -/
theorem outline_eq (j : Json) {j' : Json} (h : j.Alike j') :
    (ofJson j').outline = (ofJson j).outline := by
  cases j with
  | arr js =>
    cases h with
    | scalar hj => cases hj
    | arr hjs =>
      rw [ofJson, ofJson, outline, outline, outlineElements_eq js hjs]
  | obj ms =>
    cases h with
    | scalar hj => cases hj
    | constant hsame => exact congrArg outline (ofConstant_eq hsame)
    | text hheld hheld' =>
      rw [ofJson_of_holds hheld, ofJson_of_holds hheld']
    | @obj _ ms' hkeys hvalues hplain =>
      match ms, ms', hkeys, hvalues, hplain with
      | [], [], _, _, _ => rfl
      | m₁ :: m₂ :: ms, m₁' :: m₂' :: ms', _, _, _ =>
        rw [ofJson_of_two, ofJson_of_two]
        rfl
      | [(kind, value)], [(kind', value')], hkeys, hvalues, hplain =>
        obtain rfl : kind = kind' := (List.cons.inj hkeys).1
        by_cases hkind : kind = "A_Const"
        · subst hkind
          cases hplain "A_Const" (by decide)
          rfl
        · have hvalue : value.Alike value' := (List.forall₂_cons.1 hvalues).1
          cases value with
          | obj inner =>
            cases hvalue with
            | scalar hj => cases hj
            | obj hnames hinner hsame =>
              exact ofNode_outline_eq hkind (.of_obj (.obj hnames hinner hsame))
                fun name _ => outlineMembers_eq inner hnames hinner name
            | constant _ | text _ _ =>
              refine ofNode_outline_eq hkind (.of_hidden _ _ (by decide)) fun name hname => ?_
              rw [part_hidden _ hname (by decide), part_hidden _ hname (by decide)]
          | arr js =>
            cases hvalue with
            | scalar hj => cases hj
            | arr _ => rfl
          | _ =>
            cases hvalue
            rfl
  | _ =>
    cases h
    rfl

theorem outlineElements_eq : (js : List Json) → {js' : List Json} →
    List.Forall₂ Json.Alike js js' → outlineAll (ofElements js') = outlineAll (ofElements js)
  | [], _, h => by
    cases h
    rfl
  | j :: js, _, h => by
    obtain ⟨j', js', hj, hjs, rfl⟩ := List.forall₂_cons_left_iff.1 h
    rw [ofElements, ofElements, outlineAll, outlineAll, outline_eq j hj, outlineElements_eq js hjs]

theorem outlineMembers_eq : (ms : Members) → {ms' : Members} → Members.keys ms = Members.keys ms' →
    List.Forall₂ Json.Alike (ms.map Prod.snd) (ms'.map Prod.snd) →
    ∀ name, (part (ofMembers ms') name).outline = (part (ofMembers ms) name).outline
  | [], [], _, _, _ => rfl
  | (key, value) :: ms, (key', value') :: ms', hkeys, hvalues, name => by
    obtain ⟨hkey, hrest⟩ := List.cons.inj hkeys
    obtain ⟨hvalue, htail⟩ := List.forall₂_cons.1 hvalues
    obtain rfl : key = key' := hkey
    have hmembers := outlineMembers_eq ms hrest htail name
    unfold part at hmembers ⊢
    rw [ofMembers, ofMembers, List.lookup_cons, List.lookup_cons]
    split
    · exact outline_eq value hvalue
    · exact hmembers

end

end Expr

/-! ### Columns -/

namespace ParseTree

theorem columnsFrom_scalar {j : Json} (h : j.isScalar = true) (found : List Json) :
    columnsFrom found j = .ok found := by
  cases j with
  | arr _ | obj _ => cases h
  | _ => rfl

theorem columnsFrom_obj {ms : Members} (h : ∀ b, ms ≠ [("ColumnRef", b)]) (found : List Json) :
    columnsFrom found (.obj ms) = columnsFromMembers found ms := by
  rw [columnsFrom]
  rintro b rfl
  exact h b rfl

/-- No column is mentioned in what an object holds. -/
theorem columnsFrom_holds {names : List String} {zero value held : Json}
    (h : Json.Holds names zero value held) (hvalue : value.isScalar = true)
    (hnames : "ColumnRef" ∉ names) (found : List Json) : columnsFrom found held = .ok found := by
  cases h with
  | @written name hname =>
    rw [columnsFrom_obj, columnsFromMembers, columnsFrom_scalar hvalue]
    · rfl
    · rintro b heq
      cases heq
      exact hnames hname
  | empty _ | absent _ => rfl

/-- No column is mentioned in the layout of a constant. -/
theorem columnsFrom_layout {c : Constant.Literal} {ms : Members} (h : c.WrittenIn ms) :
    ∀ m ∈ ms, ∀ found, columnsFrom found m.2 = .ok found := by
  have hscalar : c.written.isScalar = true := by cases c <;> rfl
  have hmember : "ColumnRef" ∉ [c.member] := by cases c <;> simp [Constant.Literal.member]
  have hnames : "ColumnRef" ∉ c.names := by cases c <;> simp [Constant.Literal.names]
  have hkind : c.kind ≠ "ColumnRef" := by cases c <;> simp [Constant.Literal.kind]
  cases h with
  | isNull _ =>
    rw [List.forall_mem_singleton]
    exact fun _ => rfl
  | typed _ hheld =>
    rw [List.forall_mem_singleton]
    exact columnsFrom_holds hheld hscalar hmember
  | typedThenFlag _ hheld =>
    rw [List.forall_mem_cons, List.forall_mem_singleton]
    exact ⟨columnsFrom_holds hheld hscalar hmember, fun _ => rfl⟩
  | flagThenTyped _ hheld =>
    rw [List.forall_mem_cons, List.forall_mem_singleton]
    exact ⟨fun _ => rfl, columnsFrom_holds hheld hscalar hmember⟩
  | node hheld =>
    rw [List.forall_mem_singleton]
    intro found
    rw [columnsFrom_obj, columnsFromMembers, columnsFrom_holds hheld hscalar hnames]
    · rfl
    · intro b heq
      exact hkind (congrArg Prod.fst (List.cons.inj heq).1)

/-- Members that mention no column may be left out. -/
theorem columnsFromMembers_filter {p : String → Bool} (ms : Members)
    (h : ∀ m ∈ ms, p m.1 = false → ∀ found, columnsFrom found m.2 = .ok found)
    (found : List Json) :
    columnsFromMembers found (ms.filter fun m => p m.1) = columnsFromMembers found ms := by
  induction ms generalizing found with
  | nil => rfl
  | cons m ms ih =>
    obtain ⟨key, value⟩ := m
    obtain ⟨hm, hms⟩ := List.forall_mem_cons.1 h
    rw [columnsFromMembers]
    cases hp : p key with
    | true =>
      rw [List.filter_cons_of_pos (by exact hp), columnsFromMembers]
      congr 1
      funext found
      exact ih hms found
    | false =>
      rw [List.filter_cons_of_neg (by simp [hp]), hm hp found]
      exact ih hms found

/-- The columns of a constant are those of its other members. -/
theorem columnsFrom_constant {c : Constant.Literal} {ms : Members}
    (h : c.WrittenIn (Constant.layout ms)) (found : List Json) :
    columnsFrom found (.obj ms) = columnsFromMembers found (Constant.others ms) := by
  rw [columnsFrom_obj]
  · refine (columnsFromMembers_filter (p := fun name => !Constant.layoutNames.contains name) ms
      (fun m hm hp => columnsFrom_layout h m ?_) found).symm
    exact List.mem_filter.2 ⟨hm, by simpa using hp⟩
  · rintro b rfl
    cases h

mutual

theorem columnsFrom_eq (found : List Json) (j : Json) {j' : Json} (h : j.Alike j') :
    columnsFrom found j' = columnsFrom found j := by
  cases j with
  | arr js =>
    cases h with
    | scalar hj => cases hj
    | arr hjs => rw [columnsFrom, columnsFrom, columnsFromAll_eq found js hjs]
  | obj ms =>
    cases h with
    | scalar hj => cases hj
    | @constant ms ms' hsame =>
      obtain ⟨c, c', hc, hc', _⟩ := hsame.value
      have hbody : columnsFrom found (.obj ms') = columnsFrom found (.obj ms) := by
        rw [columnsFrom_constant hc, columnsFrom_constant hc', hsame.others]
      rw [columnsFrom_obj (by simp), columnsFrom_obj (by simp), columnsFromMembers,
        columnsFromMembers, hbody]
    | text hheld hheld' =>
      rw [columnsFrom_obj (by simp), columnsFrom_obj (by simp), columnsFromMembers,
        columnsFromMembers, columnsFrom_holds hheld rfl (by decide),
        columnsFrom_holds hheld' rfl (by decide)]
    | @obj _ ms' hkeys hvalues _ =>
      by_cases hcolumn : ∃ b, ms = [("ColumnRef", b)]
      · obtain ⟨b, rfl⟩ := hcolumn
        match ms', hkeys, hvalues with
        | [(tag, b')], hkeys, hvalues =>
          obtain rfl : "ColumnRef" = tag := (List.cons.inj hkeys).1
          have hb : b.Alike b' := (List.forall₂_cons.1 hvalues).1
          have hagrees : Read.Agrees True Eq (columnsFrom found (.obj [("ColumnRef", b)]))
              (columnsFrom found (.obj [("ColumnRef", b')])) :=
            (hb.bodyOf "ColumnRef").bind fun ms ms' hms =>
              ((Node.strings_plain _).agrees_of_eq (Node.strings_eq (hms.get (by decide)))).bind
                fun names names' hnames => .ok (by rw [hnames])
          exact hagrees.eq.symm
      · have hne : ∀ b, ms ≠ [("ColumnRef", b)] := fun b heq => hcolumn ⟨b, heq⟩
        have hne' : ∀ b, ms' ≠ [("ColumnRef", b)] := by
          rintro b rfl
          match ms, hkeys with
          | [(tag, b)], hkeys =>
            obtain rfl : tag = "ColumnRef" := (List.cons.inj hkeys).1
            exact hne b rfl
        rw [columnsFrom_obj hne, columnsFrom_obj hne', columnsFromMembers_eq found ms hvalues]
  | _ =>
    cases h
    rfl

theorem columnsFromAll_eq (found : List Json) : (js : List Json) → {js' : List Json} →
    List.Forall₂ Json.Alike js js' → columnsFromAll found js' = columnsFromAll found js
  | [], _, h => by
    cases h
    rfl
  | j :: js, _, h => by
    obtain ⟨j', js', hj, hjs, rfl⟩ := List.forall₂_cons_left_iff.1 h
    rw [columnsFromAll, columnsFromAll, columnsFrom_eq found j hj]
    congr 1
    funext found
    exact columnsFromAll_eq found js hjs

theorem columnsFromMembers_eq (found : List Json) : (ms : Members) → {ms' : Members} →
    List.Forall₂ Json.Alike (ms.map Prod.snd) (ms'.map Prod.snd) →
    columnsFromMembers found ms' = columnsFromMembers found ms
  | [], [], _ => rfl
  | (_, value) :: ms, (_, value') :: ms', h => by
    obtain ⟨hvalue, hvalues⟩ := List.forall₂_cons.1 h
    rw [columnsFromMembers, columnsFromMembers, columnsFrom_eq found value hvalue]
    congr 1
    funext found
    exact columnsFromMembers_eq found ms hvalues

end

/-- **Trees that are alike mention the same columns.** -/
theorem columns_eq {j j' : Json} (h : j.Alike j') : columns j' = columns j :=
  columnsFrom_eq [] j h

end ParseTree

/-! ### Checks and defaults -/

/-- Expressions that nobody can tell apart, of which no part is without a counterpart. -/
structure Expr.Alike (e e' : Expr) : Prop where
  outline : e'.outline = e.outline
  plain : e.Plain

namespace Expr.Alike

variable {e e' : Expr}

theorem ofJson {j j' : Json} (h : j.Alike j') : (Expr.ofJson j).Alike (Expr.ofJson j') :=
  ⟨outline_eq j h, ofJson_plain j⟩

theorem text_eq (h : e.Alike e') (d : Dialect) : e'.text d = e.text d := by
  rw [← text_outline, h.outline, text_outline]

theorem check_eq (h : e.Alike e') (mentioned : List Json) (column : Json) (whole : Bool) :
    Check.classify mentioned e' column whole = Check.classify mentioned e column whole := by
  rw [← Check.classify_outline, h.outline, Check.classify_outline]

end Expr.Alike

/-- Defaults that differ in the expression behind them at most, and nobody can tell these apart. -/
inductive Default.Alike : Default → Default → Prop where
  | literal (value : Scalar) : Alike (.literal value) (.literal value)
  | computed {c : Computed} {e e' : Expr} : e.Alike e' →
    Alike (.computed { c with node := some e }) (.computed { c with node := some e' })

/-- **Defaults are classified in the same way.** -/
theorem Default.classify_agrees {e e' : Expr} (h : e.Alike e') :
    Read.AgreesOn Fault.Supported True Default.Alike (Default.classify e) (Default.classify e') := by
  have hkind : e'.kind = e.kind := by
    rw [← Expr.kind_outline, h.outline, Expr.kind_outline]
  have hliteral : literal? e' = literal? e := by
    rw [← literal?_outline, h.outline, literal?_outline]
  have hfunction : functionKey e' = functionKey e := by
    rw [← functionKey_outline, h.outline, functionKey_outline]
  have hof : ComputedKind.of e' = ComputedKind.of e := by
    rw [← ComputedKind.of_outline, h.outline, ComputedKind.of_outline]
  refine ((Expr.kind_plain e).supported.agrees_of_eq hkind).bind fun _ _ _ => ?_
  refine ((literal?_plain h.plain).supported.agrees_of_eq hliteral).bind fun value? _ heq => ?_
  subst heq
  cases value? with
  | some value => exact .ok (.literal value)
  | none =>
    refine ((Expr.text_supported .postgres h.plain).agrees_of_eq (h.text_eq .postgres)).bind ?_
    rintro text _ rfl
    refine ((functionKey_plain h.plain).supported.agrees_of_eq hfunction).bind ?_
    rintro function _ rfl
    rw [hof]
    exact .ok (.computed (c := ⟨_, _, _, none⟩) h)

/-- A computed default is written, or it passes as it is, or it is left out, or it is malformed. -/
theorem Computed.target?_agrees (c : Computed) {e e' : Expr} (h : e.Alike e') :
    Read.Agrees True Eq ({ c with node := some e } : Computed).target?
      ({ c with node := some e' } : Computed).target? := by
  have htext := Expr.text_supported .sqlite h.plain
  unfold target?
  dsimp only
  rw [h.text_eq]
  generalize e.text .sqlite = text at htext
  split
  · exact .ok rfl
  · cases text with
    | ok text => exact .ok rfl
    | error fault =>
      cases fault with
      | unsupported construct detail => exact absurd rfl (htext _ rfl construct detail)
      | unrenderable kind d => exact .ok rfl
      | _ => exact .error rfl rfl fun _ => rfl

end StrictDdl
