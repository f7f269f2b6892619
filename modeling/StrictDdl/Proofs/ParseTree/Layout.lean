import StrictDdl.Expr.Columns
import StrictDdl.ParseTree.Constant
import StrictDdl.ParseTree.TypeName
import StrictDdl.Proofs.Agreement

/-! Parse trees in different layouts.

A parser writes a constant with its value in a member named for the type or as a node under `val`,
and a text under one of two names; values that are zero it may leave out. Trees that differ in
nothing else are alike (`Json.Alike`). Every way of reading a node does the same on nodes that are
alike; a part that is itself a node is read as parts that are alike. -/
namespace StrictDdl

/-! ### Constants -/

/-- An object that holds a value under one of these names; a value that is zero may be left out,
and so may the object. -/
inductive Json.Holds (names : List String) (zero value : Json) : Json → Prop where
  | written {name : String} : name ∈ names → Holds names zero value (.obj [(name, value)])
  | empty : value = zero → Holds names zero value (.obj [])
  | absent : value = zero → Holds names zero value .null

namespace Constant

/-- A constant of one of the types that both layouts have. A number that is no whole number of
the parser's is kept as its text. -/
inductive Literal where
  | whole (n : Int)
  | number (digits : String)
  | text (s : String)
  | truth (b : Bool)
  | null

namespace Literal

/-- The value of the constant, if a number's text spells one. -/
def value : Literal → Read Json
  | .whole n => .ok (.int n)
  | .number digits => (Json.str digits).toNumber
  | .text s => .ok (.str s)
  | .truth b => .ok (.bool b)
  | .null => .ok .null

/-- What stands for the value in a tree. -/
def written : Literal → Json
  | .whole n => .int n
  | .number digits => .str digits
  | .text s => .str s
  | .truth b => .bool b
  | .null => .null

/-- The value of the type that may be left out. -/
def zero : Literal → Json
  | .whole _ => .int 0
  | .number _ => .str "0"
  | .text _ => .str ""
  | .truth _ => .bool false
  | .null => .null

/-- The member that is named for the type; the null constant has a flag of its own. -/
def member : Literal → String
  | .whole _ => "ival"
  | .number _ => "fval"
  | .text _ => "sval"
  | .truth _ => "boolval"
  | .null => ""

/-- The kind of the node under `val`. -/
def kind : Literal → String
  | .whole _ => "Integer"
  | .number _ => "Float"
  | .text _ => "String"
  | .truth _ => "Boolean"
  | .null => "Null"

/-- The names that the value has in that node. -/
def names : Literal → List String
  | .whole _ => ["ival"]
  | .number _ => ["fval", "str"]
  | .text _ => ["sval", "str"]
  | .truth _ => ["boolval"]
  | .null => []

/-- The layouts of a constant. The flag of the null constant may be written for the others too. -/
inductive WrittenIn (c : Literal) : Members → Prop where
  | isNull : c = .null → WrittenIn c [("isnull", .bool true)]
  | typed {held : Json} : c ≠ .null → Json.Holds [c.member] c.zero c.written held →
    WrittenIn c [(c.member, held)]
  | typedThenFlag {held : Json} : c ≠ .null → Json.Holds [c.member] c.zero c.written held →
    WrittenIn c [(c.member, held), ("isnull", .bool false)]
  | flagThenTyped {held : Json} : c ≠ .null → Json.Holds [c.member] c.zero c.written held →
    WrittenIn c [("isnull", .bool false), (c.member, held)]
  | node {held : Json} : Json.Holds c.names c.zero c.written held →
    WrittenIn c [("val", .obj [(c.kind, held)])]

end Literal

/-- The members of a constant that say what its value is. -/
def layoutNames : List String := ["isnull", "ival", "fval", "sval", "boolval", "bsval", "val"]

def layout (ms : Members) : Members := ms.filter fun m => layoutNames.contains m.1

def others (ms : Members) : Members := ms.filter fun m => !layoutNames.contains m.1

/-- Two bodies of constants of the same value; they differ in the layout only. -/
structure SameValue (ms ms' : Members) : Prop where
  value : ∃ c c' : Literal, c.WrittenIn (layout ms) ∧ c'.WrittenIn (layout ms') ∧
    c.value = c'.value
  others : others ms = others ms'

end Constant

/-! ### Trees -/

/-- The members that hold a name or a code, which is shown or compared as it stands, and never a
node. -/
def ParseTree.plainNames : List String :=
  ["accessMethod", "colname", "conname", "kind", "relname", "str", "sval"]

/-- The kinds of nodes that have several layouts. -/
def ParseTree.laidOut : List String := ["A_Const", "String"]

/-- The trees differ in the layout of constants and texts only. -/
inductive Json.Alike : Json → Json → Prop where
  | scalar {j : Json} : j.isScalar = true → Alike j j
  | arr {items items' : List Json} : List.Forall₂ Alike items items' →
    Alike (.arr items) (.arr items')
  /-- The members are alike one by one. Plain members are the same, and so is a node that has
  several layouts and is not seen as one here. -/
  | obj {ms ms' : Members} : Members.keys ms = Members.keys ms' →
    List.Forall₂ Alike (ms.map Prod.snd) (ms'.map Prod.snd) →
    (∀ name ∈ ParseTree.plainNames ++ ParseTree.laidOut,
      Members.find? ms name = Members.find? ms' name) →
    Alike (.obj ms) (.obj ms')
  | constant {ms ms' : Members} : Constant.SameValue ms ms' →
    Alike (.obj [("A_Const", .obj ms)]) (.obj [("A_Const", .obj ms')])
  | text {s : String} {held held' : Json} : Json.Holds ["sval", "str"] (.str "") (.str s) held →
    Json.Holds ["sval", "str"] (.str "") (.str s) held' →
    Alike (.obj [("String", held)]) (.obj [("String", held')])

namespace Members

theorem find?_filter {p : String → Bool} (ms : Members) {name : String} (h : p name = true) :
    find? (ms.filter fun m => p m.1) name = find? ms name := by
  induction ms with
  | nil => rfl
  | cons m ms ih =>
    obtain ⟨key, v⟩ := m
    by_cases hkey : key = name
    · subst hkey
      simp [h, find?]
    · by_cases hp : p key = true
      · simp [hp, find?, hkey, ih]
      · simp [hp, find?, hkey, ih]

end Members

namespace Constant

theorem find?_layout (ms : Members) {name : String} (h : name ∈ layoutNames) :
    Members.find? (layout ms) name = Members.find? ms name :=
  Members.find?_filter ms (List.contains_iff_mem.2 h)

theorem find?_others (ms : Members) {name : String} (h : name ∉ layoutNames) :
    Members.find? (others ms) name = Members.find? ms name :=
  Members.find?_filter ms (p := fun name => !layoutNames.contains name) (by simpa using h)

/-- The value of a body is that of its layout. -/
theorem ofBody_layout (ms : Members) : ofBody (layout ms) = ofBody ms := by
  have hget : ∀ name ∈ layoutNames, Members.get (layout ms) name = Members.get ms name := by
    intro name h
    rw [Members.get, Members.get, find?_layout ms h]
  have hhas : ∀ name ∈ layoutNames, Members.has (layout ms) name = Members.has ms name := by
    intro name h
    rw [Members.has, Members.has, find?_layout ms h]
  simp only [layoutNames, List.forall_mem_cons] at hget hhas
  obtain ⟨hisnull, hival, hfval, hsval, hboolval, hbsval, hval, _⟩ := hget
  obtain ⟨_, hival', hfval', hsval', hboolval', hbsval', hval', _⟩ := hhas
  unfold ofBody inner
  rw [hisnull, hival, hfval, hsval, hboolval, hbsval, hval, hival', hfval', hsval', hboolval',
    hbsval', hval']

/-- What an object holds is found in it. -/
theorem inner_of_holds {ms : Members} {name : String} {zero value held : Json}
    (hget : Members.get ms name = held) (h : Json.Holds [name] zero value held) :
    inner ms name zero = .ok value := by
  unfold inner
  rw [hget]
  cases h with
  | written hname =>
    obtain rfl := List.mem_singleton.1 hname
    simp [Json.truthy, Json.members, Members.find?, bind, Except.bind, pure, Except.pure]
  | empty hzero => simp [Json.truthy, hzero]
  | absent hzero => simp [Json.truthy, hzero]

theorem ofBody_typed {c : Literal} {ms : Members} {held : Json} (hc : c ≠ .null)
    (hget : Members.get ms c.member = held) (h : Json.Holds [c.member] c.zero c.written held)
    (hnull : (Members.get ms "isnull").truthy = false)
    (hhas : ∀ name ∈ layoutNames, name ≠ "isnull" → Members.has ms name = (name == c.member)) :
    ofBody ms = c.value := by
  have hinner := inner_of_holds hget h
  simp only [layoutNames, List.forall_mem_cons] at hhas
  obtain ⟨_, hival, hfval, hsval, hboolval, _, _, _⟩ := hhas
  unfold ofBody
  rw [hnull]
  cases c with
  | whole n =>
    simp only [Literal.member, Literal.zero, Literal.written] at hinner
    simp [hival, hinner, Literal.member, Literal.value]
    rfl
  | number digits =>
    simp only [Literal.member, Literal.zero, Literal.written] at hinner
    simp [hival, hfval, hinner, Literal.member, Literal.value]
    rfl
  | text s =>
    simp only [Literal.member, Literal.zero, Literal.written] at hinner
    simp [hival, hfval, hsval, hinner, Literal.member, Literal.value]
  | truth b =>
    simp only [Literal.member, Literal.zero, Literal.written] at hinner
    simp [hival, hfval, hsval, hboolval, hinner, Literal.member, Literal.value, Json.truthy]
  | null => exact absurd rfl hc

/-- **A constant has its value in every layout.** -/
theorem Literal.WrittenIn.ofBody_eq {c : Literal} {ms : Members} (h : c.WrittenIn ms) :
    ofBody ms = c.value := by
  cases h with
  | isNull hc =>
    subst hc
    rfl
  | typed hc hheld | typedThenFlag hc hheld | flagThenTyped hc hheld =>
    refine ofBody_typed hc ?_ hheld ?_ ?_ <;> cases c <;>
      simp_all [layoutNames, Literal.member, Members.get, Members.has, Members.find?, Json.truthy]
  | @node held hheld =>
    show ofNode (.obj [(c.kind, held)]) = c.value
    cases c with
    | whole n =>
      cases hheld with
      | written hname =>
        obtain rfl := List.mem_singleton.1 hname
        rfl
      | empty hzero | absent hzero =>
        cases hzero
        rfl
    | number digits =>
      cases hheld with
      | written hname =>
        rcases List.mem_pair.1 hname with rfl | rfl <;> rfl
      | empty hzero | absent hzero =>
        cases hzero
        rfl
    | text s =>
      cases hheld with
      | written hname =>
        rcases List.mem_pair.1 hname with rfl | rfl <;> rfl
      | empty hzero | absent hzero =>
        cases hzero
        rfl
    | truth b =>
      cases hheld with
      | written hname =>
        obtain rfl := List.mem_singleton.1 hname
        rfl
      | empty hzero | absent hzero =>
        cases hzero
        rfl
    | null =>
      cases hheld with
      | written hname => cases hname
      | empty _ | absent _ => rfl

theorem SameValue.ofBody_eq {ms ms' : Members} (h : SameValue ms ms') : ofBody ms' = ofBody ms := by
  obtain ⟨c, c', hc, hc', hvalue⟩ := h.value
  rw [← ofBody_layout ms, ← ofBody_layout ms', hc.ofBody_eq, hc'.ofBody_eq, hvalue]

end Constant

/-! ### Values -/

namespace Json.Alike

mutual

theorem refl : (j : Json) → j.Alike j
  | .arr items => .arr (reflAll items)
  | .obj ms => .obj rfl (reflValues ms) fun _ _ => rfl
  | .null => .scalar rfl
  | .bool _ => .scalar rfl
  | .int _ => .scalar rfl
  | .float _ => .scalar rfl
  | .str _ => .scalar rfl

theorem reflAll : (js : List Json) → List.Forall₂ Json.Alike js js
  | [] => .nil
  | j :: js => .cons (refl j) (reflAll js)

theorem reflValues : (ms : List (String × Json)) →
    List.Forall₂ Json.Alike (ms.map Prod.snd) (ms.map Prod.snd)
  | [] => .nil
  | (_, j) :: ms => .cons (refl j) (reflValues ms)

end

variable {j j' : Json}

theorem typeName_eq (h : j.Alike j') : j'.typeName = j.typeName := by
  cases h <;> rfl

/-- Both values are objects, or none of them is. -/
theorem obj_or (h : j.Alike j') :
    (∃ ms ms', j = .obj ms ∧ j' = .obj ms') ∨ (∀ ms, j ≠ .obj ms) ∧ ∀ ms, j' ≠ .obj ms := by
  cases h with
  | @scalar j hj =>
    have hne : ∀ ms, j ≠ .obj ms := by
      rintro ms rfl
      cases hj
    exact .inr ⟨hne, hne⟩
  | arr _ => exact .inr ⟨by simp, by simp⟩
  | obj _ _ _ | constant _ | text _ _ => exact .inl ⟨_, _, rfl, rfl⟩

theorem isNull_eq (h : j.Alike j') : j'.isNull = j.isNull := by
  cases h <;> rfl

theorem truthy_eq (h : j.Alike j') : j'.truthy = j.truthy := by
  cases h with
  | scalar _ | constant _ | text _ _ => rfl
  | arr hitems => cases hitems <;> rfl
  | @obj ms ms' hkeys _ _ =>
    have hlength := congrArg List.length hkeys
    cases ms <;> cases ms' <;> simp_all [Members.keys, truthy]

theorem text_eq (h : j.Alike j') : j'.text = j.text := by
  cases h <;> rfl

theorem key_eq (h : j.Alike j') : j'.key = j.key := by
  cases h <;> rfl

theorem same_str_eq (h : j.Alike j') (s : String) : j'.same (.str s) = j.same (.str s) := by
  cases h <;> simp [same]

theorem lenientText_eq (h : j.Alike j') : Lenient.text j' = Lenient.text j := by
  cases h <;> rfl

theorem lenientOptional_eq (h : j.Alike j') :
    Lenient.optional Lenient.text j' = Lenient.optional Lenient.text j := by
  cases h <;> rfl

end Json.Alike

/-! ### Members -/

/-- The members that only a reader of constants and texts looks at. -/
def ParseTree.hiddenNames : List String := "str" :: laidOut ++ Constant.layoutNames

/-- The members are alike, one by one; those of constants and texts apart. -/
structure Members.Alike (ms ms' : Members) : Prop where
  find : ∀ name ∉ ParseTree.hiddenNames, Option.Rel Json.Alike (find? ms name) (find? ms' name)
  plain : ∀ name ∈ ParseTree.plainNames, name ∉ ParseTree.hiddenNames →
    find? ms name = find? ms' name

namespace Members.Alike

variable {ms ms' : Members}

theorem rel_refl (v? : Option Json) : Option.Rel Json.Alike v? v? := by
  cases v? with
  | none => exact .none
  | some v => exact .some (.refl v)

theorem of_find (h : ∀ name ∉ ParseTree.hiddenNames, find? ms name = find? ms' name) :
    ms.Alike ms' := by
  refine ⟨fun name hname => ?_, fun name _ hname => h name hname⟩
  rw [h name hname]
  exact rel_refl _

theorem refl (ms : Members) : ms.Alike ms := of_find fun _ _ => rfl

theorem rel_of_values (hkeys : keys ms = keys ms')
    (hvalues : List.Forall₂ Json.Alike (ms.map Prod.snd) (ms'.map Prod.snd)) (name : String) :
    Option.Rel Json.Alike (find? ms name) (find? ms' name) := by
  induction ms generalizing ms' with
  | nil =>
    cases ms' with
    | nil => exact .none
    | cons _ _ => cases hkeys
  | cons m ms ih =>
    cases ms' with
    | nil => cases hkeys
    | cons m' ms' =>
      obtain ⟨key, v⟩ := m
      obtain ⟨key', v'⟩ := m'
      obtain ⟨hkey, hrest⟩ := List.cons.inj hkeys
      obtain ⟨hv, hvs⟩ := List.forall₂_cons.1 hvalues
      obtain rfl : key = key' := hkey
      rw [find?, find?]
      split
      · exact .some hv
      · exact ih hrest hvs

theorem of_sameValue (h : Constant.SameValue ms ms') : ms.Alike ms' := by
  refine of_find fun name hname => ?_
  have hlayout : name ∉ Constant.layoutNames := fun hmem =>
    hname (List.mem_append_right _ hmem)
  rw [← Constant.find?_others ms hlayout, ← Constant.find?_others ms' hlayout, h.others]

theorem find?_singleton {name tag : String} (v : Json) (hname : name ∉ ParseTree.hiddenNames)
    (htag : tag ∈ ParseTree.hiddenNames) : find? [(tag, v)] name = none := by
  have hne : tag ≠ name := by
    rintro rfl
    exact hname htag
  rw [find?, if_neg hne, find?]

/-- Two members that are not looked at are alike. -/
theorem of_hidden {tag : String} (v v' : Json) (htag : tag ∈ ParseTree.hiddenNames) :
    Members.Alike [(tag, v)] [(tag, v')] :=
  of_find fun name hname => by rw [find?_singleton v hname htag, find?_singleton v' hname htag]

/-- The members of objects that are alike. -/
theorem of_obj (h : Json.Alike (.obj ms) (.obj ms')) : ms.Alike ms' := by
  cases h with
  | scalar h => cases h
  | obj hkeys hvalues hplain =>
    exact ⟨fun name _ => rel_of_values hkeys hvalues name,
      fun name hname _ => hplain name (List.mem_append_left _ hname)⟩
  | constant _ => exact of_hidden _ _ (by decide)
  | text _ _ => exact of_hidden _ _ (by decide)

theorem get (h : ms.Alike ms') {name : String} (hname : name ∉ ParseTree.hiddenNames) :
    (ms.get name).Alike (ms'.get name) := by
  have hrel := h.find name hname
  unfold Members.get
  generalize find? ms name = v? at hrel ⊢
  generalize find? ms' name = v?' at hrel ⊢
  cases hrel with
  | none => exact .refl _
  | some hv => exact hv

theorem get_eq (h : ms.Alike ms') {name : String} (hplain : name ∈ ParseTree.plainNames)
    (hname : name ∉ ParseTree.hiddenNames) : ms'.get name = ms.get name := by
  rw [Members.get, Members.get, h.plain name hplain hname]

end Members.Alike

/-! ### Nodes -/

namespace Json.Alike

open Read

variable {same : Prop} {j j' : Json}

theorem elements (h : j.Alike j') :
    Read.Agrees same (List.Forall₂ Json.Alike) j.elements j'.elements := by
  cases h with
  | @scalar j _ => exact (j.elements_plain.agrees).imp fun _ _ heq => heq ▸ reflAll _
  | arr hitems => exact .ok hitems
  | @obj ms ms' hkeys _ _ =>
    have hnames : ms'.map (fun m => Json.str m.1) = ms.map fun m => Json.str m.1 := by
      have := congrArg (List.map Json.str) hkeys.symm
      rwa [Members.keys, Members.keys, List.map_map, List.map_map] at this
    refine .ok ?_
    rw [hnames]
    exact reflAll _
  | constant _ => exact .ok (reflAll _)
  | text _ _ => exact .ok (reflAll _)

theorem elementsOrNone (h : j.Alike j') :
    Read.Agrees same (List.Forall₂ Json.Alike) j.elementsOrNone j'.elementsOrNone :=
  .ite (by rw [h.truthy_eq]) h.elements (.ok .nil)

theorem members (h : j.Alike j') : Read.Agrees same Members.Alike j.members j'.members := by
  cases h with
  | @scalar j _ => exact (j.members_plain.agrees).imp fun _ _ heq => heq ▸ .refl _
  | arr _ => exact .error rfl rfl fun _ => rfl
  | obj hkeys hvalues hplain => exact .ok (.of_obj (.obj hkeys hvalues hplain))
  | constant h => exact .ok (.of_obj (.constant h))
  | text h h' => exact .ok (.of_obj (.text h h'))

/-- The bodies behind a kind. -/
theorem bodyOf_obj (h : j.Alike j') (tag : String) :
    Read.Agrees same (fun ms ms' => Json.Alike (.obj ms) (.obj ms')) (Node.bodyOf tag j)
      (Node.bodyOf tag j') := by
  cases h with
  | @scalar j _ => exact (Node.bodyOf_plain tag j).agrees.imp fun _ _ heq => heq ▸ .refl _
  | arr _ => exact .error rfl rfl fun _ => rfl
  | obj hkeys hvalues hplain => exact .ok (.obj hkeys hvalues hplain)
  | constant h => exact .ok (.constant h)
  | text h h' => exact .ok (.text h h')

theorem bodyOf (h : j.Alike j') (tag : String) :
    Read.Agrees same Members.Alike (Node.bodyOf tag j) (Node.bodyOf tag j') :=
  (h.bodyOf_obj tag).imp fun _ _ => .of_obj

end Json.Alike

/-- The text is found in an object that holds it, and nothing else is. -/
theorem Json.Holds.bodyOf {s : String} {held : Json} (tag : String)
    (h : Json.Holds ["sval", "str"] (.str "") (.str s) held) :
    ∃ ms, Node.bodyOf tag held = .ok ms ∧ (∀ name ∉ ParseTree.hiddenNames, Members.find? ms name = none) ∧
      Node.eitherOf ms "sval" "str" = .str s := by
  cases h with
  | written hname =>
    refine ⟨_, rfl, fun name hhidden => ?_, ?_⟩
    · refine Members.Alike.find?_singleton _ hhidden ?_
      rcases List.mem_pair.1 hname with rfl | rfl <;> decide
    · rcases List.mem_pair.1 hname with rfl | rfl <;> rfl
  | empty hzero | absent hzero => exact ⟨[], rfl, fun _ _ => rfl, hzero ▸ rfl⟩

/-- A node of some kind, whatever its body. -/
def Node.IsTagged (j : Json) : Prop := ∃ tag b, j = .obj [(tag, b)]

namespace Json.Alike

open Read

variable {same : Prop} {j j' : Json}

/-- Values that are alike are nodes of the same kind with bodies that are alike, or none of them is
a node. -/
theorem tagged_or (h : j.Alike j') :
    (∃ tag b b', j = .obj [(tag, b)] ∧ j' = .obj [(tag, b')] ∧
      ∀ {same : Prop} (tag' : String),
        Read.Agrees same Members.Alike (Node.bodyOf tag' b) (Node.bodyOf tag' b')) ∨
      ¬ Node.IsTagged j ∧ ¬ Node.IsTagged j' := by
  have hother : ∀ {k : Json}, (∀ ms, k ≠ .obj ms) → ¬ Node.IsTagged k := by
    rintro k hk ⟨tag, b, rfl⟩
    exact hk _ rfl
  cases h with
  | @scalar j hj =>
    refine .inr ⟨hother ?_, hother ?_⟩ <;> rintro ms rfl <;> cases hj
  | arr _ => exact .inr ⟨hother (by simp), hother (by simp)⟩
  | @obj ms ms' hkeys hvalues hplain =>
    match ms, ms', hkeys, hvalues with
    | [], [], _, _ => exact .inr ⟨by rintro ⟨_, _, ⟨⟩⟩, by rintro ⟨_, _, ⟨⟩⟩⟩
    | [(tag, b)], [(tag', b')], hkeys, hvalues =>
      obtain rfl : tag = tag' := (List.cons.inj hkeys).1
      exact .inl ⟨tag, b, b', rfl, rfl, ((List.forall₂_cons.1 hvalues).1).bodyOf⟩
    | _ :: _ :: _, _ :: _ :: _, _, _ => exact .inr ⟨by rintro ⟨_, _, ⟨⟩⟩, by rintro ⟨_, _, ⟨⟩⟩⟩
  | constant h => exact .inl ⟨_, _, _, rfl, rfl, fun _ => .ok (.of_sameValue h)⟩
  | text h h' =>
    refine .inl ⟨_, _, _, rfl, rfl, fun tag => ?_⟩
    obtain ⟨ms, hms, hnone, _⟩ := h.bodyOf tag
    obtain ⟨ms', hms', hnone', _⟩ := h'.bodyOf tag
    rw [hms, hms']
    exact .ok (.of_find fun name hname => by rw [hnone name hname, hnone' name hname])

end Json.Alike

namespace Node

variable {same : Prop} {j j' : Json}

theorem kind_of_not_isTagged (h : ¬ IsTagged j) :
    kind j = malformed ("expected a tagged node, got " ++ j.typeName) := by
  unfold kind
  split
  · exact absurd ⟨_, _, rfl⟩ h
  · rfl

theorem body_of_not_isTagged (h : ¬ IsTagged j) :
    body j = malformed ("expected a tagged node, got " ++ j.typeName) := by
  unfold body
  split
  · exact absurd ⟨_, _, rfl⟩ h
  · rfl

theorem bodyAs_of_not_isTagged (h : ¬ IsTagged j) (tag : String) :
    bodyAs tag j = malformed ("expected a tagged node, got " ++ j.typeName) := by
  unfold bodyAs
  split
  · exact absurd ⟨_, _, rfl⟩ h
  · rfl

theorem isA_of_not_isTagged (h : ¬ IsTagged j) (tag : String) : isA tag j = false := by
  unfold isA
  split
  · exact absurd ⟨_, _, rfl⟩ h
  · rfl

theorem exists_body_of_isA {tag : String} {ms : Members} (h : isA tag (.obj ms) = true) :
    ∃ b, ms = [(tag, b)] := by
  unfold isA at h
  split at h
  · rename_i found b heq
    cases heq
    rw [of_decide_eq_true h]
    exact ⟨b, rfl⟩
  · cases h

theorem kind_eq (h : j.Alike j') : kind j' = kind j := by
  rcases h.tagged_or with ⟨tag, b, b', rfl, rfl, _⟩ | ⟨hj, hj'⟩
  · rfl
  · rw [kind_of_not_isTagged hj, kind_of_not_isTagged hj', h.typeName_eq]

theorem isA_eq (h : j.Alike j') (tag : String) : isA tag j' = isA tag j := by
  rcases h.tagged_or with ⟨tag, b, b', rfl, rfl, _⟩ | ⟨hj, hj'⟩
  · rfl
  · rw [isA_of_not_isTagged hj, isA_of_not_isTagged hj']

theorem body_agrees (h : j.Alike j') : Read.Agrees same Members.Alike (body j) (body j') := by
  rcases h.tagged_or with ⟨tag, b, b', rfl, rfl, hbody⟩ | ⟨hj, hj'⟩
  · exact hbody tag
  · rw [body_of_not_isTagged hj, body_of_not_isTagged hj', h.typeName_eq]
    exact .error rfl rfl fun _ => rfl

theorem bodyAs_agrees (h : j.Alike j') (tag : String) :
    Read.Agrees same Members.Alike (bodyAs tag j) (bodyAs tag j') := by
  rcases h.tagged_or with ⟨found, b, b', rfl, rfl, hbody⟩ | ⟨hj, hj'⟩
  · exact .ite Iff.rfl (hbody tag) (.error rfl rfl fun _ => rfl)
  · rw [bodyAs_of_not_isTagged hj, bodyAs_of_not_isTagged hj', h.typeName_eq]
    exact .error rfl rfl fun _ => rfl

theorem unwrap_agrees (h : j.Alike j') :
    Read.Agrees same (fun a b => b.1 = a.1 ∧ a.2.Alike b.2) (unwrap j) (unwrap j') := by
  refine ((kind_plain j).agrees_of_eq (kind_eq h)).bind fun tag tag' htag => ?_
  exact (body_agrees h).bind fun ms ms' hms => .ok ⟨htag.symm, hms⟩

/-- A required member. Two readings may name different entities if they need not fail in the same
way. -/
theorem require_obj_agrees {ms ms' : Members} (hms : ms.Alike ms') {name : String}
    (hname : name ∉ ParseTree.hiddenNames) {entity entity' : Json}
    (hentity : same → entity = entity') :
    Read.Agrees same Json.Alike (require (.obj ms) name entity) (require (.obj ms') name entity') := by
  have hvalue := hms.get hname
  unfold require
  dsimp only [Json.members, bind, Except.bind]
  generalize ms.get name = v at hvalue
  generalize ms'.get name = v' at hvalue
  refine .ite ?_ (.error rfl rfl fun hsame => by rw [hentity hsame]) (.ok hvalue)
  cases hvalue with
  | scalar _ | obj _ _ _ | constant _ | text _ _ => rfl
  | arr hitems => cases hitems <;> rfl

/-- A required member that is plain. -/
theorem require_obj_agrees_eq {ms ms' : Members} (hms : ms.Alike ms') {name : String}
    (hplain : name ∈ ParseTree.plainNames) (hname : name ∉ ParseTree.hiddenNames)
    {entity entity' : Json} (hentity : same → entity = entity') :
    Read.Agrees same Eq (require (.obj ms) name entity) (require (.obj ms') name entity') := by
  unfold require
  dsimp only [Json.members, bind, Except.bind]
  rw [hms.get_eq hplain hname]
  exact .ite Iff.rfl (.error rfl rfl fun hsame => by rw [hentity hsame]) (.ok rfl)

/-- A plain member that a value has to have. -/
theorem require_agrees_eq (h : j.Alike j') {name : String} (hplain : name ∈ ParseTree.plainNames)
    (hname : name ∉ ParseTree.hiddenNames) {entity entity' : Json}
    (hentity : same → entity = entity') :
    Read.Agrees same Eq (require j name entity) (require j' name entity') :=
  h.members.bind fun _ _ hms => require_obj_agrees_eq hms hplain hname hentity

/-! ### Texts -/

theorem string_of_bodyOf {held : Json} {ms : Members} (h : bodyOf "String" held = .ok ms) :
    string (.obj [("String", held)]) = .ok (eitherOf ms "sval" "str") := by
  show (do return eitherOf (← bodyOf "String" held) "sval" "str" : Read Json) = _
  rw [h]
  rfl

theorem string_of_not_isA {ms : Members} (h : isA "String" (.obj ms) = false) :
    string (.obj ms) = if ms.has "sval" || ms.has "str" then .ok (eitherOf ms "sval" "str")
      else (do malformed ("expected String node, got " ++ (← kind (.obj ms)))) := by
  unfold string
  dsimp only
  rw [if_neg (by simp [h])]
  rfl

/-- **A text is read in the same way in every layout.** -/
theorem string_eq (h : j.Alike j') : string j' = string j := by
  cases h with
  | scalar _ => rfl
  | arr _ => rfl
  | constant _ => rfl
  | text h h' =>
    obtain ⟨ms, hms, _, htext⟩ := h.bodyOf "String"
    obtain ⟨ms', hms', _, htext'⟩ := h'.bodyOf "String"
    rw [string_of_bodyOf hms, string_of_bodyOf hms', htext, htext']
  | @obj ms ms' hkeys hvalues hplain =>
    have halike : Json.Alike (.obj ms) (.obj ms') := .obj hkeys hvalues hplain
    have hisA := isA_eq halike "String"
    cases hstring : isA "String" (.obj ms) with
    | true =>
      obtain ⟨b, rfl⟩ := exists_body_of_isA hstring
      obtain ⟨b', rfl⟩ := exists_body_of_isA (hisA.trans hstring)
      cases hplain "String" (by decide)
      rfl
    | false =>
      rw [string_of_not_isA hstring, string_of_not_isA (hisA.trans hstring), kind_eq halike,
        Members.has, Members.has, eitherOf, ← hplain "sval" (by decide), ← hplain "str" (by decide)]
      rfl

theorem stringsOf_eq {js js' : List Json} (h : List.Forall₂ Json.Alike js js') :
    stringsOf js' = stringsOf js := by
  induction h with
  | nil => rfl
  | cons hj _ ih => rw [stringsOf, stringsOf, isA_eq hj, string_eq hj, ih]

theorem strings_eq (h : j.Alike j') : strings j' = strings j := by
  have hagrees : Read.Agrees True Eq (strings j) (strings j') := by
    refine h.elementsOrNone.bind fun js js' hjs => ?_
    exact (stringsOf_plain js).agrees_of_eq (stringsOf_eq hjs)
  exact hagrees.eq.symm

end Node

namespace Constant

variable {j j' : Json}

/-- **A constant is read in the same way in every layout.** -/
theorem value_eq (h : j.Alike j') (hj : Node.isA "A_Const" j = true) : value j' = value j := by
  cases h with
  | scalar _ => rfl
  | arr _ => rfl
  | text _ _ => cases hj
  | constant h => exact h.ofBody_eq
  | @obj ms ms' hkeys hvalues hplain =>
    have hj' := Node.isA_eq (.obj hkeys hvalues hplain) "A_Const"
    obtain ⟨b, rfl⟩ := Node.exists_body_of_isA hj
    obtain ⟨b', rfl⟩ := Node.exists_body_of_isA (hj'.trans hj)
    cases hplain "A_Const" (by decide)
    rfl

end Constant

namespace TypeName

variable {j j' : Json}

theorem modifier_eq (h : j.Alike j') : modifier j' = modifier j := by
  unfold modifier
  rw [Node.isA_eq h]
  split
  · rename_i hj
    rw [Constant.value_eq h hj]
  · rfl

theorem mapM_modifier_eq {js js' : List Json} (h : List.Forall₂ Json.Alike js js') :
    js'.mapM modifier = js.mapM modifier := by
  induction h with
  | nil => rfl
  | cons hj _ ih => rw [List.mapM_cons, List.mapM_cons, modifier_eq hj, ih]

theorem isArray_eq (h : j.Alike j') : (TypeName.ofJson j').isArray = (TypeName.ofJson j).isArray := by
  cases h with
  | scalar _ | arr _ | constant _ | text _ _ => rfl
  | obj hkeys hvalues hplain =>
    exact ((Members.Alike.of_obj (.obj hkeys hvalues hplain)).get (by decide)).truthy_eq

/-- A type name is read in the same way in every layout. -/
theorem ofJson_eq (h : j.Alike j') : TypeName.ofJson j' = TypeName.ofJson j := by
  have hnames : Read.Agrees True Eq (TypeName.ofJson j).names (TypeName.ofJson j').names :=
    h.members.bind fun ms ms' hms =>
      (Node.strings_plain _).agrees_of_eq (Node.strings_eq (hms.get (by decide)))
  have hmodifiers :
      Read.Agrees True Eq (TypeName.ofJson j).modifiers (TypeName.ofJson j').modifiers :=
    h.members.bind fun ms ms' hms => (hms.get (by decide)).elementsOrNone.bind fun js js' hjs =>
      Read.Fails.agrees_of_eq (Read.fails_mapM modifier_plain js) (mapM_modifier_eq hjs)
  have hdepth : Read.Agrees True Eq (TypeName.ofJson j).depth (TypeName.ofJson j').depth :=
    h.members.bind fun ms ms' hms => (hms.get (by decide)).elementsOrNone.bind fun js js' hjs =>
      .ok hjs.length_eq
  have hisArray := isArray_eq h
  generalize TypeName.ofJson j = t at *
  generalize TypeName.ofJson j' = t' at *
  cases t
  cases t'
  rw [TypeName.mk.injEq]
  exact ⟨hnames.eq.symm, hmodifiers.eq.symm, hdepth.eq.symm, hisArray⟩

end TypeName

end StrictDdl
