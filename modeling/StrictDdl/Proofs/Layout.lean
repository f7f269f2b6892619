import StrictDdl.Proofs.Conversion
import StrictDdl.Proofs.Model.Output

/-! Conversions of one tree in different layouts.

The statements of a tree are wrapped in one of several ways, and the nodes in them are laid out in
one of several ways. Trees that differ in nothing else are alike (`ParseTree.Alike`), and the
conversions cannot tell them apart (`Convert.same_of_alike`). What is known of the models of two
trees is known of their scripts and documents (`Convert.toDdl_agrees`,
`Convert.toDocument_agrees`). -/
namespace StrictDdl

open Read Traced

variable {same : Prop} {Q : Nat → Nat → Prop}

/-! ### Statements -/

namespace ParseTree

/-- The entries that stand for a statement: a raw statement, a wrapper, or the statement itself, if
it looks like neither. -/
inductive Entry : Json → Json → Prop where
  | raw {node : Json} {ms : Members} : Members.find? ms "stmt" = some node →
    Entry node (.obj [("RawStmt", .obj ms)])
  | wrapped {node : Json} {ms : Members} : Members.find? ms "stmt" = some node →
    Entry node (.obj ms)
  | bare {tag : String} {body : Json} : tag ≠ "stmt" → tag ≠ "RawStmt" →
    Entry (.obj [(tag, body)]) (.obj [(tag, body)])

/-- The trees that hold these statements: the parser's own object, which leaves out an empty list,
and a list of entries. -/
inductive Wraps (nodes : List Json) : Json → Prop where
  | output {ms : Members} {entries : List Json} :
    Members.find? ms "stmts" = some (.arr entries) → List.Forall₂ Entry nodes entries →
    Wraps nodes (.obj ms)
  | noOutput {ms : Members} : Members.find? ms "stmts" = none →
    Members.has ms "version" = true → nodes = [] → Wraps nodes (.obj ms)
  | list {entries : List Json} : List.Forall₂ Entry nodes entries → Wraps nodes (.arr entries)

/-- The trees differ in the layout of constants and texts and in how statements are wrapped only. -/
inductive Alike : Json → Json → Prop where
  /-- Whatever wraps the statements, it is the same. -/
  | sameWrapping {t t' : Json} : t.Alike t' → Alike t t'
  | wrapping {nodes nodes' : List Json} {t t' : Json} : Wraps nodes t → Wraps nodes' t' →
    List.Forall₂ Json.Alike nodes nodes' → Alike t t'

/-- What an entry that is no raw statement stands for. -/
def ofEntry (entry : Json) : Read Json := do
  match entry with
  | .obj ms =>
    match Members.find? ms "stmt" with
    | some node => return node
    | none => let _ ← Node.kind entry; return entry
  | entry => let _ ← Node.kind entry; return entry

theorem statement_of_not_raw {entry : Json} (h : Node.isA "RawStmt" entry = false) :
    statement entry = ofEntry entry := by
  unfold statement
  rw [h]
  rfl

theorem statement_raw (held : Json) :
    statement (.obj [("RawStmt", held)]) =
      Node.bodyOf "RawStmt" held >>= fun ms => ofEntry (.obj ms) := by
  show (Node.bodyOf "RawStmt" held).map Json.obj >>= ofEntry = _
  cases Node.bodyOf "RawStmt" held with
  | ok ms => rfl
  | error fault => rfl

theorem ofEntry_of_stmt {ms : Members} {node : Json} (h : Members.find? ms "stmt" = some node) :
    ofEntry (.obj ms) = .ok node := by
  simp only [ofEntry, h]
  rfl

theorem Entry.statement_eq {node entry : Json} (h : Entry node entry) :
    statement entry = .ok node := by
  cases h with
  | raw hstmt =>
    rw [statement_raw]
    exact ofEntry_of_stmt hstmt
  | @wrapped _ ms hstmt =>
    rw [statement_of_not_raw ?_, ofEntry_of_stmt hstmt]
    cases hraw : Node.isA "RawStmt" (.obj ms) with
    | false => rfl
    | true =>
      obtain ⟨b, rfl⟩ := Node.exists_body_of_isA hraw
      cases hstmt
  | @bare tag body hstmt hraw =>
    have hraw' : Node.isA "RawStmt" (.obj [(tag, body)]) = false := decide_eq_false hraw
    rw [statement_of_not_raw hraw', ofEntry, Members.find?, if_neg hstmt]
    rfl

theorem mapM_statement_eq {nodes es : List Json} (h : List.Forall₂ Entry nodes es) :
    es.mapM statement = .ok nodes := by
  induction h with
  | nil => rfl
  | cons hentry _ ih =>
    rw [List.mapM_cons, hentry.statement_eq, ih]
    rfl

theorem Wraps.statements_eq {nodes : List Json} {t : Json} (h : Wraps nodes t) :
    statements t = .ok nodes := by
  cases h with
  | @output ms es hstmts hes =>
    have hentries : entries (.obj ms) = .ok es := by
      simp only [entries, Members.has, Members.get, hstmts]
      cases es <;> rfl
    rw [statements, hentries]
    exact mapM_statement_eq hes
  | @noOutput ms hstmts hversion hnodes =>
    have hentries : entries (.obj ms) = .ok [] := by
      simp only [entries, hversion, Members.get, hstmts, Bool.or_true]
      rfl
    rw [statements, hentries, hnodes]
    rfl
  | list hes => exact mapM_statement_eq hes

theorem ofEntry_agrees {entry entry' : Json} (h : entry.Alike entry') :
    Read.Agrees same Json.Alike (ofEntry entry) (ofEntry entry') := by
  have hself : Read.Agrees same Json.Alike (Node.kind entry >>= fun _ => .ok entry)
      (Node.kind entry' >>= fun _ => .ok entry') :=
    ((Node.kind_plain entry).agrees_of_eq (Node.kind_eq h)).bind_eq fun _ => .ok h
  rcases h.obj_or with ⟨ms, ms', rfl, rfl⟩ | ⟨hentry, hentry'⟩
  · have hstmt := (Members.Alike.of_obj h).find "stmt" (by decide)
    unfold ofEntry
    dsimp only
    generalize Members.find? ms "stmt" = node? at hstmt
    generalize Members.find? ms' "stmt" = node?' at hstmt
    cases hstmt with
    | none => exact hself
    | some hnode => exact .ok hnode
  · have hother : ∀ entry : Json, (∀ ms, entry ≠ .obj ms) →
        ofEntry entry = Node.kind entry >>= fun _ => .ok entry := by
      intro entry hentry
      unfold ofEntry
      split
      · exact absurd rfl (hentry _)
      · rfl
    rw [hother _ hentry, hother _ hentry']
    exact hself

theorem statement_agrees {entry entry' : Json} (h : entry.Alike entry') :
    Read.Agrees same Json.Alike (statement entry) (statement entry') := by
  by_cases hraw : Node.isA "RawStmt" entry = true
  · rcases h.tagged_or with ⟨tag, held, held', rfl, rfl, _⟩ | ⟨hentry, _⟩
    · obtain rfl : tag = "RawStmt" := of_decide_eq_true hraw
      have hheld := (Members.Alike.of_obj h).find "RawStmt" (by decide)
      obtain ⟨hheld⟩ : Option.Rel Json.Alike (some held) (some held') := hheld
      rw [statement_raw, statement_raw]
      exact (hheld.bodyOf_obj "RawStmt").bind fun _ _ hms => ofEntry_agrees hms
    · rw [Node.isA_of_not_isTagged hentry] at hraw
      cases hraw
  · have hraw := eq_false_of_ne_true hraw
    rw [statement_of_not_raw hraw, statement_of_not_raw ((Node.isA_eq h _).trans hraw)]
    exact ofEntry_agrees h

theorem entries_agrees {t t' : Json} (h : t.Alike t') :
    Read.Agrees same (List.Forall₂ Json.Alike) (entries t) (entries t') := by
  rcases h.obj_or with ⟨ms, ms', rfl, rfl⟩ | ⟨ht, _⟩
  · have hms := Members.Alike.of_obj h
    have hstmts : (Members.get ms "stmts").Alike (Members.get ms' "stmts") := hms.get (by decide)
    have hhas : ∀ name ∉ hiddenNames, Members.has ms' name = Members.has ms name := by
      intro name hname
      have hfind := hms.find name hname
      unfold Members.has
      generalize Members.find? ms name = v at hfind
      generalize Members.find? ms' name = v' at hfind
      cases hfind <;> rfl
    simp only [entries]
    refine .ite (by rw [hhas _ (by decide), hhas _ (by decide)]) ?_ (.ok (.cons h .nil))
    refine .ite (by rw [hstmts.truthy_eq]) ?_ (.ok .nil)
    generalize Members.get ms "stmts" = stmts at hstmts
    generalize Members.get ms' "stmts" = stmts' at hstmts
    cases hstmts with
    | arr hitems => exact .ok hitems
    | scalar hj =>
      cases stmts with
      | arr _ => cases hj
      | _ => exact .error rfl rfl fun _ => rfl
    | obj _ _ _ | constant _ | text _ _ => exact .error rfl rfl fun _ => rfl
  · cases h with
    | arr hitems => exact .ok hitems
    | scalar hj =>
      cases t with
      | arr _ | obj _ => cases hj
      | _ => exact .error rfl rfl fun _ => rfl
    | obj _ _ _ | constant _ | text _ _ => exact absurd rfl (ht _)

/-- Trees that are alike hold statements that are alike. -/
theorem statements_agrees {t t' : Json} (h : Alike t t') :
    Read.Agrees same (List.Forall₂ Json.Alike) (statements t) (statements t') := by
  cases h with
  | sameWrapping h =>
    exact (entries_agrees h).bind fun _ _ hentries =>
      Read.agrees_mapM hentries fun _ _ hentry => statement_agrees hentry
  | wrapping h h' hnodes =>
    rw [h.statements_eq, h'.statements_eq]
    exact .ok hnodes

end ParseTree

/-! ### Enumerations -/

theorem EnumType.ofStatement_agrees (enums : EnumRegistry) {position position' : Nat}
    (heq : same → position = position') {statement statement' : Json}
    (h : statement.Alike statement') :
    Read.Agrees same Eq (ofStatement enums position statement)
      (ofStatement enums position' statement') := by
  have hentity : same → Json.str (statementEntity position) = .str (statementEntity position') :=
    fun hsame => by rw [heq hsame]
  refine (Node.body_agrees h).bind fun body body' hbody => ?_
  refine (Node.require_obj_agrees hbody (by decide) hentity).bind fun names names' hnames => ?_
  rw [Node.strings_eq hnames]
  refine (Node.strings_plain names).agrees.bind_eq fun names => ?_
  split
  · exact .error rfl rfl fun hsame => by rw [hentity hsame]
  · refine (Json.key_plain _).agrees.bind_eq fun key => ?_
    refine .ite .rfl (.error rfl rfl fun hsame => by rw [hentity hsame]) ?_
    rw [Node.strings_eq (hbody.get (by decide))]
    exact (Node.strings_plain _).agrees.bind_eq fun _ => (Lenient.toRead_plain _).agrees

theorem EnumRegistry.declaredFrom_agrees (enums : EnumRegistry) (position : Nat)
    {statements statements' : List Json} (h : List.Forall₂ Json.Alike statements statements') :
    Traced.Agrees same Eq (declaredFrom enums position statements)
      (declaredFrom enums position statements') := by
  induction h generalizing enums position with
  | nil => exact agrees_pure rfl
  | cons hstatement _ ih =>
    refine .ite (by rw [Node.isA_eq hstatement]) ?_ (ih _ _)
    exact (agrees_liftM (EnumType.ofStatement_agrees enums (fun _ => rfl) hstatement)).bind_eq
      fun _ => (agrees_record fun _ => ⟨rfl, rfl⟩).bind_eq fun _ => ih _ _

/-! ### Models -/

theorem readStatements_agrees (settings : Settings) (enums : EnumRegistry) {m m' : ModelDraft}
    (hm : m.Alike Eq m') (position : Nat) {statements statements' : List Json}
    (h : List.Forall₂ Json.Alike statements statements') :
    Traced.Agrees same (ModelDraft.Alike Eq) (readStatements settings enums m position statements)
      (readStatements settings enums m' position statements') := by
  induction h generalizing m m' position with
  | nil => exact agrees_pure hm
  | cons hstatement _ ih =>
    exact (readStatement_agrees settings enums hm rfl (fun _ => rfl) hstatement).bind
      fun _ _ hm => ih hm _

/-- The models are alike; their markers are the same where that is asked for. -/
structure Model.AgreesAs (same : Prop) (Q : Nat → Nat → Prop) (m m' : Model) : Prop where
  alike : m.Alike Q m'
  markers : same → m.markers = m'.markers

/-- What is read of the statements is what becomes of the tree. -/
theorem Model.build_agrees {settings : Settings} {t t' : Json} {S : List Json → List Json → Prop}
    (hstatements : Read.Agrees same S (ParseTree.statements t) (ParseTree.statements t'))
    (henums : ∀ ss ss', S ss ss' →
      Traced.Agrees same (fun enums enums' => enums = enums' ∧
        Traced.Agrees same (ModelDraft.Alike Q) (readStatements settings enums {} 0 ss)
          (readStatements settings enums {} 0 ss'))
        (EnumRegistry.declared ss) (EnumRegistry.declared ss')) :
    Traced.Agrees same (Model.AgreesAs same Q) (build settings t) (build settings t') := by
  refine (agrees_liftM hstatements).bind fun ss ss' hss => ?_
  refine (henums ss ss' hss).bind fun enums enums' henums => ?_
  obtain ⟨rfl, hread⟩ := henums
  refine (read_agrees settings enums hread).collecting.bind fun read read' hread => ?_
  obtain ⟨⟨tables, m⟩, markers⟩ := read
  obtain ⟨⟨tables', m'⟩, markers'⟩ := read'
  obtain ⟨⟨htables, hm⟩, hmarkers⟩ := hread
  exact agrees_pure ⟨⟨rfl, htables, hm.indexes, hm.unsupported⟩, hmarkers⟩

/-! ### Conversions -/

/-- The outputs are the same, and so are the markers where that is asked for. -/
structure Converted.AgreesAs {α : Type} (same : Prop) (c c' : Converted α) : Prop where
  output : c.output = c'.output
  markers : same → c.markers = c'.markers

namespace Convert

section Models

variable {settings : Settings} {t t' : Json} (h : Traced.Agrees same (Model.AgreesAs same Q)
  (Model.build settings t) (Model.build settings t'))

include h

theorem model_agrees :
    Traced.Agrees same (Model.AgreesAs same Q) (model settings t) (model settings t') := by
  refine h.bind fun m m' hm => ?_
  have htables := hm.alike.tables.length_eq
  exact (agrees_record fun hsame => ⟨rfl, by rw [htables, hm.markers hsame]⟩).bind_eq
    fun _ => agrees_pure hm

/-- Results of models that are alike, behind the markers of the models. -/
theorem converted_agrees {α : Type} {write : Model → Traced α}
    (hwrite : ∀ m m' : Model, m.Alike Q m' → Traced.Agrees True Eq (write m) (write m')) :
    Traced.Agrees same (Converted.AgreesAs same)
      (do
        let m ← model settings t
        let (output, dropped) ← (write m).collecting
        Converted.announce ⟨output, m.markers ++ dropped⟩)
      (do
        let m ← model settings t'
        let (output, dropped) ← (write m).collecting
        Converted.announce ⟨output, m.markers ++ dropped⟩) := by
  refine (model_agrees h).bind fun m m' hm => ?_
  refine ((hwrite m m' hm.alike).collecting.weaken).bind fun written written' hwritten => ?_
  obtain ⟨output, dropped⟩ := written
  obtain ⟨output', dropped'⟩ := written'
  obtain ⟨houtput, hdropped⟩ := hwritten
  obtain rfl : output = output' := houtput
  obtain rfl : dropped = dropped' := hdropped trivial
  have hmarkers : same → m.markers ++ dropped = m'.markers ++ dropped := fun hsame => by
    rw [hm.markers hsame]
  unfold Converted.announce
  refine (agrees_record fun hsame => ⟨rfl, by rw [hmarkers hsame]⟩).bind_eq fun _ => ?_
  refine (agrees_record fun hsame => ⟨rfl, by rw [hmarkers hsame]⟩).bind_eq fun _ => ?_
  exact agrees_pure ⟨rfl, hmarkers⟩

theorem toDdl_agrees (hQ : ∀ p q p' q', Q p q → Q p' q' → (p ≤ p' ↔ q ≤ q')) :
    Traced.Agrees same (Converted.AgreesAs same) (toDdl settings t) (toDdl settings t') :=
  converted_agrees h fun _ _ hm => Model.script_agrees settings hQ hm

theorem toDocument_agrees :
    Traced.Agrees same (Converted.AgreesAs same) (toDocument settings t) (toDocument settings t') :=
  converted_agrees h fun _ _ hm => Model.document_agrees settings hm

end Models

/-- The models of trees that are alike. -/
theorem build_agrees_of_alike (settings : Settings) {t t' : Json} (h : ParseTree.Alike t t') :
    Traced.Agrees True (Model.AgreesAs True Eq) (Model.build settings t)
      (Model.build settings t') := by
  refine Model.build_agrees (ParseTree.statements_agrees h) fun ss ss' hss => ?_
  refine (EnumRegistry.declaredFrom_agrees [] 0 hss).imp fun enums enums' henums => ⟨henums, ?_⟩
  exact readStatements_agrees settings enums ⟨.nil, .nil, .nil⟩ 0 hss

theorem eq_of_agrees {α : Type} {step step' : Traced (Converted α)}
    (h : Traced.Agrees True (Converted.AgreesAs True) step step') : step = step' := by
  have hsame : ∀ c c' : Converted α, c.AgreesAs True c' → c = c' := by
    rintro ⟨output, markers⟩ ⟨output', markers'⟩ ⟨houtput, hmarkers⟩
    rw [show output = output' from houtput, show markers = markers' from hmarkers trivial]
  have houtcome := (h.outcome.imp hsame).eq
  have hjournal := h.journal trivial
  cases step
  cases step'
  cases houtcome
  cases hjournal
  rfl

/-- **Both conversions do the same with a tree in every layout**: they end with the same result and
the same markers, or fail in the same way, and they tell the journal the same. -/
theorem same_of_alike (settings : Settings) {t t' : Json} (h : ParseTree.Alike t t') :
    toDdl settings t = toDdl settings t' ∧ toDocument settings t = toDocument settings t' := by
  have hmodels := build_agrees_of_alike settings h
  refine ⟨eq_of_agrees (toDdl_agrees hmodels ?_), eq_of_agrees (toDocument_agrees hmodels)⟩
  rintro p q p' q' rfl rfl
  rfl

end Convert

namespace Sample

/-- A table with a default; the name of the type and the default are laid out as asked for. -/
def prices (type zero : Json) : Json :=
  table "price" [.obj [("ColumnDef", .obj [("colname", .str "amount"),
    ("typeName", .obj [("names", .arr [type])]),
    ("constraints", .arr [constraint "CONSTR_DEFAULT" [("raw_expr", zero)]])])]]

/-- The prices as the parser's own object, which leaves out what is zero. -/
def pricesOutput : Json :=
  .obj [("version", .int 150001), ("stmts", .arr [.obj [
    ("stmt", prices (name "int4")
      (.obj [("A_Const", .obj [("ival", .obj []), ("location", .int 60)])])),
    ("stmt_len", .int 62)]])]

/-- The prices as a list of raw statements in the older layout. -/
def pricesRaw : Json :=
  .arr [.obj [("RawStmt", .obj [("stmt", prices (.obj [("String", .obj [("str", .str "int4")])])
    (.obj [("A_Const", .obj [("val", .obj [("Integer", .obj [("ival", .int 0)])]),
      ("location", .int 60)])]))])]]

theorem prices_alike {type type' zero zero' : Json} (htype : type.Alike type')
    (hzero : zero.Alike zero') : (prices type zero).Alike (prices type' zero') := by
  have hconstraint : (constraint "CONSTR_DEFAULT" [("raw_expr", zero)]).Alike
      (constraint "CONSTR_DEFAULT" [("raw_expr", zero')]) := by
    refine .obj rfl (.cons (.obj rfl (.cons (.refl _) (.cons hzero .nil)) ?_) .nil) ?_
    all_goals simp [ParseTree.plainNames, ParseTree.laidOut, Members.find?]
  have hnames : Json.Alike (.obj [("names", .arr [type])]) (.obj [("names", .arr [type'])]) := by
    refine .obj rfl (.cons (.arr (.cons htype .nil)) .nil) ?_
    simp [ParseTree.plainNames, ParseTree.laidOut, Members.find?]
  refine .obj rfl (.cons (.obj rfl (.cons (.refl _) (.cons (.arr (.cons (.obj rfl (.cons (.obj rfl
    (.cons (.refl _) (.cons hnames (.cons (.arr (.cons hconstraint .nil)) .nil))) ?_) .nil) ?_)
    .nil)) .nil)) ?_) .nil) ?_
  all_goals simp [ParseTree.plainNames, ParseTree.laidOut, Members.find?]

end Sample

/-- The parser's own object and a list of raw statements in the older layout are converted in the
same way. -/
theorem Convert.prices_same : (toDdl {} Sample.pricesOutput).outcome.toOption.isSome ∧
    toDdl {} Sample.pricesOutput = toDdl {} Sample.pricesRaw ∧
    toDocument {} Sample.pricesOutput = toDocument {} Sample.pricesRaw := by
  refine ⟨by decide +kernel, same_of_alike {} (.wrapping
    (.output rfl (.cons (.wrapped rfl) .nil)) (.list (.cons (.raw rfl) .nil))
    (.cons (Sample.prices_alike ?_ ?_) .nil))⟩
  · exact .text (.written (by decide)) (.written (by decide))
  · refine .constant ⟨⟨.whole 0, .whole 0, ?_, ?_, rfl⟩, rfl⟩
    · exact .typed (by simp) (.empty rfl)
    · exact .node (.written (by decide))

end StrictDdl
