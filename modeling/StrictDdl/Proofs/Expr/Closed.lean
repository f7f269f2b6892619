import StrictDdl.Proofs.Expr.Fault
import StrictDdl.Proofs.Sqlite.Closing

/-! Expressions whose target text is lexically closed.

Every part of an expression is written as a closed text, and between two parts stands glue that
neither of them sees. There is one exception. A sign is written right before its operand, and an
operand that holds together tightly enough gets no parentheses, so a minus before a minus opens a
comment: before a second minus, before a negative constant, and before a cast of one of them that
is not written. `Expr.doublesMinus` finds these places, and the text of an expression whose
functions and truth tests have plain words for names is closed exactly when there is none
(`Expr.text_closed_iff`). -/
namespace StrictDdl

open Read Sqlite

/-! ### Fixed words -/

namespace Sql

/-- What holds of all values of a table holds of a value that is found. -/
theorem of_lookup {α : Type} {P : α → Prop} {table : List (String × α)} {key : String} {a : α}
    (ha : table.lookup key = some a) (h : ∀ entry ∈ table, P entry.2) : P a := by
  obtain ⟨before, after, rfl, _⟩ := List.lookup_eq_some_iff.1 ha
  exact h (key, a) (by simp)

/-- The text is closed and does not start with a minus. -/
structure IsUnit (s : String) : Prop where
  closed : IsClosed s
  head : s.toList.head? ≠ some '-'

theorem isUnit_ofList {cs : List Char} {last : Char}
    (h : (Zone.code ' ').run 0 cs = some (.code last, 0)) (hhead : cs.head? ≠ some '-') :
    IsUnit (String.ofList cs) where
  closed := isClosed_ofList h
  head := by rwa [String.toList_ofList]

theorem IsUnit.prefixed {s t : String} (hs : Glue s.toList) (ht : IsUnit t) : IsUnit (s ++ t) where
  closed := by
    rw [Sqlite.isClosed_iff, String.toList_append]
    exact hs.closed.append (Sqlite.isClosed_iff.1 ht.closed) (hs.seam_right _)
  head := by
    obtain ⟨b, hb, hharmless⟩ := hs.first
    have hne : b ≠ '-' := by
      rintro rfl
      cases hharmless
    simpa [List.head?_append, hb] using hne

theorem glue_append {s t : String} (hs : Glue s.toList) (ht : Glue t.toList) :
    Glue (s ++ t).toList := by
  rw [String.toList_append]
  exact hs.append ht

set_option maxRecDepth 1024 in
theorem randomUuid_isUnit : IsUnit randomUuid := by
  have hfirst : Glue
      "lower(hex(randomblob(4))) || '-' || lower(hex(randomblob(2))) || '-4' || ".toList :=
    Glue.ofList rfl rfl rfl rfl
  have hsecond : Glue "substr(lower(hex(randomblob(2))), 2) || '-' || ".toList :=
    Glue.ofList rfl rfl rfl rfl
  have hthird : Glue "substr('89ab', abs(random()) % 4 + 1, 1) || ".toList :=
    Glue.ofList rfl rfl rfl rfl
  have hlast : IsUnit
      "substr(lower(hex(randomblob(2))), 2) || '-' || lower(hex(randomblob(6)))" :=
    isUnit_ofList rfl (by decide)
  exact .prefixed (glue_append (glue_append hfirst hsecond) hthird) hlast

theorem computed_isUnit : ∀ entry ∈ computed, IsUnit entry.2 := by
  simp only [computed, List.forall_mem_cons]
  and_intros
  all_goals first | exact isUnit_ofList rfl (by decide) | exact randomUuid_isUnit | simp

theorem operators_closed :
    (∀ entry ∈ respelled, IsClosed entry.2) ∧ ∀ op ∈ shared, IsClosed op := by
  simp only [respelled, shared, List.forall_mem_cons]
  and_intros
  all_goals first | exact isClosed_ofList rfl | simp

theorem renamed_harmless : ∀ entry ∈ renamed, entry.2.toList.all isHarmless := by
  decide +kernel

theorem storage_harmless :
    ∀ entry ∈ TypeSpec.table, entry.2.storage.toList.all isHarmless := by
  decide +kernel

end Sql

theorem LetterCase.toLower_harmless {c : Char} (h : Sql.isWord c ∨ c = '\n') :
    c.toNat < 128 ∧ isHarmless c.toLower := by
  have hascii : c.toNat < 128 := by
    rcases h with h | rfl
    · exact Token.toNat_lt_of_isWord h
    · decide
  have hall : ∀ n < 128, Sql.isWord (.ofNat n) ∨ Char.ofNat n = '\n' →
      isHarmless (Char.ofNat n).toLower := by decide +kernel
  have hc := hall c.toNat hascii
  rw [Char.ofNat_toNat] at hc
  exact ⟨hascii, hc h⟩

theorem LetterCase.lower_harmless {name : String} (h : Sql.isBare name.toList) :
    ∀ c ∈ (lower name).toList, isHarmless c := by
  have hchars := isWord_of_isBare h
  rw [lower, String.toList_ofList,
    Token.lowerFrom_ascii [] _ fun c hc => (toLower_harmless (hchars c hc)).1]
  intro d hd
  obtain ⟨c, hc, rfl⟩ := List.mem_map.1 hd
  exact (toLower_harmless (hchars c hc)).2

/-- The name of a call in the target, if the function has a bare name. -/
theorem Sql.harmless_targetFunction {name : String} (h : isBare name.toList) :
    ∀ c ∈ (targetFunction (LetterCase.lower name)).toList, isHarmless c := by
  unfold targetFunction
  cases hlookup : renamed.lookup (LetterCase.lower name) with
  | none =>
    exact LetterCase.lower_harmless h
  | some target =>
    have htarget : target.toList.all isHarmless = true :=
      of_lookup (P := fun t => t.toList.all isHarmless = true) hlookup renamed_harmless
    exact List.all_eq_true.1 htarget

namespace Expr

/-! ### The places -/

/-- Whether the sign in front of an operand is a minus. -/
def isMinus (symbol : Read (List Json)) : Bool :=
  match symbol with
  | .ok parts =>
    match symbolOf parts with
    | .str "-" => true
    | _ => false
  | .error _ => false

/-- Whether the operand of a sign is written with a minus in front. -/
def startsWithMinus : Expr → Bool
  | .constant _ shown =>
    match shown with
    | .ok value => value.isSigned
    | .error _ => false
  | .operator .plain symbol left _ => left.isAbsent && isMinus symbol
  | .cast type operand =>
    match castTarget type with
    | .ok none => startsWithMinus operand
    | _ => false
  | _ => false

mutual

/-- Whether a minus is written right before a minus. -/
def doublesMinus : Expr → Bool
  | .operator .plain symbol left right =>
    (left.isAbsent && isMinus symbol && startsWithMinus right) ||
      (doublesMinus left || doublesMinus right)
  | .operator _ _ left right => doublesMinus left || doublesMinus right
  | .connective .negation operands =>
    match operands with
    | [] => false
    | e :: _ => doublesMinus e
  | .connective _ operands => anyDoublesMinus operands
  | .nullTest _ operand => doublesMinus operand
  | .truthTest _ operand => doublesMinus operand
  | .call _ star arguments => !star && anyDoublesMinus arguments
  | .cast _ operand => doublesMinus operand
  | .items es => anyDoublesMinus es
  | .array es => anyDoublesMinus es
  | .row es => anyDoublesMinus es
  | .coalesce es => anyDoublesMinus es
  | .extremum _ es => anyDoublesMinus es
  | .choice subject arms otherwise =>
    doublesMinus subject || (anyDoublesMinus arms || doublesMinus otherwise)
  | .arm condition result => doublesMinus condition || doublesMinus result
  | _ => false

def anyDoublesMinus : List Expr → Bool
  | [] => false
  | e :: es => doublesMinus e || anyDoublesMinus es

end

/-- Whether the name of a function needs no quotes, keywords apart. -/
def isNamed (function : Read (List Json)) : Bool :=
  match function with
  | .ok names =>
    match (TypeName.unqualified names).getLast? with
    | some (.str name) => Sql.isBare name.toList
    | _ => true
  | .error _ => true

/-- Whether the code of a test is a word, as those of the parser are. -/
def isCoded : Json → Bool
  | .str code => code.toList.all Sql.isWord
  | _ => true

mutual

/-- Whether all functions have plain identifiers for names, and all tests words for codes. -/
def isWorded : Expr → Bool
  | .call function _ arguments => isNamed function && allWorded arguments
  | .truthTest code operand => isCoded code && isWorded operand
  | .operator _ _ left right => isWorded left && isWorded right
  | .connective _ operands => allWorded operands
  | .nullTest _ operand => isWorded operand
  | .cast _ operand => isWorded operand
  | .items es => allWorded es
  | .array es => allWorded es
  | .row es => allWorded es
  | .coalesce es => allWorded es
  | .extremum _ es => allWorded es
  | .choice subject arms otherwise => isWorded subject && (allWorded arms && isWorded otherwise)
  | .arm condition result => isWorded condition && isWorded result
  | _ => true

def allWorded : List Expr → Bool
  | [] => true
  | e :: es => isWorded e && allWorded es

end

/-! ### Pieces -/

section Texts

variable {p q : Bool} {l r s : String}

theorem scans_suffixed (hl : Scans p l.toList) (hs : Glue s.toList) : Scans p (l ++ s).toList := by
  rw [String.toList_append]
  exact hl.before_glue hs

theorem scans_prefixed (hs : Glue s.toList) (hr : Scans p r.toList) : Scans p (s ++ r).toList := by
  rw [String.toList_append]
  exact .behind_glue hs hr

theorem scans_glued (hl : Scans p l.toList) (hs : Glue s.toList) (hr : Scans q r.toList) :
    Scans (p || q) (l ++ s ++ r).toList := by
  rw [String.toList_append, String.toList_append, List.append_assoc]
  exact hl.glued hs hr

theorem scans_spaced (hl : Scans p l.toList) (hs : Closed s.toList) (hr : Scans q r.toList) :
    Scans (p || q) (l ++ " " ++ s ++ " " ++ r).toList := by
  have htext : (l ++ " " ++ s ++ " " ++ r).toList =
      l.toList ++ ((' ' :: (s.toList ++ [' '])) ++ r.toList) := by simp
  rw [htext]
  exact hl.glued (.spaced hs) hr

theorem scans_parens (hl : Scans p l.toList) : Scans p ("(" ++ l ++ ")").toList := by
  rw [toList_parens]
  exact hl.parens

theorem scans_call (hs : Closed s.toList) (hl : Scans p l.toList) :
    Scans p (s ++ "(" ++ l ++ ")").toList := by
  have htext : (s ++ "(" ++ l ++ ")").toList = s.toList ++ '(' :: (l.toList ++ [')']) := by simp
  rw [htext]
  exact hl.call hs

/-- An operator before a list in parentheses. -/
theorem scans_listed (hl : Scans p l.toList) (hs : Closed s.toList) (hr : Scans q r.toList) :
    Scans (p || q) (l ++ " " ++ s ++ " (" ++ r ++ ")").toList := by
  have htext : (l ++ " " ++ s ++ " (" ++ r ++ ")").toList =
      l.toList ++ ((' ' :: (s.toList ++ [' '])) ++ ('(' :: (r.toList ++ [')']))) := by simp
  rw [htext]
  exact hl.glued (.spaced hs) hr.parens

theorem closed_of_harmless (h : s.toList.all isHarmless) : Closed s.toList :=
  .of_harmless (List.all_eq_true.1 h)

theorem glue_of_harmless (hne : s.toList ≠ []) (h : s.toList.all isHarmless) : Glue s.toList :=
  .of_harmless hne (List.all_eq_true.1 h)

end Texts

/-- The text of the expression is closed unless a minus is doubled in it, and as the operand of a
sign it starts with a minus where `startsWithMinus` says so. -/
structure Lexed (e : Expr) (r : Rendered) : Prop where
  scans : Scans e.doublesMinus r.text.toList
  minus : (r.operand .sign false).toList.head? = some '-' ↔ e.startsWithMinus

namespace Lexed

variable {e e' : Expr} {r r' : Rendered} {text : String} {p : Bool}

theorem of_loose {binding : Binding} (h : Scans e.doublesMinus text.toList)
    (hbinding : binding.rank < Binding.sign.rank) (hminus : e.startsWithMinus = false) :
    Lexed e ⟨text, binding⟩ where
  scans := h
  minus := by
    have hloose : Rendered.isLoose ⟨text, binding⟩ .sign false = true := by
      simp [Rendered.isLoose, hbinding]
    rw [Rendered.operand, if_pos hloose, toList_parens, hminus]
    simp

theorem of_atom (h : Scans e.doublesMinus text.toList)
    (hminus : text.toList.head? = some '-' ↔ e.startsWithMinus) : Lexed e (.atom text) where
  scans := h
  minus := by simpa [Rendered.operand, Rendered.atom, Rendered.isLoose, Binding.rank] using hminus

/-- A call of a function with a harmless name. -/
theorem of_call {name : String} (hname : ∀ c ∈ name.toList, isHarmless c)
    (h : Scans e.doublesMinus text.toList) (hminus : e.startsWithMinus = false) :
    Lexed e (.atom (name ++ "(" ++ text ++ ")")) := by
  refine .of_atom (scans_call (.of_harmless hname) h) ?_
  rw [hminus]
  cases hcs : name.toList with
  | nil => simp [hcs]
  | cons c cs =>
    have hc := hname c (by rw [hcs]; exact List.mem_cons_self ..)
    have hne : c ≠ '-' := by
      rintro rfl
      cases hc
    simp [hcs, hne]

theorem operand (h : Lexed e r) (place : Binding) (onRight : Bool) :
    Scans e.doublesMinus (r.operand place onRight).toList := by
  unfold Rendered.operand
  split
  · rw [toList_parens]
    exact h.scans.parens
  · exact h.scans

end Lexed

/-! ### Texts of several pieces -/

/-- Texts that are closed one by one, or one of which is broken. -/
def Pieces (broken : Bool) (texts : List String) : Prop :=
  ∃ ps, List.Forall₂ Scans ps (texts.map String.toList) ∧ ps.any id = broken

namespace Pieces

variable {p q : Bool} {us vs : List String}

theorem nil : Pieces false [] := ⟨[], .nil, rfl⟩

theorem single {text : String} (h : Scans p text.toList) : Pieces p [text] :=
  ⟨[p], .cons h .nil, by simp⟩

theorem append (hu : Pieces p us) (hv : Pieces q vs) : Pieces (p || q) (us ++ vs) := by
  obtain ⟨ps, hps, rfl⟩ := hu
  obtain ⟨qs, hqs, rfl⟩ := hv
  refine ⟨ps ++ qs, ?_, List.any_append⟩
  rw [List.map_append]
  exact List.rel_append hps hqs

theorem of_all {es : List Expr}
    (h : List.Forall₂ (fun e text => Scans e.doublesMinus text.toList) es us) :
    Pieces (anyDoublesMinus es) us := by
  induction h with
  | nil => exact nil
  | cons he _ ih => exact (single he).append ih

theorem intercalate {s : String} (hs : Glue s.toList) (h : Pieces p us) :
    Scans p (String.intercalate s us).toList := by
  obtain ⟨ps, hps, rfl⟩ := h
  rw [String.toList_intercalate]
  exact Scans.intercalate hs hps

end Pieces

theorem scans_joinTexts {es : List Expr} {rs : List Rendered} (h : List.Forall₂ Lexed es rs) :
    Scans (anyDoublesMinus es) (joinTexts rs).toList := by
  refine Pieces.intercalate (glue_of_harmless (by simp) rfl) (.of_all ?_)
  exact List.forall₂_map_right_iff.2 (h.imp fun _ _ hlexed => hlexed.scans)

theorem scans_junction {word : String} (hword : Glue word.toList) (binding : Binding)
    {es : List Expr} {rs : List Rendered} (h : List.Forall₂ Lexed es rs) :
    Scans (anyDoublesMinus es)
      (String.intercalate word (rs.map fun r => r.operand binding false)).toList := by
  refine Pieces.intercalate hword (.of_all ?_)
  exact List.forall₂_map_right_iff.2 (h.imp fun _ _ hlexed => hlexed.operand binding false)

/-! ### The writer -/

theorem rank_ofOperator (op : String) : (Binding.ofOperator op).rank < Binding.sign.rank := by
  unfold Binding.ofOperator
  split_ifs <;> decide

theorem rank_of_bindingOf {op : Json} {binding : Binding} (h : bindingOf op = .ok binding) :
    binding.rank < Binding.sign.rank := by
  obtain ⟨key, _, h⟩ := bind_eq_ok_iff.1 h
  cases key with
  | str op =>
    cases h
    exact rank_ofOperator op
  | _ =>
    cases h
    decide

theorem targetOperator_spec {op : Json} {binding binding' : Binding} {spelling : String}
    (hbinding : binding.rank < Binding.sign.rank)
    (h : targetOperator op binding = .ok (spelling, binding')) :
    Closed spelling.toList ∧ binding'.rank < Binding.sign.rank := by
  unfold targetOperator at h
  cases op with
  | str op =>
    simp only at h
    split at h
    · rename_i hlookup
      cases h
      exact ⟨isClosed_iff.1 (Sql.of_lookup hlookup Sql.operators_closed.1), by decide⟩
    · split at h
      · rename_i hshared
        cases h
        exact ⟨isClosed_iff.1 (Sql.operators_closed.2 _ (by simpa using hshared)), hbinding⟩
      · cases h
  | _ => cases h

/-- A computed text as an expression. -/
theorem lexed_computed {e : Expr} {name text : String} (h : Sql.computed? name = some text)
    (hdoubles : e.doublesMinus = false) (hminus : e.startsWithMinus = false) :
    Lexed e (.atom text) := by
  obtain ⟨hclosed, hhead⟩ : Sql.IsUnit text := Sql.of_lookup h Sql.computed_isUnit
  refine .of_atom ?_ (by simp [hhead, hminus])
  rw [hdoubles]
  exact isClosed_iff.1 hclosed

theorem lexed_valueFunction {code : Json} {r : Rendered}
    (hr : renderValueFunction .sqlite code = .ok r) : Lexed (.valueFunction code) r := by
  obtain ⟨key, _, hr⟩ := bind_eq_ok_iff.1 hr
  split at hr
  · cases hr
  · simp only at hr
    split at hr
    · rename_i text htext
      cases hr
      exact lexed_computed htext rfl rfl
    · cases hr

theorem lexed_call {function : Read (List Json)} {names : List Json} {star plain : Bool}
    {arguments : List Expr} {text : String} {r : Rendered} (hfunction : function = .ok names)
    (hnamed : isNamed function) (hplain : plain → arguments = [])
    (htext : Scans (!star && anyDoublesMinus arguments) text.toList)
    (hr : renderCall .sqlite names plain text = .ok r) :
    Lexed (.call function star arguments) r := by
  subst hfunction
  unfold renderCall at hr
  simp only at hr
  split at hr
  · cases hr
  · rename_i j hj
    obtain ⟨name, hname, hwritten⟩ := bind_eq_ok_iff.1 hr
    obtain rfl : j = .str name := by
      cases j with
      | str s =>
        cases hname
        rfl
      | _ => cases hname
    have hbare : Sql.isBare name.toList := by simpa [isNamed, hj] using hnamed
    split at hwritten
    · rename_i computed hcomputed
      obtain rfl := Except.ok.inj hwritten
      refine lexed_computed hcomputed ?_ rfl
      rw [doublesMinus, hplain rfl, anyDoublesMinus, Bool.and_false]
    · obtain rfl := Except.ok.inj hwritten
      exact .of_call (Sql.harmless_targetFunction hbare) htext rfl

/-- An operator between two operands. -/
theorem Lexed.between {e e' whole : Expr} {l r : Rendered} {op : String} {binding : Binding}
    (hl : Lexed e l) (hr : Lexed e' r) (hop : Closed op.toList)
    (hbinding : binding.rank < Binding.sign.rank)
    (hdoubles : whole.doublesMinus = (e.doublesMinus || e'.doublesMinus))
    (hminus : whole.startsWithMinus = false) : Lexed whole (l.between op r binding) := by
  refine .of_loose ?_ hbinding hminus
  rw [hdoubles]
  exact scans_spaced (hl.operand _ _) hop (hr.operand _ _)

/-- A sign before its operand. -/
theorem Lexed.signed {symbol : Read (List Json)} {left right : Expr} {r : Rendered} {sign : Char}
    (hr : Lexed right r) (hsign : sign = '-' ∨ sign = '+')
    (hminus : (left.isAbsent && isMinus symbol) = decide (sign = '-'))
    (hleft : left.doublesMinus = false) :
    Lexed (.operator .plain symbol left right)
      ⟨String.singleton sign ++ r.operand .sign false, .sign⟩ := by
  have htext : (String.singleton sign ++ r.operand .sign false).toList =
      sign :: (r.operand .sign false).toList := by simp
  have hoperand := hr.operand .sign false
  have hstart : decide ((r.operand .sign false).toList.head? = some '-') = right.startsWithMinus := by
    rw [Bool.eq_iff_iff, decide_eq_true_eq]
    exact hr.minus
  constructor
  · rw [doublesMinus, hminus, hleft, Bool.false_or, htext]
    rcases hsign with rfl | rfl
    · have hscans := hoperand.minus
      rwa [hstart] at hscans
    · exact hoperand.plus
  · show (String.singleton sign ++ r.operand .sign false).toList.head? = _ ↔ _
    rw [htext, startsWithMinus, hminus]
    simp

theorem exists_toList_intercalate (s t : String) (ts : List String) :
    ∃ rest, (String.intercalate s (t :: ts)).toList = t.toList ++ rest := by
  rw [String.toList_intercalate]
  cases ts with
  | nil => exact ⟨[], by simp⟩
  | cons t' ts => exact ⟨_, by rw [List.map_cons, List.map_cons, List.intercalate_cons_cons,
      List.append_assoc]⟩

theorem head_identifier (name : String) :
    ∃ c rest, (Sql.identifier name).toList = c :: rest ∧ c ≠ '-' := by
  unfold Sql.identifier
  split
  · exact ⟨'"', _, by rw [Sql.enclosed, String.toList_ofList]; rfl, by decide⟩
  · rename_i hbare
    simp only [Sql.needsQuoting, Bool.or_eq_true, Bool.not_eq_true', not_or,
      Bool.not_eq_false] at hbare
    have hstart := hbare.2
    unfold Sql.isBare at hstart
    split at hstart
    · cases hstart
    · rename_i c rest hname
      refine ⟨c, rest, hname, ?_⟩
      rintro rfl
      cases hstart

theorem lexed_column (path : Read (List Json)) (names : List String) :
    Lexed (.column path) (.atom (String.intercalate "." (names.map Sql.identifier))) := by
  refine .of_atom ?_ ?_
  · refine Pieces.intercalate (glue_of_harmless (by simp) rfl) ?_
    induction names with
    | nil => exact .nil
    | cons name names ih => exact (Pieces.single (p := false) (closed_identifier name)).append ih
  · cases names with
    | nil => simp [startsWithMinus]
    | cons name names =>
      obtain ⟨rest, hrest⟩ := exists_toList_intercalate "." (Sql.identifier name)
        (names.map Sql.identifier)
      obtain ⟨c, more, hc, hne⟩ := head_identifier name
      rw [List.map_cons, hrest, hc]
      simp [startsWithMinus, hne]

theorem castTarget_spec {type : TypeName} {spec : TypeSpec} {name : String}
    (h : castTarget type = .ok (some (spec, name))) : TypeSpec.find? name = some spec := by
  obtain ⟨names, _, h⟩ := bind_eq_ok_iff.1 h
  split at h
  · cases h
  · obtain ⟨text, _, h⟩ := bind_eq_ok_iff.1 h
    split at h
    · cases h
    · have hfound : (TypeSpec.find? (LetterCase.lower text)).map
          (fun spec => (spec, LetterCase.lower text)) = some (spec, name) := Except.ok.inj h
      obtain ⟨found, hfind, hsame⟩ := Option.map_eq_some_iff.1 hfound
      cases hsame
      exact hfind

theorem lexed_cast {type : TypeName} {spec : TypeSpec} {name : String} {operand : Expr}
    {r : Rendered} (htarget : castTarget type = .ok (some (spec, name))) (hr : Lexed operand r) :
    Lexed (.cast type operand) (.atom ("CAST(" ++ r.text ++ " AS " ++ spec.storage ++ ")")) := by
  have hstorage : spec.storage.toList.all isHarmless = true :=
    Sql.of_lookup (P := fun s => s.storage.toList.all isHarmless = true) (castTarget_spec htarget)
      Sql.storage_harmless
  have hglue : Glue (" AS " ++ spec.storage).toList := by
    refine glue_of_harmless (by simp) ?_
    rw [String.toList_append, List.all_append, hstorage]
    rfl
  have htext : "CAST(" ++ r.text ++ " AS " ++ spec.storage ++ ")" =
      "CAST" ++ "(" ++ (r.text ++ (" AS " ++ spec.storage)) ++ ")" := by
    rw [← String.toList_inj]
    simp
  rw [htext]
  refine .of_call (List.all_eq_true.1 rfl) (scans_suffixed hr.scans hglue) ?_
  simp [startsWithMinus, htarget]

/-- The truth value that a text constant is cast to. -/
theorem lexed_truthCast {type : TypeName} {spec : TypeSpec} {name text : String} {operand : Expr}
    (htarget : castTarget type = .ok (some (spec, name)))
    (h : truthCast? name operand = .ok (some text)) : Lexed (.cast type operand) (.atom text) := by
  unfold truthCast? at h
  split at h
  · obtain ⟨constant?, hconstant, h⟩ := bind_eq_ok_iff.1 h
    obtain ⟨_, _, hvalue⟩ := bind_eq_ok_iff.1 hconstant
    cases operand with
    | constant value shown =>
      cases constant? with
      | none => cases h
      | some s =>
        cases h
        have hminus : startsWithMinus (.cast type (.constant value shown)) = false := by
          simp [startsWithMinus, htarget]
        unfold truthText
        split
        · exact .of_atom (closed_of_harmless rfl) (by rw [hminus]; decide)
        · exact .of_atom (closed_of_harmless rfl) (by rw [hminus]; decide)
    | _ =>
      cases hvalue
      cases h
  · cases h

theorem doublesMinus_of_not_isGiven {e : Expr} (h : e.isGiven = false) : e.doublesMinus = false := by
  cases e with
  | stray _ => rfl
  | items es =>
    cases es with
    | nil => rfl
    | cons e es => cases h
  | _ => cases h

theorem quantifiedMembership?_closed {all : Bool} {op : Json} {word : String}
    (h : op.key.map (quantifiedMembership? all) = .ok (some word)) : Closed word.toList := by
  obtain ⟨key, _, h⟩ := map_eq_ok_iff.1 h
  unfold quantifiedMembership? at h
  split at h <;> cases h <;> exact closed_of_harmless rfl

theorem glue_truthTestWords {code : Json} {words : String} (hcode : isCoded code)
    (h : truthTestWords code = .ok words) : Glue (" " ++ words).toList := by
  obtain ⟨s, hs, hwords⟩ := bind_eq_ok_iff.1 h
  cases code with
  | str s' =>
    cases hs
    cases hwords
    have hs : s.toList.all Sql.isWord = true := hcode
    refine .of_harmless (by simp) fun c hc => ?_
    rw [String.toList_append, List.mem_append] at hc
    rcases hc with hc | hc
    · rw [List.mem_singleton.1 hc]
      rfl
    · rw [String.toList_ofList] at hc
      obtain ⟨d, hd, rfl⟩ := List.mem_map.1 hc
      split
      · rfl
      · exact isHarmless_of_isWord (List.all_eq_true.1 hs d hd)
  | _ => cases hs

/-- The texts that an optional part brings into a choice. -/
inductive Offers (d : Dialect) (e : Expr) (write : Rendered → String) : List String → Prop where
  | given {r : Rendered} : e.isGiven → render d e = .ok r → Offers d e write [write r]
  | absent : e.isGiven = false → Offers d e write []

theorem offers_of_optional {d : Dialect} {e : Expr} {write : Rendered → String}
    {next : List String → Read Rendered} {r : Rendered}
    (h : (if e.isGiven then (render d e).map (fun r => [write r]) >>= next
      else pure [] >>= next) = .ok r) :
    ∃ texts, Offers d e write texts ∧ next texts = .ok r := by
  split at h
  · rename_i hgiven
    obtain ⟨texts, htexts, h⟩ := bind_eq_ok_iff.1 h
    obtain ⟨r', hr', rfl⟩ := map_eq_ok_iff.1 htexts
    exact ⟨_, .given hgiven hr', h⟩
  · rename_i habsent
    exact ⟨[], .absent (Bool.eq_false_iff.2 habsent), h⟩

theorem render_choice_eq_ok {d : Dialect} {subject otherwise : Expr} {arms : List Expr}
    {r : Rendered} (h : render d (.choice subject arms otherwise) = .ok r) :
    ∃ head middle last, Offers d subject Rendered.text head ∧ renderArms d arms = .ok middle ∧
      Offers d otherwise (fun r => "ELSE " ++ r.text) last ∧
      r = .atom (String.intercalate " " ("CASE" :: head ++ middle ++ last ++ ["END"])) := by
  rw [render] at h
  obtain ⟨head, hhead, h⟩ := offers_of_optional h
  obtain ⟨middle, hmiddle, h⟩ := bind_eq_ok_iff.1 h
  obtain ⟨last, hlast, h⟩ := offers_of_optional h
  cases h
  exact ⟨head, middle, last, hhead, hmiddle, hlast, rfl⟩

/-! ### One construct

Each construct is written as it should be if its parts are. -/

/-- Whatever the writer makes of the expression is closed where it should be. -/
def Writes (e : Expr) : Prop := ∀ {r}, render .sqlite e = .ok r → Lexed e r

def WritesAll (es : List Expr) : Prop :=
  ∀ {rs}, renderAll .sqlite es = .ok rs → List.Forall₂ Lexed es rs

def WritesElements (e : Expr) : Prop :=
  ∀ {rs}, renderElements .sqlite e = .ok rs →
    ∃ es, List.Forall₂ Lexed es rs ∧ e.doublesMinus = anyDoublesMinus es

def WritesArms (es : List Expr) : Prop :=
  ∀ {texts}, renderArms .sqlite es = .ok texts →
    List.Forall₂ (fun e text => Scans e.doublesMinus text.toList) es texts

section Operators

variable {symbol : Read (List Json)} {left right : Expr}

theorem writes_plain (hleft : Writes left) (hright : Writes right) :
    Writes (.operator .plain symbol left right) := by
  intro r hr
  rw [render] at hr
  obtain ⟨parts, rfl, hparts⟩ := bind_eq_ok_iff.1 hr
  by_cases habsent : left.isAbsent
  · simp only [habsent, if_true] at hparts
    have hnone : left.doublesMinus = false := by
      unfold isAbsent at habsent
      split at habsent
      · rfl
      · cases habsent
    split at hparts
    · rename_i hsymbol
      obtain ⟨operand, hoperand, hsigned⟩ := bind_eq_ok_iff.1 hparts
      cases hsigned
      refine (hright hoperand).signed (.inl rfl) ?_ hnone
      simp [isMinus, hsymbol, habsent]
    · rename_i hsymbol
      obtain ⟨operand, hoperand, hsigned⟩ := bind_eq_ok_iff.1 hparts
      cases hsigned
      refine (hright hoperand).signed (.inr rfl) ?_ hnone
      simp [isMinus, hsymbol]
    · cases hparts
  · rw [if_neg habsent] at hparts
    obtain ⟨binding, hbinding, hparts⟩ := bind_eq_ok_iff.1 hparts
    obtain ⟨⟨spelling, binding'⟩, htarget, hparts⟩ := bind_eq_ok_iff.1 hparts
    obtain ⟨l, hl, hparts⟩ := bind_eq_ok_iff.1 hparts
    obtain ⟨r', hr', hparts⟩ := bind_eq_ok_iff.1 hparts
    cases hparts
    obtain ⟨hop, hrank⟩ := targetOperator_spec (rank_of_bindingOf hbinding) htarget
    exact (hleft hl).between (hright hr') hop hrank (by simp [doublesMinus, habsent])
      (by simp [startsWithMinus, habsent])

theorem writes_like {insensitive : Bool} (hleft : Writes left) (hright : Writes right) :
    Writes (.operator (.like insensitive) symbol left right) := by
  intro r hr
  obtain ⟨parts, _, hr⟩ := bind_eq_ok_iff.1 hr
  obtain ⟨negated, _, hr⟩ := bind_eq_ok_iff.1 hr
  obtain ⟨l, hl, hr⟩ := bind_eq_ok_iff.1 hr
  obtain ⟨r', hr', hr⟩ := bind_eq_ok_iff.1 hr
  cases hr
  refine (hleft hl).between (hright hr') ?_ (by decide) rfl rfl
  cases insensitive <;> cases negated <;> exact closed_of_harmless rfl

theorem writes_distinct {negated : Bool} (hleft : Writes left) (hright : Writes right) :
    Writes (.operator (.distinct negated) symbol left right) := by
  intro r hr
  obtain ⟨l, hl, hr⟩ := bind_eq_ok_iff.1 hr
  obtain ⟨r', hr', hr⟩ := bind_eq_ok_iff.1 hr
  cases hr
  refine (hleft hl).between (hright hr') ?_ (by decide) rfl rfl
  cases negated <;> exact closed_of_harmless rfl

/-- An operand and a list behind it. -/
theorem Lexed.listed {form : OperatorForm} {l : Rendered} {rs : List Rendered} {word : String}
    {es : List Expr} (hform : form ≠ .plain) (hl : Lexed left l) (hword : Closed word.toList)
    (hes : List.Forall₂ Lexed es rs) (hany : right.doublesMinus = anyDoublesMinus es) :
    Lexed (.operator form symbol left right)
      ⟨l.operand .matching false ++ " " ++ word ++ " (" ++ joinTexts rs ++ ")", .matching⟩ := by
  refine .of_loose ?_ (by decide) ?_
  · rw [doublesMinus, hany]
    · exact scans_listed (hl.operand _ _) hword (scans_joinTexts hes)
    · exact hform
  · unfold startsWithMinus
    split
    · rename_i heq
      cases heq
    · rename_i heq
      cases heq
      exact absurd rfl hform
    · rename_i heq
      cases heq
    · rfl

theorem writes_membership (hleft : Writes left) (hright : WritesElements right) :
    Writes (.operator .membership symbol left right) := by
  intro r hr
  obtain ⟨parts, _, hr⟩ := bind_eq_ok_iff.1 hr
  obtain ⟨l, hl, hr⟩ := bind_eq_ok_iff.1 hr
  obtain ⟨rs, hrs, hr⟩ := bind_eq_ok_iff.1 hr
  cases hr
  obtain ⟨es, hes, hany⟩ := hright hrs
  have hword : ∀ negated, Closed (negatedWord negated "IN").toList := fun negated => by
    cases negated <;> exact closed_of_harmless rfl
  exact (hleft hl).listed (by simp) (hword _) hes hany

theorem writes_quantified {all : Bool} (hleft : Writes left) (hright : WritesElements right) :
    Writes (.operator (.quantified all) symbol left right) := by
  intro r hr
  rw [render] at hr
  obtain ⟨parts, _, hparts⟩ := bind_eq_ok_iff.1 hr
  obtain ⟨word?, hword, hwritten⟩ := bind_eq_ok_iff.1 hparts
  split at hwritten
  · obtain ⟨l, hl, hwritten⟩ := bind_eq_ok_iff.1 hwritten
    obtain ⟨rs, hrs, hwritten⟩ := bind_eq_ok_iff.1 hwritten
    cases hwritten
    obtain ⟨es, hes, hany⟩ := hright hrs
    exact (hleft hl).listed (by simp) (quantifiedMembership?_closed hword) hes hany
  · obtain ⟨_, _, hrefused⟩ := bind_eq_ok_iff.1 hwritten
    cases hrefused
  · cases hwritten

theorem writes_between {negated symmetric : Bool} (hleft : Writes left)
    (hright : WritesElements right) :
    Writes (.operator (.between negated symmetric) symbol left right) := by
  intro r hr
  rw [render] at hr
  split at hr
  · cases hr
  · obtain ⟨bounds, _, hr⟩ := bind_eq_ok_iff.1 hr
    obtain ⟨number, _, hr⟩ := bind_eq_ok_iff.1 hr
    split at hr
    · cases hr
    · obtain ⟨l, hl, hr⟩ := bind_eq_ok_iff.1 hr
      obtain ⟨_, _, hr⟩ := bind_eq_ok_iff.1 hr
      obtain ⟨rs, hrs, hr⟩ := bind_eq_ok_iff.1 hr
      obtain ⟨es, hes, hany⟩ := hright hrs
      split at hr
      · rename_i low high
        cases hr
        obtain ⟨e₁, _, hlow, hrest, rfl⟩ := List.forall₂_cons_right_iff.1 hes
        obtain ⟨e₂, _, hhigh, hnone, rfl⟩ := List.forall₂_cons_right_iff.1 hrest
        obtain rfl := List.forall₂_nil_right_iff.1 hnone
        have hword : Closed (betweenWord negated symmetric).toList := by
          cases negated <;> cases symmetric <;> exact closed_of_harmless rfl
        have hand : Glue " AND ".toList := glue_of_harmless (by simp) rfl
        have hfirst := scans_spaced ((hleft hl).operand .matching false) hword
          (hlow.operand .userOperator false)
        have hboth := scans_glued hfirst hand (hhigh.operand .userOperator false)
        refine .of_loose ?_ (by decide) rfl
        show Scans (left.doublesMinus || right.doublesMinus) _
        simp only [hany, anyDoublesMinus, Bool.or_false, ← Bool.or_assoc]
        exact hboth
      · cases hr

theorem writes_nullIf (hleft : Writes left) (hright : Writes right) :
    Writes (.operator .nullIf symbol left right) := by
  intro r hr
  obtain ⟨l, hl, hr⟩ := bind_eq_ok_iff.1 hr
  obtain ⟨r', hr', hr⟩ := bind_eq_ok_iff.1 hr
  cases hr
  have hboth := scans_joinTexts (.cons (hleft hl) (.cons (hright hr') .nil))
  simp only [anyDoublesMinus, Bool.or_false] at hboth
  exact .of_call (List.all_eq_true.1 rfl) hboth rfl

theorem writes_operator (form : OperatorForm) (hleft : Writes left) (hright : Writes right)
    (helements : WritesElements right) : Writes (.operator form symbol left right) := by
  cases form with
  | plain => exact writes_plain hleft hright
  | like _ => exact writes_like hleft hright
  | membership => exact writes_membership hleft helements
  | between _ _ => exact writes_between hleft helements
  | quantified _ => exact writes_quantified hleft helements
  | distinct _ => exact writes_distinct hleft hright
  | nullIf => exact writes_nullIf hleft hright
  | similar | other _ =>
    intro r hr
    cases hr

end Operators

theorem writes_connective (op : Connective) {operands : List Expr} (h : WritesAll operands)
    (hfirst : ∀ e ∈ operands.head?, Writes e) : Writes (.connective op operands) := by
  intro r hr
  cases op with
  | negation =>
    cases operands with
    | nil => cases hr
    | cons e es =>
      by_cases hname : ∃ name, e = .memberName name
      · obtain ⟨name, rfl⟩ := hname
        cases hr
      · rw [render] at hr
        · obtain ⟨r', hr', hr⟩ := bind_eq_ok_iff.1 hr
          cases hr
          refine .of_loose ?_ (by decide) rfl
          rw [doublesMinus]
          exact scans_prefixed (glue_of_harmless (by simp) rfl) ((hfirst e rfl hr').operand _ _)
        · exact fun name he => hname ⟨name, he⟩
  | conjunction | disjunction | unstated | other =>
    obtain ⟨rs, hrs, hr⟩ := bind_eq_ok_iff.1 hr
    cases hr
    refine .of_loose ?_ (by decide) rfl
    rw [doublesMinus]
    · exact scans_junction (glue_of_harmless (by simp) rfl) _ (h hrs)
    · simp

theorem writes_nullTest (negated : Bool) {operand : Expr} (h : Writes operand) :
    Writes (.nullTest negated operand) := by
  intro r hr
  obtain ⟨r', hr', hr⟩ := bind_eq_ok_iff.1 hr
  cases hr
  refine .of_loose ?_ (by decide) rfl
  rw [doublesMinus]
  refine scans_suffixed ((h hr').operand _ _) ?_
  cases negated <;> exact glue_of_harmless (by simp) rfl

theorem writes_truthTest {code : Json} {operand : Expr} (hcode : isCoded code)
    (h : Writes operand) : Writes (.truthTest code operand) := by
  intro r hr
  obtain ⟨words, hwords, hr⟩ := bind_eq_ok_iff.1 hr
  obtain ⟨r', hr', hr⟩ := bind_eq_ok_iff.1 hr
  cases hr
  have hscans := scans_suffixed ((h hr').operand .comparison false)
    (glue_truthTestWords hcode hwords)
  rw [← String.append_assoc] at hscans
  exact .of_loose hscans (by decide) rfl

theorem writes_call {function : Read (List Json)} {star : Bool} {arguments : List Expr}
    (hnamed : isNamed function) (h : WritesAll arguments) :
    Writes (.call function star arguments) := by
  intro r hr
  rw [render] at hr
  obtain ⟨names, hnames, hr⟩ := bind_eq_ok_iff.1 hr
  have hempty : arguments.isEmpty → arguments = [] := List.isEmpty_iff.1
  split at hr
  · rename_i hstar
    have hasterisk : Scans (!star && anyDoublesMinus arguments) "*".toList := by
      rw [hstar]
      exact Closed.single (by decide)
    exact lexed_call hnames hnamed hempty hasterisk hr
  · rename_i hstar
    obtain ⟨text, htext, hr⟩ := bind_eq_ok_iff.1 hr
    obtain ⟨rs, hrs, rfl⟩ := map_eq_ok_iff.1 htext
    have hscans : Scans (!star && anyDoublesMinus arguments) (joinTexts rs).toList := by
      rw [Bool.eq_false_iff.2 hstar]
      exact scans_joinTexts (h hrs)
    exact lexed_call hnames hnamed hempty hscans hr

theorem writes_cast {type : TypeName} {operand : Expr} (h : Writes operand) :
    Writes (.cast type operand) := by
  intro r hr
  rw [render] at hr
  obtain ⟨target?, htarget, hr⟩ := bind_eq_ok_iff.1 hr
  split at hr
  · refine ⟨(h hr).scans, (h hr).minus.trans ?_⟩
    rw [startsWithMinus, htarget]
  · obtain ⟨text?, htext, hr⟩ := bind_eq_ok_iff.1 hr
    split at hr
    · cases hr
      exact lexed_truthCast htarget htext
    · obtain ⟨r', hr', hr⟩ := bind_eq_ok_iff.1 hr
      cases hr
      exact lexed_cast htarget (h hr')

theorem writes_array {es : List Expr} (h : WritesAll es) : Writes (.array es) := by
  intro r hr
  obtain ⟨rs, hrs, hr⟩ := bind_eq_ok_iff.1 hr
  cases hr
  have htext : "json_array(" ++ joinTexts rs ++ ")" =
      "json_array" ++ "(" ++ joinTexts rs ++ ")" := by
    rw [← String.toList_inj]
    simp
  have hname : ∀ c ∈ "json_array".toList, isHarmless c := List.all_eq_true.1 rfl
  have hcall := Lexed.of_call (e := .array es) hname (scans_joinTexts (h hrs)) rfl
  rwa [← htext] at hcall

theorem writes_row {es : List Expr} (h : WritesAll es) : Writes (.row es) := by
  intro r hr
  obtain ⟨rs, hrs, hr⟩ := bind_eq_ok_iff.1 hr
  cases hr
  refine .of_atom (scans_parens (scans_joinTexts (h hrs))) ?_
  rw [toList_parens]
  simp [startsWithMinus]

theorem writes_coalesce {es : List Expr} (h : WritesAll es) : Writes (.coalesce es) := by
  intro r hr
  obtain ⟨rs, hrs, hr⟩ := bind_eq_ok_iff.1 hr
  cases hr
  exact .of_call (List.all_eq_true.1 rfl) (scans_joinTexts (h hrs)) rfl

theorem writes_extremum (greatest : Bool) {es : List Expr} (h : WritesAll es) :
    Writes (.extremum greatest es) := by
  intro r hr
  obtain ⟨rs, hrs, hr⟩ := bind_eq_ok_iff.1 hr
  cases hr
  cases greatest <;> exact .of_call (List.all_eq_true.1 rfl) (scans_joinTexts (h hrs)) rfl

theorem Offers.pieces {e : Expr} {write : Rendered → String} {texts : List String}
    (h : Offers .sqlite e write texts) (he : Writes e)
    (hwrite : ∀ {r}, Lexed e r → Scans e.doublesMinus (write r).toList) :
    Pieces e.doublesMinus texts := by
  cases h with
  | given _ hr => exact .single (hwrite (he hr))
  | absent hgiven =>
    rw [doublesMinus_of_not_isGiven hgiven]
    exact .nil

theorem writes_choice {subject otherwise : Expr} {arms : List Expr} (hsubject : Writes subject)
    (harms : WritesArms arms) (hotherwise : Writes otherwise) :
    Writes (.choice subject arms otherwise) := by
  intro r hr
  obtain ⟨head, middle, last, hhead, hmiddle, hlast, rfl⟩ := render_choice_eq_ok hr
  have hcase : Pieces false ["CASE"] := .single (closed_of_harmless rfl)
  have hend : Pieces false ["END"] := .single (closed_of_harmless rfl)
  have helse : Glue "ELSE ".toList := glue_of_harmless (by simp) rfl
  have hpieces := (((hcase.append (hhead.pieces hsubject fun h => h.scans)).append
    (.of_all (harms hmiddle))).append (hlast.pieces hotherwise fun h =>
      scans_prefixed helse h.scans)).append hend
  refine .of_atom ?_ ?_
  · rw [doublesMinus, ← Bool.or_assoc, ← Bool.or_false (_ || _)]
    exact hpieces.intercalate (glue_of_harmless (by simp) rfl)
  · obtain ⟨rest, hrest⟩ := exists_toList_intercalate " " "CASE" (head ++ middle ++ last ++ ["END"])
    rw [List.cons_append, List.cons_append, List.cons_append, hrest]
    simp [startsWithMinus]

/-! ### All constructs -/

mutual

/-- **The text of an expression is closed unless a minus is doubled in it.** -/
theorem writes_of_isWorded (e : Expr) (h : e.isWorded) : Writes e := by
  cases e with
  | column path =>
    intro r hr
    obtain ⟨parts, _, hr⟩ := bind_eq_ok_iff.1 hr
    obtain ⟨names, _, hr⟩ := bind_eq_ok_iff.1 hr
    cases hr
    exact lexed_column path names
  | constant value shown =>
    intro r hr
    obtain ⟨v, rfl, hr⟩ := bind_eq_ok_iff.1 hr
    cases hr
    exact .of_atom v.sqlLiteral_spec.1 v.sqlLiteral_spec.2
  | valueFunction code => exact lexed_valueFunction
  | operator form _ left right =>
    simp only [isWorded, Bool.and_eq_true] at h
    exact writes_operator form (writes_of_isWorded left h.1) (writes_of_isWorded right h.2)
      (writesElements_of_isWorded right h.2)
  | connective op operands =>
    refine writes_connective op (writesAll_of_allWorded operands h) fun e he => ?_
    cases operands with
    | nil => cases he
    | cons e' es =>
      obtain rfl : e' = e := Option.some.inj he
      simp only [isWorded, allWorded, Bool.and_eq_true] at h
      exact writes_of_isWorded e' h.1
  | nullTest negated operand => exact writes_nullTest negated (writes_of_isWorded operand h)
  | truthTest code operand =>
    simp only [isWorded, Bool.and_eq_true] at h
    exact writes_truthTest h.1 (writes_of_isWorded operand h.2)
  | call function star arguments =>
    simp only [isWorded, Bool.and_eq_true] at h
    exact writes_call h.1 (writesAll_of_allWorded arguments h.2)
  | cast type operand => exact writes_cast (writes_of_isWorded operand h)
  | array es => exact writes_array (writesAll_of_allWorded es h)
  | row es => exact writes_row (writesAll_of_allWorded es h)
  | coalesce es => exact writes_coalesce (writesAll_of_allWorded es h)
  | extremum greatest es => exact writes_extremum greatest (writesAll_of_allWorded es h)
  | choice subject arms otherwise =>
    simp only [isWorded, Bool.and_eq_true] at h
    exact writes_choice (writes_of_isWorded subject h.1) (writesArms_of_allWorded arms h.2.1)
      (writes_of_isWorded otherwise h.2.2)
  | arm _ _ | unknown _ =>
    intro r hr
    cases hr
  | _ =>
    intro r hr
    obtain ⟨_, _, hrefused⟩ := bind_eq_ok_iff.1 hr
    cases hrefused

theorem writesAll_of_allWorded : (es : List Expr) → allWorded es → WritesAll es
  | [], _ => by
    intro hrs
    cases hrs
    exact .nil
  | e :: es, h => by
    intro hrs
    simp only [allWorded, Bool.and_eq_true] at h
    obtain ⟨r, hr, hrs⟩ := bind_eq_ok_iff.1 hrs
    obtain ⟨rest, hrest, hrs⟩ := bind_eq_ok_iff.1 hrs
    cases hrs
    exact .cons (writes_of_isWorded e h.1 hr) (writesAll_of_allWorded es h.2 hrest)

theorem writesElements_of_isWorded (e : Expr) (h : e.isWorded) : WritesElements e := by
  intro rs hrs
  cases e with
  | items es | row es | array es => exact ⟨es, writesAll_of_allWorded es h hrs, rfl⟩
  | _ =>
    obtain ⟨_, _, hrefused⟩ := bind_eq_ok_iff.1 hrs
    cases hrefused

theorem writesArms_of_allWorded : (es : List Expr) → allWorded es → WritesArms es
  | [], _ => by
    intro htexts
    cases htexts
    exact .nil
  | e :: es, h => by
    intro htexts
    simp only [allWorded, Bool.and_eq_true] at h
    have hkind : ∀ {texts : List String}, (do
        malformed ("expected CaseWhen, got " ++ (← e.kind)) : Read (List String)) ≠ .ok texts := by
      intro texts heq
      obtain ⟨_, _, hrefused⟩ := bind_eq_ok_iff.1 heq
      cases hrefused
    cases e with
    | arm condition result =>
      obtain ⟨hcondition, hresult⟩ := Bool.and_eq_true_iff.1 h.1
      obtain ⟨c, hc, htexts⟩ := bind_eq_ok_iff.1 htexts
      obtain ⟨r, hr, htexts⟩ := bind_eq_ok_iff.1 htexts
      obtain ⟨rest, hrest, htexts⟩ := bind_eq_ok_iff.1 htexts
      cases htexts
      refine .cons ?_ (writesArms_of_allWorded es h.2 hrest)
      have hwhen : Glue "WHEN ".toList := glue_of_harmless (by simp) rfl
      have hthen : Glue " THEN ".toList := glue_of_harmless (by simp) rfl
      have hfirst := scans_prefixed hwhen (writes_of_isWorded condition hcondition hc).scans
      exact scans_glued hfirst hthen (writes_of_isWorded result hresult hr).scans
    | stray value =>
      match value with
      | .obj [(_, _)] =>
        rw [renderArms] at htexts
        split at htexts <;> cases htexts
      | .obj [] | .obj ((_, _) :: _ :: _) | .arr _ => exact absurd htexts hkind
      | .null | .bool _ | .int _ | .float _ | .str _ => exact absurd htexts hkind
    | _ => exact absurd htexts hkind

end

/-- **The target text of an expression is lexically closed exactly when no minus is written right
before a minus in it**: scanned by itself it opens no comment, ends outside quotes and closes every
parenthesis after it was opened. In parentheses, as in a check or a default, a closed text is
scanned as if it were not there, so it can neither swallow nor release what follows.

Names of functions and codes of truth tests are written as they stand, so the expression is one
with plain words for both (`isWorded`): names of functions that need no quotes, keywords apart, and
codes of tests made of word characters, as all those of the parser are. -/
theorem text_closed_iff {e : Expr} (h : e.isWorded) {s : String} (hs : e.text .sqlite = .ok s) :
    (IsClosed s ↔ e.doublesMinus = false) ∧
      (e.doublesMinus = false → ∀ before d rest,
        (Zone.code before).run d (("(" ++ s ++ ")").toList ++ rest) =
          (Zone.code ')').run d rest) := by
  obtain ⟨r, hr, hs⟩ := bind_eq_ok_iff.1 hs
  cases hs
  have hscans := (writes_of_isWorded e h hr).scans
  refine ⟨hscans.isClosed_iff, fun hminus before d rest => ?_⟩
  rw [hminus] at hscans
  have hparens : Closed ("(" ++ r.text ++ ")").toList := scans_parens (p := false) hscans
  have hhead : ∀ c ∈ ("(" ++ r.text ++ ")").toList.head?, Mode.opensComment before c = false := by
    rw [toList_parens]
    intro c hc
    obtain rfl : '(' = c := by simpa using hc
    simp [Mode.opensComment]
  rw [Zone.run_append, hparens before d hhead, toList_parens]
  simp [List.getLast?_cons]

/-- The node `- - balance`. -/
def Sample.doubleNegation : Json :=
  let minus (operand : Json) : Json :=
    .obj [("A_Expr", .obj [("kind", .str "AEXPR_OP"),
      ("name", .arr [.obj [("String", .obj [("sval", .str "-")])]]), ("rexpr", operand)])]
  minus (minus (.obj [("ColumnRef", .obj [("fields",
    .arr [.obj [("String", .obj [("sval", .str "balance")])]])])]))

/-- The second minus gets no parentheses, so the text is all comment. -/
theorem doubleNegation_not_closed :
    (ofJson Sample.doubleNegation).text .sqlite = .ok "--balance" ∧ ¬ IsClosed "--balance" := by
  have htext : (ofJson Sample.doubleNegation).text .sqlite = .ok "--balance" := rfl
  refine ⟨htext, fun hclosed => ?_⟩
  have hminus : (ofJson Sample.doubleNegation).doublesMinus = true := rfl
  rw [(text_closed_iff rfl htext).1, hminus] at hclosed
  cases hclosed

end Expr

end StrictDdl
