import StrictDdl.Default
import StrictDdl.Proofs.Outcome

/-! Computed defaults, looked up or rendered.

A computed default is written as the counterpart of its function, if that has one, and rendered
otherwise. Rendering looks for the same counterpart, but takes it only for a call without
arguments. So the two texts of a default differ only if it is a call with arguments to a function
with a counterpart (`Computed.target?_eq_text_iff`). -/
namespace StrictDdl

namespace Sql

/-! ### Counterparts -/

theorem mem_computed {name text : String} (h : computed? name = some text) :
    (name, text) ∈ computed := by
  obtain ⟨before, after, heq, _⟩ := List.lookup_eq_some_iff.1 h
  rw [heq]
  simp

/-- A function with a counterpart has no other name in the target. -/
theorem targetFunction_of_computed {name text : String} (h : computed? name = some text) :
    targetFunction name = name := by
  have hnames : ∀ entry ∈ computed, targetFunction entry.1 = entry.1 := by decide +kernel
  exact hnames _ (mem_computed h)

theorem head_append {s : String} {c : Char} (h : s.toList.head? = some c) (t : String) :
    (s ++ t).toList.head? = some c := by
  rw [String.toList_append, List.head?_append, h]
  rfl

theorem head_randomUuid : randomUuid.toList.head? = some 'l' := by
  have hfirst : ("lower(hex(randomblob(4))) || '-' || lower(hex(randomblob(2))) || '-4' || "
      ).toList.head? = some 'l' := rfl
  exact head_append (head_append (head_append hfirst _) _) _

/-- Only one counterpart starts as the name of its function does. -/
theorem eq_random_of_head : ∀ entry ∈ computed,
    entry.2.toList.head? = entry.1.toList.head? → entry.2 = "random()" := by
  simp only [computed, List.forall_mem_cons, head_randomUuid]
  and_intros
  all_goals decide

/-- Only one counterpart is a call of the function itself. -/
theorem eq_random_of_call {name text arguments : String} (h : computed? name = some text)
    (hcall : text = name ++ "(" ++ arguments ++ ")") : text = "random()" := by
  have hnames : ∀ entry ∈ computed, entry.1.toList.head?.isSome := by decide +kernel
  obtain ⟨c, hc⟩ := Option.isSome_iff_exists.1 (hnames _ (mem_computed h))
  refine eq_random_of_head _ (mem_computed h) ?_
  rw [hc, hcall]
  exact head_append (head_append (head_append hc _) _) _

/-- Only one function with a counterpart has this call. -/
theorem eq_of_call_random {name text arguments : String} (h : computed? name = some text)
    (hcall : name ++ "(" ++ arguments ++ ")" = "random()") : text = "random()" := by
  have hnames : ∀ entry ∈ computed, entry.1.toList.head?.isSome := by decide +kernel
  have hrandom : ∀ entry ∈ computed, entry.1.toList.head? = some 'r' → entry.2 = "random()" := by
    decide +kernel
  obtain ⟨c, hc⟩ := Option.isSome_iff_exists.1 (hnames _ (mem_computed h))
  have hhead := head_append (head_append (head_append hc "(") arguments) ")"
  rw [hcall] at hhead
  exact hrandom _ (mem_computed h) (hc.trans hhead.symm)

end Sql

theorem TypeName.getLast?_unqualified (names : List Json) :
    (unqualified names).getLast? = names.getLast? := by
  unfold unqualified
  split
  · split
    · exact List.getLast?_cons_cons.symm
    · rfl
  · rfl

namespace Default

variable {e : Expr} {d : Computed} {key : String}

/-- What a computed default keeps of its expression. -/
theorem computed_of_classify (h : classify e = .ok (.computed d)) :
    d.node = some e ∧ functionKey e = .ok d.function := by
  unfold classify at h
  obtain ⟨_, _, h⟩ := Read.bind_eq_ok_iff.1 h
  obtain ⟨value?, _, h⟩ := Read.bind_eq_ok_iff.1 h
  cases value? with
  | some value => cases h
  | none =>
    obtain ⟨expression, _, h⟩ := Read.bind_eq_ok_iff.1 h
    obtain ⟨function, hfunction, h⟩ := Read.bind_eq_ok_iff.1 h
    cases h
    exact ⟨rfl, hfunction⟩

/-- The key of a call is the last part of its name in lower case. -/
theorem functionKey_of_call {function : Read (List Json)} {star : Bool} {arguments : List Expr}
    (h : functionKey (.call function star arguments) = .ok (some key)) :
    ∃ names j name, function = .ok names ∧ names.getLast? = some j ∧ j.text = .ok name ∧
      key = LetterCase.lower name := by
  unfold functionKey at h
  obtain ⟨names, hnames, h⟩ := Read.bind_eq_ok_iff.1 h
  have hlower : ∀ {j : Json}, (do return some (LetterCase.lower (← j.text)) : Read _) =
      .ok (some key) → ∃ name, j.text = .ok name ∧ key = LetterCase.lower name := by
    intro j hj
    obtain ⟨name, hname, hj⟩ := Read.bind_eq_ok_iff.1 hj
    cases hj
    exact ⟨name, hname, rfl⟩
  split at h
  · cases h
  · rename_i j
    obtain ⟨name, hname, hkey⟩ := hlower h
    exact ⟨_, j, name, hnames, rfl, hname, hkey⟩
  · split at h
    · split at h
      · rename_i j hj
        obtain ⟨name, hname, hkey⟩ := hlower h
        exact ⟨_, j, name, hnames, hj, hname, hkey⟩
      · cases h
    · cases h

/-- Only calls and value functions have a key. -/
theorem call_or_valueFunction (h : functionKey e = .ok (some key)) :
    (∃ function star arguments, e = .call function star arguments) ∨
      ∃ code, e = .valueFunction code ∧ Sql.valueFunction? code = some key := by
  unfold functionKey at h
  split at h
  · exact .inl ⟨_, _, _, rfl⟩
  · exact .inr ⟨_, rfl, Except.ok.inj h⟩
  · cases h

end Default

namespace Computed

/-- The default is a call with arguments to a function that has a counterpart without any. -/
def DropsArguments (c : Computed) : Prop :=
  ∃ function star arguments, c.node = some (.call function star arguments) ∧ arguments ≠ [] ∧
    (c.function.bind Sql.computed?).isSome

section Rendered

variable {text known key : String}

/-- A value function is rendered as its counterpart. -/
theorem text_valueFunction {code : Json} (hkey : Sql.valueFunction? code = some key)
    (hknown : Sql.computed? key = some known)
    (htext : (Expr.valueFunction code).text .sqlite = .ok text) : text = known := by
  obtain ⟨r, hr, htext⟩ := Read.bind_eq_ok_iff.1 htext
  cases htext
  rw [Expr.render] at hr
  obtain ⟨code', hcode, hr⟩ := Read.bind_eq_ok_iff.1 hr
  obtain rfl : code = code' := by
    unfold Json.key at hcode
    split at hcode
    · exact Except.ok.inj hcode
    · cases hcode
  simp only [hkey, hknown] at hr
  cases hr
  rfl

/-- A call is rendered as the counterpart of its function if it has no arguments. -/
theorem text_call {function : Read (List Json)} {star : Bool} {arguments : List Expr}
    (hkey : Default.functionKey (.call function star arguments) = .ok (some key))
    (hknown : Sql.computed? key = some known)
    (htext : (Expr.call function star arguments).text .sqlite = .ok text) :
    (arguments = [] → text = known) ∧
      (arguments ≠ [] → ∃ inner, text = key ++ "(" ++ inner ++ ")") := by
  obtain ⟨names, j, name, hfunction, hlast, hname, rfl⟩ := Default.functionKey_of_call hkey
  obtain ⟨r, hr, htext⟩ := Read.bind_eq_ok_iff.1 htext
  cases htext
  rw [Expr.render, hfunction] at hr
  obtain ⟨_, hnames, hr⟩ := Read.bind_eq_ok_iff.1 hr
  cases hnames
  -- A star stands in for the arguments in the text, but they still count as arguments.
  obtain ⟨inner, hr⟩ : ∃ inner, Expr.renderCall .sqlite names arguments.isEmpty inner = .ok r := by
    dsimp only at hr
    split at hr
    · exact ⟨_, hr⟩
    · obtain ⟨inner, _, hr⟩ := Read.bind_eq_ok_iff.1 hr
      exact ⟨inner, hr⟩
  unfold Expr.renderCall at hr
  simp only [TypeName.getLast?_unqualified, hlast] at hr
  obtain ⟨_, hname', hr⟩ := Read.bind_eq_ok_iff.1 hr
  rw [hname] at hname'
  cases hname'
  constructor
  · rintro rfl
    simp only [List.isEmpty_nil, hknown] at hr
    cases hr
    rfl
  · intro hsome
    simp only [List.isEmpty_eq_false_iff.2 hsome, Sql.targetFunction_of_computed hknown] at hr
    cases hr
    exact ⟨inner, rfl⟩

/-- The counterpart of the function of a call is its text if there are no arguments to drop. -/
theorem eq_text_call_iff {function : Read (List Json)} {star : Bool} {arguments : List Expr}
    (hkey : Default.functionKey (.call function star arguments) = .ok (some key))
    (hknown : Sql.computed? key = some known)
    (htext : (Expr.call function star arguments).text .sqlite = .ok text) :
    known = text ↔ (arguments ≠ [] → text = "random()") := by
  obtain ⟨hnone, hsome⟩ := text_call hkey hknown htext
  by_cases hempty : arguments = []
  · exact iff_of_true (hnone hempty).symm fun hne => absurd hempty hne
  · obtain ⟨inner, hinner⟩ := hsome hempty
    constructor
    · rintro rfl _
      exact Sql.eq_random_of_call hknown hinner
    · intro hrandom
      rw [hrandom hempty] at hinner ⊢
      exact Sql.eq_of_call_random hknown hinner.symm

end Rendered

/-- **A default is written as it is rendered**, unless it is a call with arguments to a function
with a counterpart; then only the one text that is the same by chance is. -/
theorem target?_eq_text_iff {e : Expr} {d : Computed} {text : String}
    (hclass : Default.classify e = .ok (.computed d)) (htext : e.text .sqlite = .ok text) :
    d.target? = .ok (some text) ↔ (d.DropsArguments → text = "random()") := by
  obtain ⟨hnode, hfunction⟩ := Default.computed_of_classify hclass
  unfold target?
  cases hknown : d.function.bind Sql.computed? with
  | none =>
    have hkept : ¬ d.DropsArguments := by
      rintro ⟨_, _, _, _, _, hsome⟩
      rw [hknown] at hsome
      cases hsome
    simp only [hnode, htext, true_iff]
    exact fun hdrops => absurd hdrops hkept
  | some known =>
    obtain ⟨key, hkey, hcomputed⟩ := Option.bind_eq_some_iff.1 hknown
    rw [hkey] at hfunction
    simp only [Except.ok.injEq, Option.some.injEq]
    rcases Default.call_or_valueFunction hfunction with
      ⟨function, star, arguments, rfl⟩ | ⟨code, rfl, hcode⟩
    · have hdrops : d.DropsArguments ↔ arguments ≠ [] := by
        constructor
        · rintro ⟨_, _, _, hcall, hne, _⟩
          rw [hnode] at hcall
          cases hcall
          exact hne
        · exact fun hne => ⟨_, _, _, hnode, hne, by rw [hknown]; rfl⟩
      rw [hdrops]
      exact eq_text_call_iff hfunction hcomputed htext
    · refine iff_of_true (text_valueFunction hcode hcomputed htext).symm ?_
      rintro ⟨_, _, _, hcall, _⟩
      rw [hnode] at hcall
      cases hcall

end Computed

/-- A random number from one to ten. -/
def Sample.dice : Expr :=
  let number (n : Int) : Expr := .constant (.ok (.int n)) (.ok (.int n))
  .call (.ok [.str "random"]) false [number 1, number 10]

namespace Computed

/-- Any random number is written for one from one to ten. -/
theorem dice_unbounded : ∃ d, Default.classify Sample.dice = .ok (.computed d) ∧
    Sample.dice.text .sqlite = .ok "random(1, 10)" ∧ d.target? = .ok (some "random()") ∧
      ¬ (d.DropsArguments → "random(1, 10)" = "random()") := by
  have htext : Sample.dice.text .sqlite = .ok "random(1, 10)" := rfl
  have hclass : Default.classify Sample.dice =
      .ok (.computed ⟨.call, "random(1, 10)", some "random", some Sample.dice⟩) := rfl
  refine ⟨_, hclass, htext, rfl, ?_⟩
  rw [← target?_eq_text_iff hclass htext]
  intro h
  have hsame : some "random()" = some "random(1, 10)" := Except.ok.inj h
  exact absurd hsame (by decide)

end Computed

end StrictDdl
