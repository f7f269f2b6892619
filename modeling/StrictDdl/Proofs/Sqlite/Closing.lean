import Mathlib.Data.List.Forall2
import Mathlib.Tactic.SplitIfs
import StrictDdl.Proofs.Sqlite.Scanning

/-! Texts that are lexically closed.

A scan knows in which zone it stands: between quotes, or outside of them behind some character. A
quote written twice closes and opens again, so it needs no rule of its own. Outside of quotes a
comment and a parenthesis that closes too early end the scan. A text is closed when it leaves the
scan outside quotes at the depth where it began (`IsClosed`), and then it does so wherever it
stands (`isClosed_iff`), so what surrounds it is scanned as if it were not there.

The texts of expressions are put together from pieces. Closed pieces make a closed text as long as
no seam opens a comment, and a piece that is broken everywhere breaks the whole (`Scans.append`). -/
namespace StrictDdl.Sqlite

open Mode (opensComment)

theorem toList_parens (s : String) : ("(" ++ s ++ ")").toList = '(' :: (s.toList ++ [')']) := by
  rw [String.toList_append, String.toList_append]
  rfl

/-- Where a scan stands. -/
inductive Zone where
  /-- Outside quotes, behind this character. -/
  | code (before : Char)
  | quoted (quote : Char)
  deriving DecidableEq

def isQuote (c : Char) : Bool := c = '\'' || c = '"'

namespace Zone

/-- The zone behind one more character, unless a comment opens. -/
def next : Zone → Char → Option Zone
  | .quoted quote, c => some (if c = quote then .code c else .quoted quote)
  | .code before, c =>
    if opensComment before c then none else some (if isQuote c then .quoted c else .code c)

/-- The number of open parentheses behind one more character, unless it closes one that is not
open. -/
def nest : Zone → Nat → Char → Option Nat
  | .quoted _, d, _ => some d
  | .code _, d, c =>
    if c = '(' then some (d + 1)
    else if c = ')' then if d = 0 then none else some (d - 1)
    else some d

def run : Zone → Nat → List Char → Option (Zone × Nat)
  | z, d, [] => some (z, d)
  | z, d, c :: cs => do run (← z.next c) (← z.nest d c) cs

theorem run_append (z : Zone) (d : Nat) (u v : List Char) :
    z.run d (u ++ v) = (z.run d u).bind fun r => r.1.run r.2 v := by
  induction u generalizing z d with
  | nil => rfl
  | cons c u ih =>
    simp only [List.cons_append, run, Option.bind_eq_bind, Option.bind_assoc, ih]

theorem run_cons {z z' : Zone} {d d' : Nat} {c : Char} {cs : List Char} (hz : z.next c = some z')
    (hd : z.nest d c = some d') : z.run d (c :: cs) = z'.run d' cs := by
  rw [run, hz, hd]
  rfl

/-- Outside quotes the zone knows nothing but the last character. -/
theorem next_code {z : Zone} {c last : Char} (h : z.next c = some (.code last)) : last = c := by
  cases z with
  | code before =>
    simp only [next] at h
    split at h
    · cases h
    · split at h
      · cases h
      · cases h
        rfl
  | quoted quote =>
    simp only [next] at h
    split at h
    · cases h
      rfl
    · cases h

theorem run_code {z : Zone} {d d' : Nat} {cs : List Char} {last : Char} (hne : cs ≠ [])
    (h : z.run d cs = some (.code last, d')) : cs.getLast? = some last := by
  induction cs generalizing z d with
  | nil => exact absurd rfl hne
  | cons c cs ih =>
    obtain ⟨z', hz, h⟩ := Option.bind_eq_some_iff.1 h
    obtain ⟨e, _, h⟩ := Option.bind_eq_some_iff.1 h
    cases cs with
    | nil =>
      cases h
      rw [next_code hz]
      rfl
    | cons c' cs =>
      rw [List.getLast?_cons_cons]
      exact ih (by simp) h

/-- Parentheses that are open before a text do not matter to it. -/
theorem nest_add {z : Zone} {d d' : Nat} {c : Char} (k : Nat) (h : z.nest d c = some d') :
    z.nest (d + k) c = some (d' + k) := by
  cases z with
  | quoted quote =>
    cases h
    rfl
  | code before =>
    simp only [nest] at h ⊢
    split_ifs at h ⊢
    all_goals simp only [Option.some.injEq] at h ⊢; omega

theorem run_add {z z' : Zone} {d d' : Nat} {cs : List Char} (k : Nat)
    (h : z.run d cs = some (z', d')) : z.run (d + k) cs = some (z', d' + k) := by
  induction cs generalizing z d with
  | nil =>
    cases h
    rfl
  | cons c cs ih =>
    obtain ⟨z₁, hz, h⟩ := Option.bind_eq_some_iff.1 h
    obtain ⟨d₁, hd, h⟩ := Option.bind_eq_some_iff.1 h
    rw [run_cons hz (nest_add k hd)]
    exact ih h

theorem opensComment_quote (c : Char) {q : Char} (hq : isQuote q) : opensComment c q = false := by
  rcases (by simpa [isQuote] using hq : q = '\'' ∨ q = '"') with rfl | rfl <;> simp [opensComment]

/-- A quote opens, wherever it stands outside quotes. -/
theorem run_opens (before : Char) {q : Char} (hq : isQuote q) (d : Nat) (cs : List Char) :
    (code before).run d (q :: cs) = (quoted q).run d cs := by
  have hnext : (code before).next q = some (.quoted q) := by
    simp [next, opensComment_quote before hq, hq]
  have hnest : (code before).nest d q = some d := by
    rcases (by simpa [isQuote] using hq : q = '\'' ∨ q = '"') with rfl | rfl <;> rfl
  exact run_cons hnext hnest

theorem run_ends (q : Char) (d : Nat) (cs : List Char) :
    (quoted q).run d (q :: cs) = (code q).run d cs :=
  run_cons (by simp [next]) rfl

theorem run_inside {q c : Char} (hc : c ≠ q) (d : Nat) (cs : List Char) :
    (quoted q).run d (c :: cs) = (quoted q).run d cs :=
  run_cons (by simp [next, hc]) rfl

/-- Outside quotes the zone before matters to one character only. -/
theorem run_code_cons {before before' c : Char} (h : opensComment before c = false)
    (h' : opensComment before' c = false) (d : Nat) (cs : List Char) :
    (code before).run d (c :: cs) = (code before').run d (c :: cs) := by
  simp only [run, next, nest, h, h']

end Zone

/-! ### Closed texts -/

/-- The scan of the text ends outside quotes, without a comment, and every parenthesis is closed
after it was opened. -/
def IsClosed (s : String) : Prop := ∃ last, (Zone.code ' ').run 0 s.toList = some (.code last, 0)

/-- A text that is spelled out. -/
theorem isClosed_ofList {cs : List Char} {last : Char}
    (h : (Zone.code ' ').run 0 cs = some (.code last, 0)) : IsClosed (String.ofList cs) := by
  refine ⟨last, ?_⟩
  rw [String.toList_ofList]
  exact h

/-- Wherever they stand, the characters leave the scan outside quotes and at the same depth, unless
the first of them opens a comment with what stands before. -/
def Closed (cs : List Char) : Prop :=
  ∀ before d, (∀ c ∈ cs.head?, opensComment before c = false) →
    (Zone.code before).run d cs = some (.code (cs.getLast?.getD before), d)

/-- Wherever they stand outside quotes, the characters open a comment. -/
def Broken (cs : List Char) : Prop := ∀ before d, (Zone.code before).run d cs = none

theorem opensComment_blank (c : Char) : opensComment ' ' c = false := rfl

/-- What is closed by itself is closed wherever it stands. -/
theorem isClosed_iff {s : String} : IsClosed s ↔ Closed s.toList := by
  constructor
  · rintro ⟨last, h⟩ before d hhead
    cases hcs : s.toList with
    | nil => rfl
    | cons c cs =>
      rw [hcs] at h hhead
      have hlast := Zone.run_code (by simp) h
      have hrun := Zone.run_add d h
      rw [Zone.run_code_cons (hhead c rfl) (opensComment_blank c), ← Nat.zero_add d, hrun, hlast]
      rfl
  · intro h
    exact ⟨_, h ' ' 0 fun c _ => opensComment_blank c⟩

theorem Broken.not_isClosed {s : String} (h : Broken s.toList) : ¬ IsClosed s := by
  rintro ⟨last, hrun⟩
  rw [h] at hrun
  cases hrun

/-- No comment opens where the two parts meet. -/
def Seam (u v : List Char) : Prop :=
  ∀ a ∈ u.getLast?, ∀ b ∈ v.head?, opensComment a b = false

namespace Closed

variable {u v : List Char}

theorem nil : Closed [] := fun _ _ _ => rfl

theorem append (hu : Closed u) (hv : Closed v) (h : Seam u v) : Closed (u ++ v) := by
  intro before d hhead
  cases u with
  | nil => exact hv before d hhead
  | cons c u =>
    obtain ⟨last, hlast⟩ := Option.isSome_iff_exists.1
      (show (c :: u).getLast?.isSome from by simp [List.getLast?_isSome])
    rw [Zone.run_append, hu before d hhead, hlast]
    show (Zone.code last).run d v = _
    rw [hv last d (h last hlast), List.getLast?_append, hlast]
    cases v.getLast? with
    | none => rfl
    | some _ => rfl

/-- One character that is no quote and no parenthesis. -/
theorem single {c : Char} (hc : c ∉ ['\'', '"', '(', ')']) : Closed [c] := by
  intro before d hhead
  simp only [List.mem_cons, List.not_mem_nil, or_false, not_or] at hc
  obtain ⟨hsingle, hdouble, hopen, hclose⟩ := hc
  have hopens := hhead c rfl
  simp [Zone.run, Zone.next, Zone.nest, isQuote, hopens, hsingle, hdouble, hopen, hclose]

/-- Parentheses around a closed text. -/
theorem parens (h : Closed u) : Closed ('(' :: (u ++ [')'])) := by
  intro before d _
  have hopens : opensComment before '(' = false := by simp [opensComment]
  have hfirst : (Zone.code before).next '(' = some (.code '(') := by
    simp [Zone.next, hopens, isQuote]
  rw [Zone.run_cons hfirst rfl, Zone.run_append, h '(' (d + 1) fun c _ => rfl]
  show (Zone.code (u.getLast?.getD '(')).run (d + 1) [')'] = _
  have hlast : ∀ a, (Zone.code a).next ')' = some (.code ')') := by
    intro a
    simp [Zone.next, opensComment, isQuote]
  rw [Zone.run_cons (hlast _) rfl]
  simp [Zone.run, List.getLast?_cons]

theorem quoted_run (quote : Char) (hquote : isQuote quote) (d : Nat) (cs rest : List Char) :
    (Zone.quoted quote).run d (Sql.doubled quote cs ++ rest) = (Zone.quoted quote).run d rest := by
  induction cs with
  | nil => rfl
  | cons c cs ih =>
    rw [Sql.doubled]
    split
    · rename_i hc
      subst hc
      rw [List.cons_append, List.cons_append, Zone.run_ends, Zone.run_opens c hquote, ih]
    · rename_i hc
      rw [List.cons_append, Zone.run_inside hc, ih]

/-- A text between quotes. -/
theorem enclosed {quote : Char} (hquote : isQuote quote) (s : String) :
    Closed (Sql.enclosed quote s).toList := by
  intro before d _
  rw [Sql.enclosed, String.toList_ofList, List.cons_append, Zone.run_opens before hquote,
    quoted_run quote hquote, Zone.run_ends]
  simp [Zone.run, List.getLast?_cons]

end Closed

/-! ### Characters that open and close nothing -/

/-- A character that is neither a quote nor a parenthesis nor part of what opens a comment. -/
def isHarmless (c : Char) : Bool := !(['\'', '"', '(', ')', '-', '/', '*'].contains c)

theorem opensComment_left {a : Char} (ha : isHarmless a) (b : Char) :
    opensComment a b = false := by
  have hne : a ≠ '-' ∧ a ≠ '/' := by
    constructor <;> rintro rfl <;> cases ha
  simp [opensComment, hne.1, hne.2]

theorem opensComment_right {b : Char} (hb : isHarmless b) (a : Char) :
    opensComment a b = false := by
  have hne : b ≠ '-' ∧ b ≠ '*' := by
    constructor <;> rintro rfl <;> cases hb
  simp [opensComment, hne.1, hne.2]

theorem Closed.of_harmless {cs : List Char} (h : ∀ c ∈ cs, isHarmless c) : Closed cs := by
  induction cs with
  | nil => exact .nil
  | cons c cs ih =>
    obtain ⟨hc, hcs⟩ := List.forall_mem_cons.1 h
    have hsingle : Closed [c] := by
      refine .single fun hmem => ?_
      simp only [isHarmless, Bool.not_eq_true', List.contains_eq_mem, decide_eq_false_iff_not] at hc
      simp only [List.mem_cons, List.not_mem_nil, or_false] at hmem hc
      rcases hmem with rfl | rfl | rfl | rfl <;> simp at hc
    refine (hsingle.append (ih hcs) fun a ha b _ => ?_)
    obtain rfl : c = a := by simpa using ha
    exact opensComment_left hc b

/-! ### Pieces -/

/-- The characters are closed, or broken. -/
def Scans (broken : Bool) (cs : List Char) : Prop := if broken then Broken cs else Closed cs

/-- What stands between two pieces, so that neither sees the other. -/
structure Glue (cs : List Char) : Prop where
  closed : Closed cs
  first : ∃ b, cs.head? = some b ∧ isHarmless b
  last : ∃ a, cs.getLast? = some a ∧ isHarmless a

namespace Glue

variable {cs : List Char}

theorem of_harmless (hne : cs ≠ []) (h : ∀ c ∈ cs, isHarmless c) : Glue cs where
  closed := .of_harmless h
  first := by
    obtain ⟨c, cs, rfl⟩ := List.exists_cons_of_ne_nil hne
    exact ⟨c, rfl, h c (List.mem_cons_self ..)⟩
  last := ⟨cs.getLast hne, List.getLast?_eq_some_getLast hne, h _ (List.getLast_mem hne)⟩

/-- A piece that is spelled out. -/
theorem ofList {first last : Char} (h : (Zone.code ' ').run 0 cs = some (.code last, 0))
    (hhead : cs.head? = some first) (hfirst : isHarmless first) (hlast : isHarmless last) :
    Glue (String.ofList cs).toList where
  closed := isClosed_iff.1 (isClosed_ofList h)
  first := ⟨first, by rw [String.toList_ofList, hhead], hfirst⟩
  last := by
    refine ⟨last, ?_, hlast⟩
    rw [String.toList_ofList]
    refine Zone.run_code ?_ h
    rintro rfl
    cases hhead

/-- A closed piece between blanks. -/
theorem spaced (h : Closed cs) : Glue (' ' :: (cs ++ [' '])) where
  closed := by
    have hblank : Closed [' '] := .of_harmless (by simp; decide)
    refine hblank.append (h.append hblank fun a _ b hb => ?_) fun a ha b _ => ?_
    · obtain rfl : ' ' = b := by simpa using hb
      exact opensComment_right rfl a
    · obtain rfl : ' ' = a := by simpa using ha
      exact opensComment_left rfl b
  first := ⟨' ', rfl, rfl⟩
  last := ⟨' ', by simp [List.getLast?_cons], rfl⟩

theorem seam_left (h : Glue cs) (u : List Char) : Seam u cs := by
  intro a _ b hb
  obtain ⟨b', hb', hharmless⟩ := h.first
  obtain rfl : b' = b := Option.some.inj (hb'.symm.trans hb)
  exact opensComment_right hharmless a

theorem seam_right (h : Glue cs) (v : List Char) : Seam cs v := by
  intro a ha b _
  obtain ⟨a', ha', hharmless⟩ := h.last
  obtain rfl : a' = a := Option.some.inj (ha'.symm.trans ha)
  exact opensComment_left hharmless b

theorem append {u v : List Char} (hu : Glue u) (hv : Glue v) : Glue (u ++ v) where
  closed := hu.closed.append hv.closed (hv.seam_left u)
  first := by
    obtain ⟨b, hb, hharmless⟩ := hu.first
    exact ⟨b, by simp [List.head?_append, hb], hharmless⟩
  last := by
    obtain ⟨a, ha, hharmless⟩ := hv.last
    exact ⟨a, by simp [List.getLast?_append, ha], hharmless⟩

end Glue

theorem seam_paren (u v : List Char) : Seam u ('(' :: v) := by
  intro a _ b hb
  obtain rfl : '(' = b := by simpa using hb
  simp [opensComment]

namespace Scans

variable {p q : Bool} {u v m : List Char}

theorem append (hu : Scans p u) (hv : Scans q v) (h : Seam u v) : Scans (p || q) (u ++ v) := by
  cases p with
  | true =>
    intro before d
    rw [Zone.run_append, hu before d]
    rfl
  | false =>
    cases q with
    | false => exact Closed.append hu hv h
    | true =>
      intro before d
      cases u with
      | nil => exact hv before d
      | cons c u =>
        rw [Zone.run_append]
        cases hopens : opensComment before c with
        | true => simp [Zone.run, Zone.next, hopens]
        | false =>
          rw [hu before d (by simpa using hopens)]
          exact hv _ d

theorem before_glue (hu : Scans p u) (hm : Glue m) : Scans p (u ++ m) := by
  have := hu.append (q := false) hm.closed (hm.seam_left u)
  rwa [Bool.or_false] at this

theorem behind_glue (hm : Glue m) (hv : Scans p v) : Scans p (m ++ v) :=
  append (p := false) hm.closed hv (hm.seam_right v)

theorem glued (hu : Scans p u) (hm : Glue m) (hv : Scans q v) : Scans (p || q) (u ++ (m ++ v)) := by
  rw [← List.append_assoc]
  refine (hu.before_glue hm).append hv fun a ha b hb => hm.seam_right v a ?_ b hb
  rw [List.getLast?_append] at ha
  obtain ⟨a', ha', _⟩ := hm.last
  rw [ha'] at ha ⊢
  exact ha

theorem parens (hu : Scans p u) : Scans p ('(' :: (u ++ [')'])) := by
  cases p with
  | false => exact Closed.parens hu
  | true =>
    intro before d
    have hopens : opensComment before '(' = false := by simp [opensComment]
    have hfirst : (Zone.code before).next '(' = some (.code '(') := by
      simp [Zone.next, hopens, isQuote]
    rw [Zone.run_cons hfirst rfl, Zone.run_append, hu '(' (d + 1)]
    rfl

/-- A minus right before a piece opens a comment with another minus. -/
theorem minus (hu : Scans p u) : Scans (decide (u.head? = some '-') || p) ('-' :: u) := by
  by_cases hhead : u.head? = some '-'
  · rw [decide_eq_true hhead, Bool.true_or]
    obtain ⟨rest, rfl⟩ := List.head?_eq_some_iff.1 hhead
    intro before d
    cases hopens : opensComment before '-' with
    | true => simp [Zone.run, Zone.next, hopens]
    | false =>
      have hfirst : (Zone.code before).next '-' = some (.code '-') := by
        simp [Zone.next, hopens, isQuote]
      rw [Zone.run_cons hfirst rfl]
      rfl
  · rw [decide_eq_false hhead]
    refine append (p := false) (u := ['-']) (Closed.single (by decide)) hu fun a ha b hb => ?_
    obtain rfl : '-' = a := by simpa using ha
    have hne : b ≠ '-' := by
      rintro rfl
      exact hhead hb
    simp [opensComment, hne]

/-- A plus opens nothing. -/
theorem plus (hu : Scans p u) : Scans p ('+' :: u) := by
  have hplus : Closed ['+'] := Closed.of_harmless (by simp; decide)
  refine append (p := false) (u := ['+']) hplus hu fun a ha b _ => ?_
  obtain rfl : '+' = a := by simpa using ha
  exact opensComment_left rfl b

/-- A call of a function with this name. -/
theorem call (hu : Scans p u) (hm : Closed m) : Scans p (m ++ '(' :: (u ++ [')'])) :=
  append (p := false) hm hu.parens (seam_paren m _)

/-- Pieces with the same glue between them. -/
theorem intercalate {sep : List Char} (hsep : Glue sep) {ps : List Bool} {us : List (List Char)}
    (h : List.Forall₂ Scans ps us) : Scans (ps.any id) (sep.intercalate us) := by
  induction h with
  | nil => exact Closed.nil
  | @cons p u ps us hu hus ih =>
    cases hus with
    | nil => simpa using hu
    | @cons p' u' ps us hu' hus =>
      rw [List.intercalate_cons_cons, List.any_cons, List.append_assoc]
      exact hu.glued hsep ih

theorem isClosed_iff {s : String} (h : Scans p s.toList) : IsClosed s ↔ p = false := by
  cases p with
  | false => simp [Sqlite.isClosed_iff.2 h]
  | true => simp [Broken.not_isClosed h]

end Scans

/-! ### Names and constants -/

theorem isHarmless_of_isWord {c : Char} (h : Sql.isWord c) : isHarmless c := by
  have hne : ∀ d, Sql.isWord d = false → c ≠ d := by
    rintro d hd rfl
    rw [h] at hd
    cases hd
  simp only [isHarmless, Bool.not_eq_true', List.contains_eq_mem, decide_eq_false_iff_not,
    List.mem_cons, List.not_mem_nil, or_false, not_or]
  exact ⟨hne _ (by decide), hne _ (by decide), hne _ (by decide), hne _ (by decide),
    hne _ (by decide), hne _ (by decide), hne _ (by decide)⟩

theorem isHarmless_of_isDigit {c : Char} (h : isDigit c) : isHarmless c :=
  isHarmless_of_isWord (by simp only [Sql.isWord, Bool.or_eq_true]; exact .inr h)

/-- The characters of a name that needs no quotes. -/
theorem isWord_of_isBare {cs : List Char} (h : Sql.isBare cs) :
    ∀ c ∈ cs, Sql.isWord c ∨ c = '\n' := by
  unfold Sql.isBare at h
  split at h
  · cases h
  · rename_i c cs
    simp only [Bool.and_eq_true] at h
    obtain ⟨hc, hcs⟩ := h
    obtain ⟨w, hw, hcs⟩ := Mode.isBareRest_cases hcs
    intro d hd
    rcases List.mem_cons.1 hd with rfl | hd
    · exact .inl (by simp [Sql.isWord, hc])
    · rcases hcs with rfl | rfl
      · exact .inl (hw d hd)
      · rcases List.mem_append.1 hd with hd | hd
        · exact .inl (hw d hd)
        · exact .inr (List.mem_singleton.1 hd)

theorem closed_identifier (name : String) : Closed (Sql.identifier name).toList := by
  unfold Sql.identifier
  split
  · exact .enclosed rfl name
  · rename_i hbare
    simp only [Sql.needsQuoting, Bool.or_eq_true, Bool.not_eq_true', not_or,
      Bool.not_eq_false] at hbare
    refine .of_harmless fun c hc => ?_
    rcases isWord_of_isBare hbare.2 c hc with hc | rfl
    · exact isHarmless_of_isWord hc
    · rfl

/-- A numeral without a sign, or a word in its place: closed, and it starts with none. -/
structure Magnitude (cs : List Char) : Prop where
  closed : Closed cs
  first : ∃ c rest, cs = c :: rest ∧ isHarmless c

namespace Magnitude

variable {u v : List Char}

theorem of_harmless (hne : u ≠ []) (h : ∀ c ∈ u, isHarmless c) : Magnitude u where
  closed := .of_harmless h
  first := by
    obtain ⟨c, rest, rfl⟩ := List.exists_cons_of_ne_nil hne
    exact ⟨c, rest, rfl, h c (List.mem_cons_self ..)⟩

theorem of_digits (h : Mode.Digits u) : Magnitude u :=
  .of_harmless h.1 fun c hc => isHarmless_of_isDigit (h.2 c hc)

theorem closed_minus (h : Magnitude u) : Closed ('-' :: u) := by
  obtain ⟨c, rest, rfl, hc⟩ := h.first
  refine (Closed.single (by decide)).append h.closed fun a _ b hb => ?_
  obtain rfl : c = b := by simpa using hb
  exact opensComment_right hc a

/-- The exponent behind a mantissa. -/
theorem exponent (hu : ∀ c ∈ u, isHarmless c) (hne : u ≠ []) {sign : Char}
    (hsign : sign = '-' ∨ sign = '+') (hv : Magnitude v) : Magnitude (u ++ 'e' :: sign :: v) where
  closed := by
    have hmantissa : Closed (u ++ ['e']) := .of_harmless fun c hc => by
      rcases List.mem_append.1 hc with hc | hc
      · exact hu c hc
      · rw [List.mem_singleton.1 hc]
        rfl
    have hexponent : Closed (sign :: v) := by
      rcases hsign with rfl | rfl
      · exact hv.closed_minus
      · exact Closed.append (u := ['+']) (.of_harmless (by simp; decide)) hv.closed
          fun a ha b _ => opensComment_left (by simp at ha; subst ha; rfl) b
    rw [← List.singleton_append, ← List.append_assoc]
    refine hmantissa.append hexponent fun a ha b _ => ?_
    obtain rfl : 'e' = a := by simpa using ha
    exact opensComment_left rfl b
  first := by
    obtain ⟨c, rest, rfl⟩ := List.exists_cons_of_ne_nil hne
    exact ⟨c, _, rfl, hu c (List.mem_cons_self ..)⟩

theorem positional {ds : List Char} (h : Mode.Digits ds) (leading : Int) :
    Magnitude (Binary64.positional ds leading) := by
  have hzeros : ∀ n, ∀ c ∈ List.replicate n '0', isHarmless c := fun n c hc =>
    isHarmless_of_isDigit (Mode.isDigit_of_mem_replicate hc)
  have hdigits : ∀ c ∈ ds, isHarmless c := fun c hc => isHarmless_of_isDigit (h.2 c hc)
  unfold Binary64.positional
  split
  · refine .of_harmless (by simp) fun c hc => ?_
    rcases List.mem_append.1 hc with hc | hc
    · rcases List.mem_append.1 hc with hc | hc
      · exact hdigits c (List.mem_of_mem_take hc)
      · exact hzeros _ c hc
    · rcases List.mem_cons.1 hc with rfl | hc
      · rfl
      · split at hc
        · rw [List.mem_singleton.1 hc]
          rfl
        · exact hdigits c (List.mem_of_mem_drop hc)
  · refine .of_harmless (by simp) fun c hc => ?_
    rcases List.mem_cons.1 hc with rfl | hc
    · rfl
    · rcases List.mem_cons.1 hc with rfl | hc
      · rfl
      · rcases List.mem_append.1 hc with hc | hc
        · exact hzeros _ c hc
        · exact hdigits c hc

theorem scientific {ds : List Char} (h : Mode.Digits ds) (leading : Int) :
    Magnitude (Binary64.scientific ds leading) := by
  have hdigits : ∀ c ∈ ds, isHarmless c := fun c hc => isHarmless_of_isDigit (h.2 c hc)
  have hsign : (if leading < 0 then '-' else '+') = '-' ∨
      (if leading < 0 then '-' else '+') = '+' := by
    split
    · exact .inl rfl
    · exact .inr rfl
  have hexponent : Magnitude (Binary64.pad 2 (digitChars leading.natAbs)) := by
    have hnat := Mode.digits_digitChars leading.natAbs
    refine .of_digits ⟨by simp [Binary64.pad, hnat.1], fun c hc => ?_⟩
    rcases List.mem_append.1 hc with hc | hc
    · exact Mode.isDigit_of_mem_replicate hc
    · exact hnat.2 c hc
  unfold Binary64.scientific
  refine exponent ?_ ?_ hsign hexponent
  · intro c hc
    split at hc
    · exact absurd hc List.not_mem_nil
    · exact hdigits c hc
    · rcases List.mem_cons.1 hc with rfl | hc
      · exact hdigits c (List.mem_cons_self ..)
      · rcases List.mem_cons.1 hc with rfl | hc
        · rfl
        · exact hdigits c (List.mem_cons_of_mem _ hc)
  · split
    · exact absurd rfl h.1
    · exact List.cons_ne_nil _ _
    · exact List.cons_ne_nil _ _

end Magnitude

end StrictDdl.Sqlite

namespace StrictDdl

open Sqlite

/-- Whether a number is written with a sign in front. -/
def Binary64.isSigned : Binary64 → Bool
  | .finite negative _ _ => negative
  | .infinite negative => negative
  | .nan => false

/-- Whether a constant is written with a sign in front. -/
def Json.isSigned : Json → Bool
  | .int n => n < 0
  | .float x => x.isSigned
  | _ => false

theorem Binary64.exists_magnitude (x : Binary64) : ∃ cs, Magnitude cs ∧
    (x.write .plain).toList = if x.isSigned then '-' :: cs else cs := by
  have hword : ∀ s : String, s.toList ≠ [] → s.toList.all isHarmless → Magnitude s.toList :=
    fun s hne h => .of_harmless hne (List.all_eq_true.1 h)
  cases x with
  | nan => exact ⟨_, hword "nan" (by simp) rfl, rfl⟩
  | infinite negative =>
    refine ⟨_, hword "inf" (by simp) rfl, ?_⟩
    cases negative <;> rfl
  | finite negative m e =>
    have hsign : ∀ cs, ((if negative then "-" else "") ++ String.ofList cs).toList =
        if negative then '-' :: cs else cs := by
      intro cs
      rw [String.toList_append, String.toList_ofList]
      cases negative <;> rfl
    refine ⟨_, ?_, hsign _⟩
    split
    · exact .of_harmless (by simp) (by simp; decide)
    · simp only
      split
      · exact .positional (Mode.digits_digitChars _) _
      · exact .scientific (Mode.digits_digitChars _) _

/-- A constant is closed, and only a number below zero starts with a minus. -/
theorem Json.sqlLiteral_spec (v : Json) : Closed v.sqlLiteral.toList ∧
    (v.sqlLiteral.toList.head? = some '-' ↔ v.isSigned) := by
  have hword : ∀ s : String, s.toList.all isHarmless → Closed s.toList := fun s h =>
    .of_harmless (List.all_eq_true.1 h)
  have hmagnitude : ∀ {cs : List Char} (signed : Bool), Magnitude cs →
      Closed (if signed then '-' :: cs else cs) ∧
        ((if signed then '-' :: cs else cs).head? = some '-' ↔ signed) := by
    intro cs signed h
    cases signed with
    | true => exact ⟨h.closed_minus, by simp⟩
    | false =>
      obtain ⟨c, rest, rfl, hc⟩ := h.first
      refine ⟨h.closed, ?_⟩
      have hne : c ≠ '-' := by
        rintro rfl
        cases hc
      simp [hne]
  have htext : ∀ s, Closed (Sql.textLiteral s).toList ∧
      ((Sql.textLiteral s).toList.head? = some '-' ↔ false) := by
    intro s
    refine ⟨.enclosed rfl s, ?_⟩
    rw [Sql.textLiteral, Sql.enclosed, String.toList_ofList]
    simp
  cases v with
  | null => exact ⟨hword "NULL" rfl, by decide⟩
  | bool b => cases b <;> exact ⟨hword _ rfl, by decide⟩
  | int n =>
    cases n with
    | ofNat n =>
      have hsigned : (Json.int (.ofNat n)).isSigned = false := by simp [isSigned]
      rw [hsigned, sqlLiteral, writeInt, writeNat, String.toList_ofList]
      exact hmagnitude false (.of_digits (Mode.digits_digitChars n))
    | negSucc n =>
      have hsigned : (Json.int (.negSucc n)).isSigned = true := by simp [isSigned]
      rw [hsigned, sqlLiteral, writeInt, writeNat, String.toList_append, String.toList_ofList,
        String.toList_ofList]
      exact hmagnitude true (.of_digits (Mode.digits_digitChars (n + 1)))
  | float x =>
    obtain ⟨cs, hcs, hx⟩ := x.exists_magnitude
    rw [sqlLiteral, hx]
    exact hmagnitude x.isSigned hcs
  | str _ | arr _ | obj _ => exact htext _

end StrictDdl
