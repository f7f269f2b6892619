import StrictDdl.Numeric.Writer
import StrictDdl.Proofs.Sqlite.Reader
import StrictDdl.Sql.Literal

/-! What the scanner makes of names, constants and numerals as they are written.

`Passes` follows the scanner from mode to mode through some characters, whatever comes
behind them. `Lexes` says which tokens a text is where one of some characters follows
it: a name ends at a dot, a numeral does not. Not every name and not every number is
read as the token it was written for (`Token.scanned`): the scanner drops a line break
behind a bare name, and it knows neither signs nor words as parts of a numeral. -/
namespace StrictDdl.Sqlite

/-- What a numeral without a sign is read as; without a digit at its front it is a word. -/
def Token.ofNumeral (cs : List Char) : Token :=
  if cs.head?.any isDigit then .fractional (String.ofList cs) else .ofWord cs

namespace Mode

/-! ### Modes and characters -/

theorem scan_cons (m : Mode) (c : Char) (rest : List Char) :
    m.scan (c :: rest) = (m.step c).bind fun r => (r.2.scan rest).map (r.1 ++ ·) := by
  rw [scan]
  cases m.step c with
  | none => rfl
  | some r => cases h : r.2.scan rest <;> simp [h]

/-- A character that ends what is being read starts something new. -/
theorem scan_of_leave {m : Mode} {c : Char} {ts : List Token} {rest : List Char}
    (hclose : m.close? = some ts) (hstep : m.step c = m.leave c) :
    m.scan (c :: rest) = (Mode.start.scan (c :: rest)).map (ts ++ ·) := by
  rw [scan_cons, scan_cons, hstep, leave, hclose]
  show _ = ((begin? c).bind _).map _
  cases begin? c with
  | none => rfl
  | some r =>
    simp only [Option.bind_eq_bind, Option.bind_some, Option.pure_def, Option.map_map]
    congr 1
    funext more
    simp

/-- From one mode to another through some characters, with the tokens read on the way. -/
def Passes (m : Mode) (cs : List Char) (ts : List Token) (m' : Mode) : Prop :=
  ∀ rest, m.scan (cs ++ rest) = (m'.scan rest).map (ts ++ ·)

namespace Passes

variable {m m' m'' : Mode} {u v : List Char} {ts ts' : List Token}

theorem nil : Passes m [] [] m := by
  intro rest
  simp

theorem trans (h : Passes m u ts m') (h' : Passes m' v ts' m'') :
    Passes m (u ++ v) (ts ++ ts') m'' := by
  intro rest
  rw [List.append_assoc, h, h', Option.map_map]
  congr 1
  funext more
  simp

theorem one {c : Char} (h : m.step c = some (ts, m')) : Passes m [c] ts m' := by
  intro rest
  rw [List.singleton_append, scan_cons, h, Option.bind_some]

theorem cons {c : Char} (h : m.step c = some (ts, m')) (h' : Passes m' v ts' m'') :
    Passes m (c :: v) (ts ++ ts') m'' := (one h).trans h'

/-- Characters that only add to what is being read. -/
theorem run (mode : List Char → Mode) (p : Char → Bool)
    (h : ∀ read c, p c → (mode read).step c = some ([], mode (read ++ [c])))
    (read cs : List Char) (hcs : ∀ c ∈ cs, p c) : Passes (mode read) cs [] (mode (read ++ cs)) := by
  induction cs generalizing read with
  | nil => simpa using nil
  | cons c cs ih =>
    have := ih (read ++ [c]) fun d hd => hcs d (List.mem_cons_of_mem c hd)
    simpa using cons (h read c (hcs c (List.mem_cons_self ..))) this

end Passes

/-- The tokens of a text where nothing follows it or a character of this kind. -/
def Lexes (ends : Char → Bool) (cs : List Char) (ts : List Token) : Prop :=
  ∀ rest, (∀ c ∈ rest.head?, ends c) →
    Mode.start.scan (cs ++ rest) = (Mode.start.scan rest).map (ts ++ ·)

namespace Lexes

variable {p q : Char → Bool} {u v : List Char} {ts ts' : List Token}

theorem mono (h : Lexes p u ts) (hq : ∀ c, q c → p c) : Lexes q u ts :=
  fun rest hrest => h rest fun c hc => hq c (hrest c hc)

theorem of_passes (h : Passes .start u ts .start) : Lexes p u ts := fun rest _ => h rest

/-- What is being read at the end is complete there. -/
theorem of_settles {m : Mode} (h : Passes .start u ts m) (hclose : m.close? = some ts')
    (hstep : ∀ c, p c → m.step c = m.leave c) : Lexes p u (ts ++ ts') := by
  intro rest hrest
  rw [h]
  cases rest with
  | nil =>
    show (m.close?).map _ = (Mode.start.close?).map _
    rw [hclose]
    simp [close?]
  | cons c rest => rw [scan_of_leave hclose (hstep c (hrest c rfl)), Option.map_map]; simp [Function.comp_def]

theorem append (h : Lexes p u ts) (h' : Lexes q v ts') (hne : v ≠ [])
    (hv : ∀ c ∈ v.head?, p c) : Lexes q (u ++ v) (ts ++ ts') := by
  intro rest hrest
  have hhead : ∀ c ∈ (v ++ rest).head?, p c := by
    obtain ⟨c, v, rfl⟩ := List.exists_cons_of_ne_nil hne
    exact hv
  rw [List.append_assoc, h _ hhead, h' rest hrest, Option.map_map]
  congr 1
  funext more
  simp

theorem behind (h : Passes .start u ts .start) (h' : Lexes q v ts') :
    Lexes q (u ++ v) (ts ++ ts') := by
  intro rest hrest
  rw [List.append_assoc, h, h' rest hrest, Option.map_map]
  congr 1
  funext more
  simp

end Lexes

/-- The characters behind a name. -/
def endsName (c : Char) : Bool := c = ' ' || c = ')' || c = ',' || c = '.'

/-- The characters behind an expression. -/
def endsExpr (c : Char) : Bool := c = ' ' || c = ')' || c = ','

theorem endsName_of_endsExpr (c : Char) (h : endsExpr c) : endsName c := by
  simp only [endsExpr, endsName, Bool.or_eq_true] at h ⊢
  exact .inl h

/-! ### Names and texts -/

theorem not_isDigit_of_isLetter {c : Char} (h : isLetter c) : isDigit c = false := by
  simp only [isLetter, isDigit, Bool.or_eq_true, Bool.and_eq_true, decide_eq_true_eq,
    Bool.and_eq_false_imp, decide_eq_false_iff_not, Char.le_def, UInt32.le_iff_toNat_le] at h ⊢
  intro _ hnine
  rcases h with (h | h) | rfl
  · exact absurd (Nat.le_trans h.1 hnine) (by decide)
  · exact absurd (Nat.le_trans h.1 hnine) (by decide)
  · exact absurd hnine (by decide)

/-- A character that is a letter or a digit is none of the others. -/
theorem begin?_of_isWord {c : Char} (h : isLetter c || isDigit c) :
    begin? c = some ([], if isDigit c then .whole [c] else .word [c]) := by
  have hne : ∀ d, (isLetter d || isDigit d) = false → c ≠ d := by
    rintro d hd rfl
    rw [h] at hd
    exact absurd hd (by decide)
  have hblank : isBlank c = false := by
    simp only [isBlank, Bool.or_eq_false_iff, decide_eq_false_iff_not]
    exact ⟨⟨⟨⟨hne _ (by decide), hne _ (by decide)⟩, hne _ (by decide)⟩, hne _ (by decide)⟩,
      hne _ (by decide)⟩
  rw [begin?, if_neg (by simp [hblank]), if_neg (hne _ (by decide)), if_neg (hne _ (by decide)),
    if_neg (hne _ (by decide)), if_neg (hne _ (by decide)), if_neg]
  · cases hdigit : isDigit c with
    | true => rfl
    | false =>
      rw [hdigit, Bool.or_false] at h
      simp [h]
  · simp only [Bool.or_eq_true, decide_eq_true_eq, not_or]
    exact ⟨hne _ (by decide), hne _ (by decide)⟩

theorem Passes.word {c : Char} {cs : List Char} (hc : isLetter c)
    (hcs : ∀ d ∈ cs, isLetter d || isDigit d) : Passes .start (c :: cs) [] (.word (c :: cs)) := by
  have hstart : Mode.start.step c = some ([], .word [c]) := by
    rw [step, begin?_of_isWord (by simp [hc]), not_isDigit_of_isLetter hc]
    rfl
  have hrun := Passes.run Mode.word (fun d => isLetter d || isDigit d)
    (fun read d hd => by simp only [step]; rw [if_pos hd]) [c] cs hcs
  exact .cons hstart hrun

theorem lexes_word {c : Char} {cs : List Char} (hc : isLetter c)
    (hcs : ∀ d ∈ cs, isLetter d || isDigit d) : Lexes endsName (c :: cs) [.ofWord (c :: cs)] := by
  refine Lexes.of_settles (Passes.word hc hcs) rfl fun d hd => ?_
  have hword : (isLetter d || isDigit d) = false := by
    simp only [endsName, Bool.or_eq_true, decide_eq_true_eq] at hd
    rcases hd with ((rfl | rfl) | rfl) | rfl <;> decide
  rw [step, if_neg (by simp [hword])]

/-- The scanner drops the line break. -/
theorem lexes_word_break {c : Char} {cs : List Char} (hc : isLetter c)
    (hcs : ∀ d ∈ cs, isLetter d || isDigit d) :
    Lexes endsName (c :: cs ++ ['\n']) [.ofWord (c :: cs)] :=
  .of_passes ((Passes.word hc hcs).trans (.one rfl))

theorem Passes.quoted (quote : Char) (read cs : List Char) :
    Passes (.quoted quote read) (Sql.doubled quote cs) [] (.quoted quote (read ++ cs)) := by
  induction cs generalizing read with
  | nil => simpa [Sql.doubled] using Passes.nil
  | cons c cs ih =>
    have hrest := ih (read ++ [c])
    rw [List.append_assoc, List.singleton_append] at hrest
    rw [Sql.doubled]
    split
    · rename_i hc
      subst hc
      have hfirst : (Mode.quoted c read).step c = some ([], .unquoted c read) := by simp [step]
      have hsecond : (Mode.unquoted c read).step c = some ([], .quoted c (read ++ [c])) := by
        simp [step]
      exact .cons hfirst (.cons hsecond hrest)
    · rename_i hc
      have hstep : (Mode.quoted quote read).step c = some ([], .quoted quote (read ++ [c])) := by
        simp [step, hc]
      exact .cons hstep hrest

theorem lexes_enclosed {p : Char → Bool} {quote : Char} (hquote : quote = '\'' ∨ quote = '"')
    (hp : ∀ c, p c → c ≠ quote) (s : String) :
    Lexes p (Sql.enclosed quote s).toList [.ofQuoted quote s.toList] := by
  have hopen : Mode.start.step quote = some ([], .quoted quote []) := by
    rcases hquote with rfl | rfl <;> rfl
  have hclose : (Mode.quoted quote s.toList).step quote = some ([], .unquoted quote s.toList) := by
    simp [step]
  have hpass : Passes .start (quote :: Sql.doubled quote s.toList ++ [quote]) []
      (.unquoted quote s.toList) :=
    Passes.cons hopen ((Passes.quoted quote [] s.toList).trans (.one hclose))
  rw [Sql.enclosed, String.toList_ofList]
  refine Lexes.of_settles hpass rfl fun c hc => ?_
  simp [step, hp c hc]

theorem lexes_textLiteral (s : String) : Lexes endsExpr (Sql.textLiteral s).toList [.text s] := by
  have hends : ∀ c, endsExpr c → c ≠ '\'' := by
    rintro c hc rfl
    exact absurd hc (by decide)
  have := lexes_enclosed (.inl rfl) hends s
  rwa [Token.ofQuoted, if_pos rfl, String.ofList_toList] at this

theorem lexes_quotedName (s : String) : Lexes endsName (Sql.enclosed '"' s).toList [.name s] := by
  have hends : ∀ c, endsName c → c ≠ '"' := by
    rintro c hc rfl
    exact absurd hc (by decide)
  have := lexes_enclosed (.inr rfl) hends s
  rwa [Token.ofQuoted, if_neg (by decide), String.ofList_toList] at this

/-- The word of a bare name, without the line break that may stand behind it. -/
def bareWord (name : String) : List Char :=
  if name.toList.getLast? = some '\n' then name.toList.dropLast else name.toList

theorem isBareRest_cases {cs : List Char} (h : Sql.isBareRest cs) :
    ∃ w, (∀ c ∈ w, isLetter c || isDigit c) ∧ (cs = w ∨ cs = w ++ ['\n']) := by
  induction cs with
  | nil => exact ⟨[], by simp, .inl rfl⟩
  | cons c cs ih =>
    unfold Sql.isBareRest at h
    split at h
    · rename_i heq
      exact absurd heq (by simp)
    · rename_i heq
      exact ⟨[], by simp, .inr heq⟩
    · rename_i heq
      obtain ⟨rfl, rfl⟩ := List.cons.inj heq
      simp only [Bool.and_eq_true] at h
      obtain ⟨w, hw, hcs⟩ := ih h.2
      refine ⟨c :: w, List.forall_mem_cons.2 ⟨h.1, hw⟩, ?_⟩
      rcases hcs with rfl | rfl
      · exact .inl rfl
      · exact .inr rfl

/-- A name that is not quoted is a word, or a word and a line break. -/
theorem bareWord_spec {name : String} (h : Sql.needsQuoting name = false) :
    ∃ c cs, bareWord name = c :: cs ∧ isLetter c ∧ (∀ d ∈ cs, isLetter d || isDigit d) ∧
      (name.toList = bareWord name ∨ name.toList = bareWord name ++ ['\n']) := by
  simp only [Sql.needsQuoting, Bool.or_eq_false_iff, Bool.not_eq_false'] at h
  have hbare := h.2
  unfold Sql.isBare at hbare
  split at hbare
  · exact absurd hbare (by simp)
  · rename_i c cs hname
    simp only [Bool.and_eq_true] at hbare
    obtain ⟨hc, hcs⟩ := hbare
    obtain ⟨w, hw, hcs⟩ := isBareRest_cases hcs
    refine ⟨c, w, ?_⟩
    have hlast : ∀ d ∈ c :: w, d ≠ '\n' := by
      rintro d hd rfl
      rcases List.mem_cons.1 hd with rfl | hd
      · exact absurd hc (by decide)
      · exact absurd (hw _ hd) (by decide)
    rcases hcs with rfl | rfl
    · have : bareWord name = c :: cs := by
        rw [bareWord, hname, if_neg]
        intro heq
        exact hlast _ (List.mem_of_getLast? heq) rfl
      exact ⟨this, hc, hw, .inl (by rw [hname, this])⟩
    · have : bareWord name = c :: w := by
        rw [bareWord, hname, if_pos (by simp [List.getLast?_cons])]
        rw [← List.cons_append, List.dropLast_concat]
      exact ⟨this, hc, hw, .inr (by rw [hname, this]; rfl)⟩

/-! ### Numerals -/

/-- Some digits. -/
def Digits (cs : List Char) : Prop := cs ≠ [] ∧ ∀ c ∈ cs, isDigit c

theorem digits_digitChars (n : Nat) : Digits (digitChars n) := by
  refine ⟨Nat.toDigits_ne_nil, fun c hc => ?_⟩
  have := Nat.isDigit_of_mem_toDigits (by decide) (by decide) hc
  simpa only [Char.isDigit, isDigit, Char.le_def, ge_iff_le] using this

theorem digits_zero : Digits ['0'] := ⟨by simp, by simp; decide⟩

theorem Digits.append {u v : List Char} (hu : Digits u) (hv : ∀ c ∈ v, isDigit c) :
    Digits (u ++ v) := by
  refine ⟨by simp [hu.1], fun c hc => ?_⟩
  rcases List.mem_append.1 hc with hc | hc
  · exact hu.2 c hc
  · exact hv c hc

theorem isDigit_of_mem_replicate {n : Nat} {c : Char} (h : c ∈ List.replicate n '0') :
    isDigit c := by
  rw [(List.mem_replicate.1 h).2]
  decide

theorem Passes.whole {ds : List Char} (h : Digits ds) : Passes .start ds [] (.whole ds) := by
  obtain ⟨c, ds, rfl⟩ := List.exists_cons_of_ne_nil h.1
  have hc := h.2 c (List.mem_cons_self ..)
  have hstart : Mode.start.step c = some ([], .whole [c]) := by
    rw [step, begin?_of_isWord (by simp [hc]), if_pos hc]
  have hrun := Passes.run Mode.whole isDigit
    (fun read d hd => by simp only [step]; rw [if_pos hd]) [c] ds
    fun d hd => h.2 d (List.mem_cons_of_mem c hd)
  exact .cons hstart hrun

theorem Passes.fraction {ds part : List Char} (h : Digits ds) (hpart : ∀ c ∈ part, isDigit c) :
    Passes .start (ds ++ '.' :: part) [] (.fraction (ds ++ '.' :: part)) := by
  have hpoint : (Mode.whole ds).step '.' = some ([], .fraction (ds ++ ['.'])) := rfl
  have hrun := Passes.run Mode.fraction isDigit
    (fun read d hd => by simp only [step]; rw [if_pos hd]) (ds ++ ['.']) part hpart
  rw [List.append_assoc, List.singleton_append] at hrun
  exact (Passes.whole h).trans (.cons hpoint hrun)

/-- The exponent behind a numeral. -/
theorem Passes.exponent {m : Mode} {read ds : List Char} {sign : Char}
    (hmark : m.step 'e' = some ([], .mark (read ++ ['e']))) (hsign : sign = '-' ∨ sign = '+')
    (hds : Digits ds) :
    Passes m ('e' :: sign :: ds) [] (.exponent (read ++ 'e' :: sign :: ds)) := by
  obtain ⟨c, ds, rfl⟩ := List.exists_cons_of_ne_nil hds.1
  have hsecond : (Mode.mark (read ++ ['e'])).step sign =
      some ([], .sign (read ++ ['e'] ++ [sign])) := by
    rcases hsign with rfl | rfl <;> rfl
  have hthird : (Mode.sign (read ++ ['e'] ++ [sign])).step c =
      some ([], .exponent (read ++ ['e'] ++ [sign] ++ [c])) := by
    simp only [step]
    rw [if_pos (hds.2 c (List.mem_cons_self ..))]
  have hrun := Passes.run Mode.exponent isDigit
    (fun read d hd => by simp only [step]; rw [if_pos hd]) (read ++ ['e'] ++ [sign] ++ [c]) ds
    fun d hd => hds.2 d (List.mem_cons_of_mem c hd)
  have := Passes.cons hmark (.cons hsecond (.cons hthird hrun))
  simpa using this

theorem lexes_whole (n : Nat) : Lexes endsExpr (writeNat n).toList [.whole n] := by
  have hvalue : Nat.ofDigitChars 10 (digitChars n) 0 = n := Nat.ofDigitChars_ten_toDigits
  rw [writeNat, String.toList_ofList]
  have hclose : (Mode.whole (digitChars n)).close? = some [.whole n] := by rw [close?, hvalue]
  refine Lexes.of_settles (Passes.whole (digits_digitChars n)) hclose fun c hc => ?_
  simp only [endsExpr, Bool.or_eq_true, decide_eq_true_eq] at hc
  rcases hc with (rfl | rfl) | rfl <;> rfl

/-- A numeral without a sign, or a word in its place. -/
structure Unsigned (cs : List Char) : Prop where
  head : ∃ c rest, cs = c :: rest ∧ (isLetter c || isDigit c)
  lexes : Lexes endsExpr cs [.ofNumeral cs]

theorem Unsigned.of_digits {ds v : List Char} (h : Digits ds)
    (hlexes : Lexes endsExpr (ds ++ v) [.fractional (String.ofList (ds ++ v))]) :
    Unsigned (ds ++ v) := by
  obtain ⟨c, ds, rfl⟩ := List.exists_cons_of_ne_nil h.1
  have hc := h.2 c (List.mem_cons_self ..)
  refine ⟨⟨c, ds ++ v, rfl, by simp [hc]⟩, ?_⟩
  rw [Token.ofNumeral, if_pos]
  · exact hlexes
  · exact hc

theorem Unsigned.of_word {c : Char} {cs : List Char} (hc : isLetter c)
    (hcs : ∀ d ∈ cs, isLetter d || isDigit d) : Unsigned (c :: cs) := by
  refine ⟨⟨c, cs, rfl, by simp [hc]⟩, ?_⟩
  rw [Token.ofNumeral, if_neg]
  · exact (lexes_word hc hcs).mono endsName_of_endsExpr
  · simp [not_isDigit_of_isLetter hc]

theorem unsigned_fraction {ds part : List Char} (h : Digits ds) (hpart : ∀ c ∈ part, isDigit c) :
    Unsigned (ds ++ '.' :: part) := by
  refine .of_digits h (Lexes.of_settles (Passes.fraction h hpart) rfl fun c hc => ?_)
  simp only [endsExpr, Bool.or_eq_true, decide_eq_true_eq] at hc
  rcases hc with (rfl | rfl) | rfl <;> rfl

theorem unsigned_exponent {ds v : List Char} (h : Digits ds)
    (hpass : Passes .start (ds ++ v) [] (.exponent (ds ++ v))) : Unsigned (ds ++ v) := by
  refine .of_digits h (Lexes.of_settles hpass rfl fun c hc => ?_)
  simp only [endsExpr, Bool.or_eq_true, decide_eq_true_eq] at hc
  rcases hc with (rfl | rfl) | rfl <;> rfl

theorem unsigned_positional {ds : List Char} (h : Digits ds) (leading : Int) :
    Unsigned (Binary64.positional ds leading) := by
  cases leading with
  | ofNat n =>
    have hwhole : Digits (ds.take (n + 1)) := by
      refine ⟨?_, fun c hc => h.2 c (List.mem_of_mem_take hc)⟩
      obtain ⟨c, ds, rfl⟩ := List.exists_cons_of_ne_nil h.1
      simp
    have hpart : ∀ c ∈ (if (ds.drop (n + 1)).isEmpty then ['0'] else ds.drop (n + 1)), isDigit c := by
      intro c hc
      split at hc
      · rw [List.mem_singleton.1 hc]
        decide
      · exact h.2 c (List.mem_of_mem_drop hc)
    exact unsigned_fraction (hwhole.append fun c => isDigit_of_mem_replicate) hpart
  | negSucc n =>
    refine unsigned_fraction digits_zero fun c hc => ?_
    rcases List.mem_append.1 hc with hc | hc
    · exact isDigit_of_mem_replicate hc
    · exact h.2 c hc

theorem unsigned_scientific {ds : List Char} (h : Digits ds) (leading : Int) :
    Unsigned (Binary64.scientific ds leading) := by
  have hsign : (if leading < 0 then '-' else '+') = '-' ∨
      (if leading < 0 then '-' else '+') = '+' := by
    split
    · exact .inl rfl
    · exact .inr rfl
  have hdigits := digits_digitChars leading.natAbs
  have hexponent : Digits (Binary64.pad 2 (digitChars leading.natAbs)) := by
    refine ⟨by simp [Binary64.pad, hdigits.1], fun c hc => ?_⟩
    rcases List.mem_append.1 hc with hc | hc
    · exact isDigit_of_mem_replicate hc
    · exact hdigits.2 c hc
  match ds, h with
  | [d], h => exact unsigned_exponent h ((Passes.whole h).trans (.exponent rfl hsign hexponent))
  | d :: d' :: ds, h =>
    have hfirst : Digits [d] := ⟨by simp, by simpa using h.2 d (by simp)⟩
    have hrest : ∀ c ∈ d' :: ds, isDigit c := fun c hc => h.2 c (List.mem_cons_of_mem d hc)
    have hfraction := Passes.fraction hfirst hrest
    have := hfraction.trans (.exponent rfl hsign hexponent)
    rw [List.append_assoc] at this
    have hunsigned := unsigned_exponent hfirst this
    exact hunsigned

/-- A number is written as a sign, if it has one, and a numeral or a word. -/
theorem exists_unsigned (x : Binary64) : ∃ (negative : Bool) (cs : List Char),
    (x.write .plain).toList = (if negative then ['-'] else []) ++ cs ∧ Unsigned cs := by
  cases x with
  | nan => exact ⟨false, "nan".toList, rfl, .of_word (by decide) (List.all_eq_true.mp rfl)⟩
  | infinite negative =>
    refine ⟨negative, "inf".toList, ?_, .of_word (by decide) (List.all_eq_true.mp rfl)⟩
    cases negative <;> rfl
  | finite negative m e =>
    have hsign : ∀ cs, ((if negative then "-" else "") ++ String.ofList cs).toList =
        (if negative then ['-'] else []) ++ cs := by
      intro cs
      rw [String.toList_append, String.toList_ofList]
      cases negative <;> rfl
    refine ⟨negative, _, hsign _, ?_⟩
    split
    · exact unsigned_fraction digits_zero digits_zero.2
    · simp only
      split
      · exact unsigned_positional (digits_digitChars _) _
      · exact unsigned_scientific (digits_digitChars _) _

theorem Unsigned.lexes_minus {cs : List Char} (h : Unsigned cs) :
    Lexes endsExpr ('-' :: cs) [.symbol .minus, .ofNumeral cs] := by
  obtain ⟨c, rest, rfl, hc⟩ := h.head
  have hminus : c ≠ '-' := by
    rintro rfl
    exact absurd hc (by decide)
  have hleave : (Mode.symbol '-').step c = (Mode.symbol '-').leave c := by
    have hdouble : double? '-' c = none := rfl
    simp [step, opensComment, hminus, hdouble]
  intro more hmore
  have hsign : Mode.start.step '-' = some ([], .symbol '-') := rfl
  rw [List.cons_append, scan_cons, hsign, Option.bind_some, List.cons_append,
    scan_of_leave rfl hleave, ← List.cons_append, h.lexes more hmore, Option.map_map, Option.map_map]
  rfl

end Mode

/-! ### What tokens are read as -/

namespace Token

/-- What the scanner reads where a token was written. -/
def scanned : Token → List Token
  | .name s => if Sql.needsQuoting s then [.name s] else [.ofWord (Mode.bareWord s)]
  | .fractional numeral =>
    match numeral.toList with
    | '-' :: cs => [.symbol .minus, .ofNumeral cs]
    | cs => [.ofNumeral cs]
  | t => [t]

theorem scanned_ne_nil (t : Token) : t.scanned ≠ [] := by
  unfold scanned
  split
  · split <;> simp
  · split <;> simp
  · simp

/-- A token that is read as it was written. All tokens are but numbers that do not start
with a digit (`isPlain_fractional_iff`) and bare names with a line break at the end
(`isPlain_name_iff`). -/
def IsPlain (t : Token) : Prop := t.scanned = [t]

theorem ofWord_ne_fractional (cs : List Char) (numeral : String) :
    ofWord cs ≠ .fractional numeral := by
  unfold ofWord
  split <;> simp

theorem isPlain_fractional_iff (numeral : String) :
    IsPlain (.fractional numeral) ↔ numeral.toList.head?.any isDigit := by
  rw [IsPlain, scanned]
  split
  · rename_i cs heq
    rw [heq]
    simp [show isDigit '-' = false from rfl]
  · rename_i cs _
    rw [ofNumeral]
    split
    · rename_i hdigit
      simp [hdigit]
    · rename_i hdigit
      simp [hdigit, ofWord_ne_fractional]

theorem lowerFrom_ascii (before cs : List Char) (h : ∀ c ∈ cs, c.toNat < 128) :
    LetterCase.lowerFrom before cs = cs.map Char.toLower := by
  induction cs generalizing before with
  | nil => rfl
  | cons c cs ih =>
    rw [LetterCase.lowerFrom, ih _ fun d hd => h d (List.mem_cons_of_mem c hd),
      LetterCase.lowerChar, if_pos (h c (List.mem_cons_self ..))]
    rfl

theorem toNat_lt_of_isWord {c : Char} (h : isLetter c || isDigit c) : c.toNat < 128 := by
  simp only [isLetter, isDigit, Bool.or_eq_true, Bool.and_eq_true, decide_eq_true_eq, Char.le_def,
    UInt32.le_iff_toNat_le] at h
  rcases h with ((h | h) | rfl) | h
  · exact Nat.lt_of_le_of_lt h.2 (by decide)
  · exact Nat.lt_of_le_of_lt h.2 (by decide)
  · decide
  · exact Nat.lt_of_le_of_lt h.2 (by decide)

/-- A keyword of expressions is a keyword that names may not be. -/
theorem mem_keywords_of_ofWord? {w : List Char} {k : Keyword} (h : Keyword.ofWord? w = some k) :
    String.ofList (w.map Char.toLower) ∈ Sql.keywords := by
  have hall : ∀ p ∈ Keyword.words, String.ofList p.1 ∈ Sql.keywords := by decide
  obtain ⟨before, after, hwords, _⟩ := List.lookup_eq_some_iff.1 h
  exact hall (w.map Char.toLower, k) (by simp [hwords])

/-- A name that is no keyword is not read as one. -/
theorem ofWord_bare {s : String} (h : Sql.needsQuoting s = false)
    (hs : s.toList = Mode.bareWord s) : ofWord s.toList = .name s := by
  obtain ⟨c, cs, hword, hc, hcs, _⟩ := Mode.bareWord_spec h
  rw [ofWord]
  split
  · rename_i k hk
    have hascii : ∀ d ∈ s.toList, d.toNat < 128 := by
      rw [hs, hword]
      exact List.forall_mem_cons.2
        ⟨toNat_lt_of_isWord (by simp [hc]), fun d hd => toNat_lt_of_isWord (hcs d hd)⟩
    have hkey : Sql.isKeyword s = true := by
      rw [Sql.isKeyword, LetterCase.lower, lowerFrom_ascii [] _ hascii]
      simpa using mem_keywords_of_ofWord? hk
    simp [Sql.needsQuoting, hkey] at h
  · rw [String.ofList_toList]

theorem isPlain_name_iff (s : String) :
    IsPlain (.name s) ↔ Sql.needsQuoting s ∨ s.toList.getLast? ≠ some '\n' := by
  rw [IsPlain, scanned]
  cases h : Sql.needsQuoting s with
  | true => simp
  | false =>
    simp only [Bool.false_eq_true, if_false, List.cons.injEq, and_true, false_or]
    obtain ⟨c, cs, hword, hc, hcs, hs⟩ := Mode.bareWord_spec h
    constructor
    · intro heq hlast
      rw [Mode.bareWord, if_pos hlast] at heq
      have hname : String.ofList s.toList.dropLast = s := by
        unfold ofWord at heq
        split at heq
        · cases heq
        · exact Token.name.inj heq
      have hlen := congrArg (fun t => t.toList.length) hname
      simp only [String.toList_ofList, List.length_dropLast] at hlen
      have : s.toList = [] := List.length_eq_zero_iff.1 (by omega)
      simp [this] at hlast
    · intro hlast
      have hself : Mode.bareWord s = s.toList := by rw [Mode.bareWord, if_neg hlast]
      rw [hself]
      exact ofWord_bare h hself.symm

end Token

namespace Mode

theorem lexes_identifier (s : String) :
    Lexes endsName (Sql.identifier s).toList (Token.name s).scanned := by
  rw [Sql.identifier, Token.scanned]
  cases hquote : Sql.needsQuoting s with
  | true => exact lexes_quotedName s
  | false =>
    obtain ⟨c, cs, hword, hc, hcs, hs⟩ := bareWord_spec hquote
    simp only [Bool.false_eq_true, if_false]
    rw [hword] at hs ⊢
    rcases hs with hs | hs
    · rw [hs]
      exact lexes_word hc hcs
    · rw [hs]
      exact lexes_word_break hc hcs

theorem lexes_number (x : Binary64) :
    Lexes endsExpr (x.write .plain).toList (Token.fractional (x.write .plain)).scanned := by
  obtain ⟨negative, cs, hx, hcs⟩ := exists_unsigned x
  rw [Token.scanned, hx]
  cases negative with
  | true => exact hcs.lexes_minus
  | false =>
    obtain ⟨c, rest, rfl, hc⟩ := hcs.head
    have hminus : c ≠ '-' := by
      rintro rfl
      exact absurd hc (by decide)
    simp only [Bool.false_eq_true, if_false, List.nil_append]
    split
    · rename_i heq
      exact absurd (List.cons.inj heq).1 hminus
    · exact hcs.lexes

end Mode

end StrictDdl.Sqlite
