import Mediation.Proofs.Yaml.Cursor
import Mediation.Yaml.Scalar

/-!
# Quoted scalars are read as they are written

Between double quotes any text is read back. Between single quotes a text is
read back unless it holds a line feed, or a space beside a line break.
-/

namespace Mediation.Yaml

/-! ### Double quotes -/

theorem readDouble_skip (skipped cs : List Char) (p : Pending) (column : Nat) :
    readDouble skipped.length p column (skipped ++ cs) =
      readDouble 0 p (column + skipped.length) cs := by
  induction skipped generalizing column with
  | nil => rfl
  | cons c skipped ih =>
    rw [List.length_cons, List.cons_append, readDouble, ih]
    congr 1
    omega

theorem readDouble_escape {e x : Char} (hbreak : isBreak e = false) (hwidth : escapeWidth? e = none)
    (hx : escape? e = some x) (p : Pending) (column : Nat) (cs : List Char) :
    readDouble 0 p column ('\\' :: e :: cs) =
      (readDouble 0 .none (column + 2) cs).map (.prepend (p.fold ++ [x])) := by
  simp [readDouble, hbreak, hwidth, hx]

theorem hexChar?_upperDigits {width : Nat} {c : Char} (h : c.toNat < 16 ^ width) (cs : List Char) :
    hexChar? width (Radix.upperDigits width c.toNat ++ cs) = some c := by
  have hlength := Radix.length_upperDigits width c.toNat
  have htake : (Radix.upperDigits width c.toNat ++ cs).take width =
      Radix.upperDigits width c.toNat := by
    rw [List.take_append_of_le_length (Nat.le_of_eq hlength.symm), List.take_of_length_le
      (Nat.le_of_eq hlength)]
  have hvalid : c.toNat.isValidChar := c.valid
  simp only [hexChar?, htake, hlength, Radix.number?_upperDigits width _ h, if_true,
    Option.bind_some, charOf?, hvalid, Char.ofNat_toNat]

theorem readDouble_hexEscape {e c : Char} {width : Nat} (hbreak : isBreak e = false)
    (hwidth : escapeWidth? e = some width) (h : c.toNat < 16 ^ width) (p : Pending) (column : Nat)
    (cs : List Char) :
    readDouble 0 p column ('\\' :: e :: (Radix.upperDigits width c.toNat ++ cs)) =
      (readDouble 0 .none (column + 2 + width) cs).map (.prepend (p.fold ++ [c])) := by
  have hskip := readDouble_skip (Radix.upperDigits width c.toNat) cs .none (column + 2)
  rw [Radix.length_upperDigits] at hskip
  simp [readDouble, hbreak, hwidth, hexChar?_upperDigits h, hskip]

/-- A character is read from its escape. -/
theorem readDouble_escapeOf (c : Char) (p : Pending) (column : Nat) (cs : List Char) :
    ∃ column', column < column' ∧ readDouble 0 p column ('\\' :: escapeOf c ++ cs) =
      (readDouble 0 .none column' cs).map (.prepend (p.fold ++ [c])) := by
  unfold escapeOf
  split
  case h_16 =>
    have hhex {e : Char} {width : Nat} (hbreak : isBreak e = false)
        (hwidth : escapeWidth? e = some width) (h : c.toNat < 16 ^ width) :
        ∃ column', column < column' ∧
          readDouble 0 p column ('\\' :: (e :: Radix.upperDigits width c.toNat) ++ cs) =
            (readDouble 0 .none column' cs).map (.prepend (p.fold ++ [c])) :=
      ⟨_, by omega, readDouble_hexEscape hbreak hwidth h p column cs⟩
    unfold hexEscape
    dsimp only
    split
    next h => exact hhex (by decide) rfl (by omega)
    split
    next h => exact hhex (by decide) rfl (by omega)
    next =>
      have hlt : c.toNat < 2 ^ 32 := c.val.toNat_lt
      exact hhex (by decide) rfl (by omega)
  all_goals exact ⟨column + 2, by omega, readDouble_escape (by decide) rfl rfl p column cs⟩

/-- A character between double quotes. -/
def doubleChar (c : Char) : List Char := if isVerbatim c then [c] else '\\' :: escapeOf c

theorem readDouble_verbatim {c : Char} (h : isVerbatim c = true) (hspace : c ≠ ' ') (p : Pending)
    {column : Nat} (hcolumn : 0 < column) (cs : List Char) :
    readDouble 0 p column (c :: cs) =
      (readDouble 0 .none (column + 1) cs).map (.prepend (p.fold ++ [c])) := by
  simp only [isVerbatim, Bool.and_eq_true, Bool.not_eq_true', decide_eq_true_eq, ne_eq] at h
  obtain ⟨⟨⟨hprint, hbreak⟩, hquote⟩, hslash⟩ := h
  have hmark : isMark column (c :: cs) = false := by simp [isMark, Nat.ne_of_gt hcolumn]
  rw [readDouble.eq_def]
  simp [hslash, not_isSpace_of_isPrintable hprint hspace, hbreak, hmark]

theorem readDouble_doubleChar {c : Char} (hspace : c ≠ ' ') (p : Pending) {column : Nat}
    (hcolumn : 0 < column) (cs : List Char) :
    ∃ column', 0 < column' ∧ readDouble 0 p column (doubleChar c ++ cs) =
      (readDouble 0 .none column' cs).map (.prepend (p.fold ++ [c])) := by
  unfold doubleChar
  split
  next hverbatim =>
    exact ⟨column + 1, by omega, readDouble_verbatim hverbatim hspace p hcolumn cs⟩
  next =>
    obtain ⟨column', hlt, hread⟩ := readDouble_escapeOf c p column cs
    exact ⟨column', by omega, hread⟩

/-- Spaces are held back until another character follows, or the quote. -/
theorem readDouble_chars (cs rest spaces : List Char) {column : Nat} (hcolumn : 0 < column) :
    ∃ column', readDouble 0 (.spaces spaces) column (cs.flatMap doubleChar ++ '"' :: rest) =
      some ⟨spaces ++ cs, ⟨rest, column', false⟩⟩ := by
  induction cs generalizing spaces column with
  | nil => exact ⟨column + 1, by simp [readDouble, Pending.fold]⟩
  | cons c cs ih =>
    rw [List.flatMap_cons, List.append_assoc]
    by_cases hspace : c = ' '
    · subst hspace
      obtain ⟨column', hread⟩ := ih (spaces ++ [' ']) (Nat.succ_pos column)
      rw [List.append_assoc] at hread
      refine ⟨column', ?_⟩
      rw [← List.singleton_append (l := cs), ← hread]
      simp [doubleChar, isVerbatim, isPrintable, isBreak, readDouble, isSpace, Pending.space]
    · obtain ⟨column₁, hcolumn₁, hchar⟩ := readDouble_doubleChar hspace (.spaces spaces) hcolumn
        (cs.flatMap doubleChar ++ '"' :: rest)
      obtain ⟨column', hread⟩ := ih [] hcolumn₁
      refine ⟨column', ?_⟩
      rw [hchar, Pending.none, hread]
      simp [Scanned.prepend, Pending.fold]

/-- Between double quotes any text is read back. -/
theorem readDouble_doubleQuoted (cs rest : List Char) {column : Nat} (hcolumn : 0 < column) :
    ∃ column', readDouble 0 .none column ((doubleQuoted cs).tail ++ rest) =
      some ⟨cs, ⟨rest, column', false⟩⟩ := by
  obtain ⟨column', hread⟩ := readDouble_chars cs rest [] hcolumn
  have htail : (doubleQuoted cs).tail = cs.flatMap doubleChar ++ ['"'] := rfl
  refine ⟨column', ?_⟩
  rw [htail, List.append_assoc, List.singleton_append, Pending.none, hread, List.nil_append]

theorem printable_upperDigits (width n : Nat) : Printable (Radix.upperDigits width n) := by
  induction width generalizing n with
  | zero => exact printable_nil
  | succ width ih =>
    have key : ∀ d, d < 16 → isPrintable (Radix.upperDigit d) = true := by decide
    simp [Radix.upperDigits, ih, key _ (Nat.mod_lt n (by decide))]

theorem printable_escapeOf (c : Char) : Printable (escapeOf c) := by
  unfold escapeOf
  split
  case h_16 =>
    have hmark : isPrintable 'x' = true ∧ isPrintable 'u' = true ∧ isPrintable 'U' = true := by
      decide
    unfold hexEscape
    dsimp only
    split
    · simp [printable_upperDigits, hmark]
    split <;> simp [printable_upperDigits, hmark]
  all_goals
    rw [printable_cons]
    exact ⟨by decide, printable_nil⟩

theorem printable_doubleChar (c : Char) : Printable (doubleChar c) := by
  unfold doubleChar
  split
  next h =>
    simp only [isVerbatim, Bool.and_eq_true] at h
    simp [h.1.1.1]
  next =>
    rw [printable_cons]
    exact ⟨by decide, printable_escapeOf c⟩

theorem printable_doubleQuoted (cs : List Char) : Printable (doubleQuoted cs) := by
  have hquote : isPrintable '"' = true := by decide
  have hchars : Printable (cs.flatMap doubleChar) := by
    intro c hc
    obtain ⟨d, -, hd⟩ := List.mem_flatMap.mp hc
    exact printable_doubleChar d c hd
  have hwritten : doubleQuoted cs = '"' :: cs.flatMap doubleChar ++ ['"'] := rfl
  simp [hwritten, hquote, hchars]

/-! ### Single quotes -/

theorem readSingle_quote (p : Pending) (column : Nat) (cs : List Char) :
    readSingle p column ('\'' :: '\'' :: cs) =
      (readSingle .none (column + 2) cs).map (.prepend (p.fold ++ ['\''])) := by
  rw [readSingle]

theorem readSingle_end (p : Pending) (column : Nat) (cs : List Char) :
    readSingle p column ('\'' :: '\n' :: cs) = some ⟨p.fold, ⟨'\n' :: cs, column + 1, false⟩⟩ := by
  rw [readSingle]
  rintro r ⟨⟩

theorem readSingle_char {p : Pending} {column : Nat} {c : Char} (hquote : c ≠ '\'')
    (cs : List Char) :
    readSingle p column (c :: cs) =
      if isSpace c then readSingle (p.space c) (column + 1) cs
      else if isBreak c then readSingle (p.lineBreak c) 0 cs
      else if isMark column (c :: cs) then none
      else (readSingle .none (column + 1) cs).map (.prepend (p.fold ++ [c])) := by
  rw [readSingle.eq_def]
  split
  next heq => cases heq
  next heq =>
    cases heq
    exact absurd rfl hquote
  next heq =>
    cases heq
    exact absurd rfl hquote
  next heq =>
    cases heq
    rfl

theorem readSingle_spaces (n : Nat) (first more : List Char) (column : Nat) (cs : List Char) :
    readSingle (.breaks first more) column (List.replicate n ' ' ++ cs) =
      readSingle (.breaks first more) (column + n) cs := by
  induction n generalizing column with
  | zero => rfl
  | succ n ih =>
    rw [List.replicate_succ, List.cons_append, readSingle_char (by decide)]
    simp [isSpace, Pending.space, ih]
    congr 1
    omega

/-- In front of a character that is not white space a line that goes on is indented. -/
theorem readSingle_indent {indent : Nat} (hindent : 0 < indent) (p : Pending) {column : Nat}
    (hcolumn : p.hasBreak = true ∨ 0 < column) (cs : List Char) :
    ∃ column', 0 < column' ∧
      readSingle p column ((if p.hasBreak then List.replicate indent ' ' else []) ++ cs) =
        readSingle p column' cs := by
  cases p with
  | spaces spaces => exact ⟨column, by simpa [Pending.hasBreak] using hcolumn, rfl⟩
  | breaks first more =>
    exact ⟨column + indent, by omega, readSingle_spaces indent first more column cs⟩

theorem hasPair_cons {f g : Char → Bool} {c : Char} {cs : List Char}
    (h : hasPair f g (c :: cs) = false) :
    hasPair f g cs = false ∧ (f c = true → ∀ d, cs.head? = some d → g d = false) := by
  cases cs with
  | nil => exact ⟨rfl, fun _ d hd => nomatch hd⟩
  | cons d cs =>
    simp only [hasPair, Bool.or_eq_false_iff, Bool.and_eq_false_imp] at h
    refine ⟨h.2, fun hf x hx => ?_⟩
    obtain rfl : d = x := Option.some.inj hx
    exact h.1 hf

/-- White space before a text that comes to itself: spaces before no line break,
or line breaks other than a line feed before no space. -/
def Pending.Stands (p : Pending) (cs : List Char) : Prop :=
  match p with
  | .spaces held => held ≠ [] → ∀ c, cs.head? = some c → isBreak c = false
  | .breaks first _ => first ≠ ['\n'] ∧ cs.head? ≠ some ' '

theorem Pending.Stands.lineBreak {p : Pending} {c : Char} {cs : List Char} (h : p.Stands (c :: cs))
    (hc : isBreak c = true) (hfeed : c ≠ '\n') (hcs : cs.head? ≠ some ' ') :
    (p.lineBreak c).Stands cs ∧ (p.lineBreak c).fold = p.fold ++ [c] ∧
      (p.lineBreak c).hasBreak = true := by
  cases p with
  | spaces held =>
    cases held with
    | nil => simp [Pending.lineBreak, Pending.Stands, Pending.fold, Pending.hasBreak, hfeed, hcs]
    | cons s held =>
      have hbreak : isBreak c = false := h (by simp) c rfl
      rw [hc] at hbreak
      cases hbreak
  | breaks first more =>
    simp [Pending.lineBreak, Pending.Stands, Pending.fold, Pending.hasBreak, h.1, hcs]

theorem readSingle_other {c : Char} (hc : isPrintable c = true) (hbreak : isBreak c = false)
    (hspace : c ≠ ' ') (p : Pending) {column : Nat} (hcolumn : 0 < column) (cs : List Char) :
    ∃ column', 0 < column' ∧ readSingle p column ((if c = '\'' then ['\'', '\''] else [c]) ++ cs) =
      (readSingle .none column' cs).map (.prepend (p.fold ++ [c])) := by
  by_cases hquote : c = '\''
  · subst hquote
    exact ⟨column + 2, by omega, readSingle_quote p column cs⟩
  · have hmark : isMark column (c :: cs) = false := by simp [isMark, Nat.ne_of_gt hcolumn]
    refine ⟨column + 1, by omega, ?_⟩
    rw [if_neg hquote, List.singleton_append, readSingle_char hquote]
    simp [not_isSpace_of_isPrintable hc hspace, hbreak, hmark]

/-- Between single quotes a text is read back that holds no line feed, and no
space beside a line break. -/
theorem readSingle_writeSingle {indent : Nat} (hindent : 0 < indent) {cs : List Char}
    (hprint : Printable cs) (hfeed : '\n' ∉ cs)
    (hends : hasPair (· = ' ') isBreak cs = false) (hbegins : hasPair isBreak (· = ' ') cs = false)
    (rest : List Char) {p : Pending} (hp : p.Stands cs) (column : Nat)
    (hcolumn : p.hasBreak = true ∨ 0 < column) :
    ∃ column', readSingle p column (writeSingle indent p.hasBreak cs ++ '\n' :: rest) =
      some ⟨p.fold ++ cs, ⟨'\n' :: rest, column', false⟩⟩ := by
  induction cs generalizing p column with
  | nil =>
    obtain ⟨column₁, -, hindented⟩ :=
      readSingle_indent hindent p hcolumn ('\'' :: '\n' :: rest)
    refine ⟨column₁ + 1, ?_⟩
    rw [writeSingle, List.append_assoc, List.singleton_append, hindented, readSingle_end,
      List.append_nil]
  | cons c cs ih =>
    obtain ⟨hc, hmore⟩ := printable_cons.mp hprint
    have hcfeed : c ≠ '\n' := fun heq => hfeed (heq ▸ List.mem_cons_self ..)
    obtain ⟨hends, hend⟩ := hasPair_cons hends
    obtain ⟨hbegins, hbegin⟩ := hasPair_cons hbegins
    replace ih := @ih hmore (fun hmem => hfeed (List.mem_cons_of_mem c hmem)) hends hbegins
    -- white space is pending until another character stands behind it, or the quote
    by_cases hbreak : isBreak c = true
    · have hquote : c ≠ '\'' := by
        rintro rfl
        cases hbreak
      have hspace : isSpace c = false :=
        not_isSpace_of_isPrintable hc (by rintro rfl; cases hbreak)
      have hhead : cs.head? ≠ some ' ' := fun hhead => by simpa using hbegin hbreak ' ' hhead
      obtain ⟨hstands, hfold, hpending⟩ := hp.lineBreak hbreak hcfeed hhead
      obtain ⟨column', hread⟩ := ih hstands 0 (.inl hpending)
      rw [hpending, hfold, List.append_assoc, List.singleton_append] at hread
      refine ⟨column', ?_⟩
      simp only [writeSingle, hbreak, if_true, List.cons_append, readSingle_char hquote, hspace]
      simpa using hread
    · have hbreak : isBreak c = false := by simpa using hbreak
      have hwrite : writeSingle indent p.hasBreak (c :: cs) ++ '\n' :: rest =
          (if p.hasBreak then List.replicate indent ' ' else []) ++
            ((if c = '\'' then ['\'', '\''] else [c]) ++
              (writeSingle indent false cs ++ '\n' :: rest)) := by
        simp [writeSingle, hbreak]
      obtain ⟨column₁, hcolumn₁, hindented⟩ := readSingle_indent hindent p hcolumn
        ((if c = '\'' then ['\'', '\''] else [c]) ++
          (writeSingle indent false cs ++ '\n' :: rest))
      rw [hwrite, hindented]
      by_cases hspace : c = ' '
      · subst hspace
        cases p with
        | breaks first more => exact absurd rfl hp.2
        | spaces held =>
          have hstands : (Pending.spaces (held ++ [' '])).Stands cs := fun _ => hend rfl
          obtain ⟨column', hread⟩ := ih hstands (column₁ + 1) (.inr (by omega))
          refine ⟨column', ?_⟩
          rw [if_neg (by decide), List.singleton_append, readSingle_char (by decide)]
          simpa [isSpace, Pending.space, Pending.fold, Pending.hasBreak] using hread
      · obtain ⟨column₂, hcolumn₂, hother⟩ := readSingle_other hc hbreak hspace p hcolumn₁
          (writeSingle indent false cs ++ '\n' :: rest)
        have hnone : Pending.none.Stands cs := fun hne => absurd rfl hne
        obtain ⟨column', hread⟩ := ih hnone column₂ (.inr hcolumn₂)
        refine ⟨column', ?_⟩
        rw [Pending.none, Pending.hasBreak] at hread
        rw [hother, Pending.none, hread]
        simp [Scanned.prepend, Pending.fold]

theorem printable_singleQuoted {cs : List Char} (h : Printable cs) (indent : Nat) :
    Printable (singleQuoted indent cs) := by
  have hquote : isPrintable '\'' = true := by decide
  have hwrite (afterBreak : Bool) : Printable (writeSingle indent afterBreak cs) := by
    induction cs generalizing afterBreak with
    | nil => cases afterBreak <;> simp [writeSingle, hquote]
    | cons c cs ih =>
      rw [printable_cons] at h
      have hchar : Printable (if c = '\'' then ['\'', '\''] else [c]) := by
        split <;> simp [hquote, h.1]
      cases afterBreak <;> by_cases hbreak : isBreak c = true <;>
        simp [writeSingle, hbreak, h.1, hchar, ih h.2]
  simp [singleQuoted, hquote, hwrite]

end Mediation.Yaml
