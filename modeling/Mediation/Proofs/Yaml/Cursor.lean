import Mediation.Yaml.Quoted

/-!
# Words and lines

A block is written in lines that begin with a word. Behind a value reading goes
on at the beginning of the next line, which is not indented as far as the value
might be.
-/

namespace Mediation.Yaml

/-! ### Characters -/

def isWordChar (c : Char) : Bool := Decimal.isDigit c || ('a' ≤ c && c ≤ 'z') || c = '_'

theorem toNat_lt_of_isWordChar {c : Char} (h : isWordChar c = true) : c.toNat < 128 := by
  simp only [isWordChar, Decimal.isDigit, Bool.or_eq_true, Bool.and_eq_true, decide_eq_true_eq,
    Char.le_def, UInt32.le_iff_toNat_le] at h
  have hval : c.toNat = c.val.toNat := rfl
  have hdigit : ('9'.val).toNat = 57 := rfl
  have hlower : ('z'.val).toNat = 122 := rfl
  rcases h with (⟨-, h⟩ | ⟨-, h⟩) | rfl
  · omega
  · omega
  · decide

/-- What holds of the word characters of ASCII holds of all. -/
theorem of_isWordChar {P : Char → Prop}
    (key : ∀ n, n < 128 → isWordChar (Char.ofNat n) = true → P (Char.ofNat n)) {c : Char}
    (h : isWordChar c = true) : P c := by
  have hc := key c.toNat (toNat_lt_of_isWordChar h)
  rw [Char.ofNat_toNat] at hc
  exact hc h

theorem not_isBreak_of_isWordChar {c : Char} (h : isWordChar c = true) : isBreak c = false :=
  of_isWordChar (P := (isBreak · = false)) (by decide) h

theorem not_isSpace_of_isWordChar {c : Char} (h : isWordChar c = true) : isSpace c = false :=
  of_isWordChar (P := (isSpace · = false)) (by decide) h

theorem isPrintable_of_isWordChar {c : Char} (h : isWordChar c = true) : isPrintable c = true :=
  of_isWordChar (P := (isPrintable · = true)) (by decide) h

theorem ne_of_isWordChar {c d : Char} (h : isWordChar c = true) (hd : isWordChar d = false) :
    c ≠ d := by
  rintro rfl
  rw [h] at hd
  cases hd

theorem not_isSpace_of_isPrintable {c : Char} (h : isPrintable c = true) (hc : c ≠ ' ') :
    isSpace c = false := by
  have htab : c ≠ '\t' := by
    rintro rfl
    cases h
  simp [isSpace, hc, htab]

/-! ### Printable texts -/

def Printable (cs : List Char) : Prop := ∀ c ∈ cs, isPrintable c = true

@[simp] theorem printable_nil : Printable [] := nofun

@[simp] theorem printable_cons {c : Char} {cs : List Char} :
    Printable (c :: cs) ↔ isPrintable c = true ∧ Printable cs :=
  List.forall_mem_cons

@[simp] theorem printable_append {cs ds : List Char} :
    Printable (cs ++ ds) ↔ Printable cs ∧ Printable ds :=
  List.forall_mem_append

@[simp] theorem printable_spaces (n : Nat) : Printable (List.replicate n ' ') := by
  intro c hc
  rw [List.eq_of_mem_replicate hc]
  decide

@[simp] theorem isPrintable_break : isPrintable '\n' = true := by decide

/-! ### Gaps -/

/-- Where reading goes on at the beginning of a line. -/
def lineStart (cs : List Char) : Cursor := (Cursor.start cs).next false

theorem next_break (column : Nat) (fresh : Bool) (cs : List Char) :
    (⟨'\n' :: cs, column, fresh⟩ : Cursor).next false = lineStart cs := by
  simp [Cursor.next, lineStart, Cursor.start, skipGap, isBreak]

theorem skipGap_space (fresh : Bool) (column : Nat) (cs : List Char) :
    skipGap false fresh false column (' ' :: cs) = skipGap false fresh false (column + 1) cs := by
  have hbreak : isBreak ' ' = false := by decide
  have hmark : isByteOrderMark ' ' = false := by decide
  simp [skipGap, hbreak, hmark]

theorem skipGap_spaces (n : Nat) (fresh : Bool) (column : Nat) (cs : List Char) :
    skipGap false fresh false column (List.replicate n ' ' ++ cs) =
      skipGap false fresh false (column + n) cs := by
  induction n generalizing column with
  | zero => rfl
  | succ n ih =>
    rw [List.replicate_succ, List.cons_append, skipGap_space, ih, Nat.add_assoc, Nat.add_comm 1 n]

theorem skipGap_word {c : Char} (hc : isWordChar c = true) (fresh : Bool) (column : Nat)
    (cs : List Char) : skipGap false fresh false column (c :: cs) = ⟨c :: cs, column, fresh⟩ := by
  have hmark : isByteOrderMark c = false := of_isWordChar (P := (isByteOrderMark · = false))
    (by decide) hc
  have hspace : c ≠ ' ' := ne_of_isWordChar hc (by decide)
  have htab : c ≠ '\t' := ne_of_isWordChar hc (by decide)
  have hcomment : c ≠ '#' := ne_of_isWordChar hc (by decide)
  simp [skipGap, not_isBreak_of_isWordChar hc, hmark, hspace, htab, hcomment]

theorem next_word {c : Char} (hc : isWordChar c = true) (column : Nat) (fresh : Bool)
    (cs : List Char) :
    (⟨c :: cs, column, fresh⟩ : Cursor).next false = ⟨c :: cs, column, fresh⟩ :=
  skipGap_word hc fresh column cs

theorem lineStart_word {c : Char} (hc : isWordChar c = true) (n : Nat) (cs : List Char) :
    lineStart (List.replicate n ' ' ++ c :: cs) = ⟨c :: cs, n, true⟩ := by
  rw [lineStart, Cursor.start, Cursor.next, skipGap_spaces, skipGap_word hc, Nat.zero_add]

/-! ### Lines behind a value -/

/-- What may follow a value in a block of a margin: nothing, or a line of a word
in front of the margin. -/
inductive Dedents (margin : Nat) : List Char → Prop where
  | nothing : Dedents margin []
  | line {n : Nat} {c : Char} {cs : List Char} (hn : n < margin) (hc : isWordChar c = true) :
    Dedents margin (List.replicate n ' ' ++ c :: cs)

end Mediation.Yaml
