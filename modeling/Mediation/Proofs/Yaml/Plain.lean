import Mediation.Proofs.Yaml.Cursor
import Mediation.Yaml.Plain

/-!
# Plain scalars are read as they are written

A text that may be plain is read up to the end of its line, and so is a word
that is a key up to its colon.
-/

namespace Mediation.Yaml

theorem endsWord_append_break (cs rest : List Char) :
    endsWord (cs ++ '\n' :: rest) = endsWord cs := by
  cases cs with
  | nil => simp [endsWord, isBreak]
  | cons c cs => rfl

/-! ### Texts -/

theorem readPlain_pending_spaces (margin n : Nat) (first more : List Char) (column : Nat)
    (cs : List Char) :
    readPlain false margin (.breaks first more) column (List.replicate n ' ' ++ cs) =
      readPlain false margin (.breaks first more) (column + n) cs := by
  induction n generalizing column with
  | zero => rfl
  | succ n ih =>
    have hstep (cs : List Char) : readPlain false margin (.breaks first more) column (' ' :: cs) =
        readPlain false margin (.breaks first more) (column + 1) cs := by
      simp [readPlain, isSpace, Pending.space]
    rw [List.replicate_succ, List.cons_append, hstep, ih, Nat.add_assoc, Nat.add_comm 1 n]

/-- A plain scalar ends in front of a line that is not indented as far as its margin. -/
theorem readPlain_dedents {margin : Nat} {rest : List Char} (h : Dedents margin rest) :
    ∃ after, readPlain false margin (.breaks ['\n'] []) 0 rest = some ⟨[], after⟩ ∧
      after.next false = lineStart rest := by
  cases h with
  | nothing => exact ⟨⟨[], 0, true⟩, rfl, rfl⟩
  | @line n c cs hn hc =>
    refine ⟨⟨c :: cs, n, true⟩, ?_, ?_⟩
    · rw [readPlain_pending_spaces, Nat.zero_add]
      simp [readPlain, not_isSpace_of_isWordChar hc, not_isBreak_of_isWordChar hc, Pending.leaves,
        hn, Pending.hasBreak]
    · rw [next_word hc, lineStart_word hc]

theorem readPlain_char {margin column : Nat} {p : Pending} {c : Char} {cs : List Char}
    (hspace : isSpace c = false) (hbreak : isBreak c = false)
    (hleaves : p.leaves false margin column (c :: cs) = false)
    (hcolon : (c = ':' && endsWord cs) = false) :
    readPlain false margin p column (c :: cs) =
      (readPlain false margin .none (column + 1) cs).map (.prepend (p.fold ++ [c])) := by
  simp only [readPlain, hspace, hbreak, hleaves, endsPlain, hcolon]
  simp

/-- Behind a first character the rest of a plain text is read up to the end of its line; `b` is
the character in front, and spaces are held back until another character follows. -/
theorem readPlain_of_mayContinuePlain {margin : Nat} {rest : List Char}
    (hrest : Dedents margin rest) {cs : List Char} (hprint : Printable cs) {b : Char}
    (spaces : List Char) (hb : b = ' ' ↔ spaces ≠ []) (hcs : mayContinuePlain b cs = true) (column : Nat) :
    ∃ after, readPlain false margin (.spaces spaces) column (cs ++ '\n' :: rest) =
        some ⟨spaces ++ cs, after⟩ ∧ after.next false = lineStart rest := by
  induction cs generalizing b spaces column with
  | nil =>
    have hnil : spaces = [] := by
      simpa [mayContinuePlain, hb] using hcs
    obtain ⟨after, hread, hafter⟩ := readPlain_dedents hrest
    refine ⟨after, ?_, hafter⟩
    rw [hnil]
    simpa [readPlain, isSpace, isBreak, Pending.lineBreak] using hread
  | cons c cs ih =>
    obtain ⟨hc, hmore⟩ := printable_cons.mp hprint
    simp only [mayContinuePlain, Bool.and_eq_true, Bool.not_eq_true'] at hcs
    obtain ⟨⟨⟨hbreak, hcolon⟩, hcomment⟩, hcs⟩ := hcs
    by_cases hspace : c = ' '
    · subst hspace
      obtain ⟨after, hread, hafter⟩ :=
        ih hmore (spaces ++ [' ']) (by simp) hcs (column + 1)
      refine ⟨after, ?_, hafter⟩
      rw [List.append_assoc] at hread
      rw [← List.singleton_append (l := cs), ← hread]
      simp [readPlain, isSpace, Pending.hasBreak, Pending.space]
    · obtain ⟨after, hread, hafter⟩ :=
        ih hmore [] (by simpa using hspace) hcs (column + 1)
      refine ⟨after, ?_, hafter⟩
      have hleaves : (Pending.spaces spaces).leaves false margin column
          (c :: (cs ++ '\n' :: rest)) = false := by
        cases spaces with
        | nil => rfl
        | cons s spaces =>
          have hbs : b = ' ' := hb.mpr (by simp)
          simpa [Pending.leaves, hbs] using hcomment
      rw [List.cons_append, readPlain_char (not_isSpace_of_isPrintable hc hspace) hbreak hleaves
        (by rw [endsWord_append_break]; exact hcolon), Pending.none, hread]
      simp [Scanned.prepend, Pending.fold]

theorem startsPlain_of_mayBePlain {c : Char} {cs : List Char} (hc : isPrintable c = true)
    (h : mayBePlain (c :: cs) = true) (rest : List Char) :
    startsPlain false (c :: (cs ++ '\n' :: rest)) = true := by
  simp only [mayBePlain, mayBeginPlain, Bool.and_eq_true, Bool.not_eq_true', decide_eq_true_eq,
    ne_eq] at h
  obtain ⟨⟨⟨⟨⟨hreserved, hspace⟩, hmark⟩, -⟩, -⟩, hbreak, -⟩ := h
  simp only [startsPlain, not_isSpace_of_isPrintable hc hspace, hbreak,
    hreserved, endsWord_append_break]
  revert hmark
  by_cases hdash : c = '-' <;> by_cases hquery : c = '?' <;> by_cases hcolon : c = ':' <;>
    simp [hdash, hquery, hcolon]

/-- A text that may be plain is read as it is. -/
theorem readPlain_of_mayBePlain {margin : Nat} {rest : List Char} (hrest : Dedents margin rest)
    {cs : List Char} (hprint : Printable cs) (hne : cs ≠ [])
    (h : mayBePlain cs = true) (column : Nat) :
    ∃ after, readPlain false margin .none column (cs ++ '\n' :: rest) = some ⟨cs, after⟩ ∧
      after.next false = lineStart rest := by
  cases cs with
  | nil => exact absurd rfl hne
  | cons c cs =>
    obtain ⟨hc, hmore⟩ := printable_cons.mp hprint
    simp only [mayBePlain, mayBeginPlain, Bool.and_eq_true, Bool.not_eq_true', decide_eq_true_eq,
      ne_eq] at h
    obtain ⟨⟨⟨⟨⟨-, hspace⟩, hmark⟩, -⟩, -⟩, hbreak, hcs⟩ := h
    obtain ⟨after, hread, hafter⟩ := readPlain_of_mayContinuePlain hrest hmore []
      (by simpa using hspace) hcs (column + 1)
    refine ⟨after, ?_, hafter⟩
    have hcolon : (c = ':' && endsWord (cs ++ '\n' :: rest)) = false := by
      rw [endsWord_append_break]
      revert hmark
      by_cases hcolon : c = ':' <;> simp [hcolon]
    rw [List.cons_append, readPlain_char (not_isSpace_of_isPrintable hc hspace) hbreak rfl hcolon,
      Pending.none, hread]
    simp [Scanned.prepend, Pending.fold]

/-! ### Words -/

def IsWord (cs : List Char) : Prop := cs ≠ [] ∧ ∀ c ∈ cs, isWordChar c = true

theorem isWord_of_all {cs : List Char} (h : (!cs.isEmpty && cs.all isWordChar) = true) :
    IsWord cs := by
  simpa [IsWord] using h

theorem IsWord.exists_cons {cs : List Char} (h : IsWord cs) :
    ∃ c ds, cs = c :: ds ∧ isWordChar c = true := by
  obtain ⟨c, ds, rfl⟩ := List.exists_cons_of_ne_nil h.1
  exact ⟨c, ds, rfl, h.2 c (List.mem_cons_self ..)⟩

theorem IsWord.printable {cs : List Char} (h : IsWord cs) : Printable cs :=
  fun c hc => isPrintable_of_isWordChar (h.2 c hc)

theorem not_isReserved_of_isWordChar {c : Char} (h : isWordChar c = true) : isReserved c = false :=
  of_isWordChar (P := (isReserved · = false)) (by decide) h

theorem mayContinuePlain_word {b : Char} (hb : isWordChar b = true) {cs : List Char}
    (h : ∀ c ∈ cs, isWordChar c = true) : mayContinuePlain b cs = true := by
  induction cs generalizing b with
  | nil => simpa [mayContinuePlain] using ne_of_isWordChar hb (by decide)
  | cons c cs ih =>
    have hc := h c (List.mem_cons_self ..)
    have hcolon : c ≠ ':' := ne_of_isWordChar hc (by decide)
    have hcomment : c ≠ '#' := ne_of_isWordChar hc (by decide)
    have hcs := ih hc fun x hx => h x (List.mem_cons_of_mem c hx)
    simp [mayContinuePlain, not_isBreak_of_isWordChar hc, hcolon, hcomment, hcs]

theorem IsWord.mayBePlain {cs : List Char} (h : IsWord cs) : mayBePlain cs = true := by
  obtain ⟨c, ds, rfl, hc⟩ := h.exists_cons
  have hspace : c ≠ ' ' := ne_of_isWordChar hc (by decide)
  have hdash : c ≠ '-' := ne_of_isWordChar hc (by decide)
  have hquery : c ≠ '?' := ne_of_isWordChar hc (by decide)
  have hcolon : c ≠ ':' := ne_of_isWordChar hc (by decide)
  have hpoint : c ≠ '.' := ne_of_isWordChar hc (by decide)
  have hds := mayContinuePlain_word hc fun x hx => h.2 x (List.mem_cons_of_mem c hx)
  simp [Yaml.mayBePlain, mayBeginPlain, not_isReserved_of_isWordChar hc, hspace, hdash, hquery,
    hcolon, documentStartMark, documentEndMark, List.isPrefixOf_cons_cons, hpoint.symm,
    hdash.symm, not_isBreak_of_isWordChar hc, hds]

/-- A word that is a key is read up to its colon. -/
theorem readPlain_key {margin : Nat} {cs : List Char} (hword : ∀ c ∈ cs, isWordChar c = true)
    {rest : List Char} (hrest : endsWord rest = true) (column : Nat) :
    readPlain false margin .none column (cs ++ ':' :: rest) =
      some ⟨cs, ⟨':' :: rest, column + cs.length, false⟩⟩ := by
  induction cs generalizing column with
  | nil =>
    simp [readPlain, isSpace, isBreak, Pending.none, Pending.leaves, endsPlain, hrest,
      Pending.hasBreak]
  | cons c cs ih =>
    have hc := hword c (List.mem_cons_self ..)
    have hcolon : c ≠ ':' := ne_of_isWordChar hc (by decide)
    rw [List.cons_append, readPlain_char (not_isSpace_of_isWordChar hc)
      (not_isBreak_of_isWordChar hc) rfl (by simp [hcolon]),
      ih fun x hx => hword x (List.mem_cons_of_mem c hx)]
    simp [Scanned.prepend, Pending.fold, Pending.none]
    omega

end Mediation.Yaml
