import Mediation.Proofs.Yaml.Block
import Mediation.Proofs.Yaml.Plain
import Mediation.Proofs.Yaml.Quoted
import Mediation.Yaml.Token

/-!
# Values are read as they are written

In whatever style a text is written as a value, the next token is that text, and
reading goes on at the beginning of the next line.
-/

namespace Mediation.Yaml

/-! ### Tokens of plain scalars -/

theorem first_of_startsPlain {c : Char} {cs : List Char} (h : startsPlain false (c :: cs) = true) :
    isSpace c = false ∧ isBreak c = false ∧ isReserved c = false := by
  rw [startsPlain] at h
  split at h
  next => cases h
  next hc => simpa [and_assoc] using hc

theorem not_endsWord_of_startsPlain {c : Char} {cs : List Char}
    (h : startsPlain false (c :: cs) = true) (hc : c = '-' ∨ c = '?' ∨ c = ':') :
    endsWord cs = false := by
  rcases hc with rfl | rfl | rfl <;>
    simpa [startsPlain, isSpace, isBreak, isReserved, isFlowMark] using h

theorem readToken_plain {c : Char} {cs : List Char} (hstart : startsPlain false (c :: cs) = true)
    (column : Nat) (hcolumn : column = 0 → isWordChar c = true) (fresh : Bool) (blocks : List Nat)
    (keyStart : Option KeyStart) (tokens : List Token) :
    (Lexer.mk ⟨c :: cs, column, fresh⟩ blocks keyStart [] tokens).readToken =
      (Lexer.mk ⟨c :: cs, column, fresh⟩ blocks keyStart [] tokens).readScalar .plain
        (readPlain false (Lexer.mk ⟨c :: cs, column, fresh⟩ blocks keyStart [] tokens).margin
          .none column (c :: cs)) := by
  obtain ⟨-, -, hreserved⟩ := first_of_startsPlain hstart
  have hends := not_endsWord_of_startsPlain hstart
  have hdash : ¬ (c = '-' ∧ endsWord cs = true) := fun h => by simp [hends (.inl h.1)] at h
  have hquery : ¬ (c = '?' ∧ endsWord cs = true) := fun h => by simp [hends (.inr (.inl h.1))] at h
  have hcolon : ¬ (c = ':' ∧ endsWord cs = true) := fun h => by simp [hends (.inr (.inr h.1))] at h
  -- a mark of a document begins in no column but the first, and with no word character
  have hmark {d : Char} (hd : isWordChar d = false) (mark : List Char) :
      ¬ (column = 0 ∧ beginsWith (d :: mark) (c :: cs) = true) := by
    rintro ⟨hzero, hbegins⟩
    have hne : c ≠ d := ne_of_isWordChar (hcolumn hzero) hd
    simp [beginsWith, List.isPrefixOf_cons_cons, hne.symm] at hbegins
  have hdocumentStart := hmark (d := '-') (by decide) ['-', '-']
  have hdocumentEnd := hmark (d := '.') (by decide) ['.', '.']
  simp only [isReserved, isFlowMark, Bool.or_eq_false_iff, decide_eq_false_iff_not] at hreserved
  simp [Lexer.readToken, Lexer.inFlow, documentStartMark, documentEndMark, hdocumentStart,
    hdocumentEnd, hreserved, hdash, hquery, hcolon, hstart]

/-! ### Values -/

/-- Characters that are, behind a key at a column, a scalar up to the end of its
line. -/
structure StandsFor (column : Nat) (text : List Char) (style : Style) (written : List Char) :
    Prop where
  printable : Printable written
  begins : ∃ c cs, written = c :: cs ∧ isSpace c = false ∧ isBreak c = false ∧ c ≠ '#'
  reads {rest : List Char} (hrest : Dedents (column + 1) rest) (blocks : List Nat)
    (tokens : List Token) {place : Nat} (hplace : place ≠ 0) : ∃ after : Cursor,
      (Lexer.mk ⟨written ++ rest, place, false⟩ (column :: blocks) none [] tokens).readToken =
        some ⟨after, column :: blocks, none, [], .scalar (String.ofList text) style :: tokens⟩ ∧
      after.next false = lineStart rest

theorem standsFor_plain {cs : List Char} (hprint : Printable cs) (hne : cs ≠ [])
    (h : mayBePlain cs = true) (column : Nat) : StandsFor column cs .plain (cs ++ ['\n']) := by
  cases cs with
  | nil => exact absurd rfl hne
  | cons c cs =>
    have hstart := startsPlain_of_mayBePlain (printable_cons.mp hprint).1 h
    refine ⟨by simpa using hprint, ?begins, ?reads⟩
    case begins =>
      obtain ⟨hspace, hbreak, hreserved⟩ := first_of_startsPlain (hstart [])
      refine ⟨c, cs ++ ['\n'], rfl, hspace, hbreak, ?_⟩
      rintro rfl
      cases hreserved
    case reads =>
      intro rest hrest blocks tokens place hplace
      obtain ⟨after, hread, hafter⟩ := readPlain_of_mayBePlain hrest hprint hne h place
      refine ⟨after, ?_, hafter⟩
      have htoken := readToken_plain (hstart rest) place (absurd · hplace) false
        (column :: blocks) none tokens
      rw [List.append_assoc, List.singleton_append]
      rw [List.cons_append] at hread ⊢
      rw [htoken, Lexer.margin, hread]
      rfl

theorem standsFor_word {cs : List Char} (h : IsWord cs) (column : Nat) :
    StandsFor column cs .plain (cs ++ ['\n']) :=
  standsFor_plain h.printable h.1 h.mayBePlain column

theorem standsFor_single {cs : List Char} (hprint : Printable cs) (hfeed : '\n' ∉ cs)
    (hends : hasPair (· = ' ') isBreak cs = false) (hbegins : hasPair isBreak (· = ' ') cs = false)
    {indent : Nat} (hindent : 0 < indent) (column : Nat) :
    StandsFor column cs .quoted (singleQuoted indent cs ++ ['\n']) := by
  refine ⟨by simpa using printable_singleQuoted hprint indent, ⟨_, _, rfl, by decide⟩, ?_⟩
  intro rest hrest blocks tokens place hplace
  have hstands : Pending.none.Stands cs := fun hne => absurd rfl hne
  obtain ⟨column', hread⟩ := readSingle_writeSingle hindent hprint hfeed hends hbegins rest hstands
    (place + 1) (.inr (Nat.succ_pos place))
  refine ⟨⟨'\n' :: rest, column', false⟩, ?_, next_break ..⟩
  rw [Pending.none, Pending.hasBreak] at hread
  simp [singleQuoted, Lexer.readToken, Lexer.inFlow, hplace, Pending.none, hread, Lexer.readScalar,
    Lexer.noteKey?, Pending.fold, Lexer.addScalar, Lexer.moveTo, Lexer.emit]

theorem standsFor_double (cs : List Char) (column : Nat) :
    StandsFor column cs .quoted (doubleQuoted cs ++ ['\n']) := by
  refine ⟨by simpa using printable_doubleQuoted cs, ⟨_, _, rfl, by decide⟩, ?_⟩
  intro rest hrest blocks tokens place hplace
  obtain ⟨column', hread⟩ := readDouble_doubleQuoted cs ('\n' :: rest) (Nat.succ_pos place)
  refine ⟨⟨'\n' :: rest, column', false⟩, ?_, next_break ..⟩
  have hwritten : doubleQuoted cs ++ ['\n'] ++ rest =
      '"' :: ((doubleQuoted cs).tail ++ '\n' :: rest) := by
    simp [doubleQuoted]
  simp [hwritten, Lexer.readToken, Lexer.inFlow, hplace, hread, Lexer.readScalar,
    Lexer.noteKey?, Lexer.addScalar, Lexer.moveTo, Lexer.emit]

theorem standsFor_literal {cs : List Char} (hprint : Printable cs) (hne : cs ≠ []) (column : Nat) :
    StandsFor column cs .literal (literal (column + 2) cs) := by
  refine ⟨printable_literal hprint _, ⟨_, _, rfl, by decide⟩, ?_⟩
  intro rest hrest blocks tokens place hplace
  obtain ⟨after, hread, hafter⟩ := readBlock_literal (Nat.succ_pos column) hne hprint hrest
  refine ⟨after, ?_, hafter⟩
  have hwritten : literal (column + 2) cs ++ rest =
      '|' :: ((literal (column + 2) cs).tail ++ rest) := rfl
  simp [hwritten, Lexer.readToken, Lexer.inFlow, hplace, hread, Lexer.readBlockScalar,
    Lexer.margin, Lexer.dropKey?, Lexer.addScalar, Lexer.moveTo, Lexer.emit]

/-! ### Styles -/

def WrittenStyle.style : WrittenStyle → Style
  | .plain => .plain
  | .single | .double => .quoted
  | .literal => .literal

/-- What a style asks of the texts that are written in it; escapes are there for any text. -/
def WrittenStyle.Suits (s : String) : WrittenStyle → Prop
  | .plain => Printable s.toList ∧ isAmbiguous s = false ∧ mayBePlain s.toList = true
  | .single => Printable s.toList ∧ '\n' ∉ s.toList ∧ hasPair (· = ' ') isBreak s.toList = false ∧
      hasPair isBreak (· = ' ') s.toList = false
  | .double => True
  | .literal => Printable s.toList ∧ '\n' ∈ s.toList

theorem suits_writtenStyle (s : String) : (writtenStyle s).Suits s := by
  unfold writtenStyle
  dsimp only
  split
  next => trivial
  next hescapes =>
    have hplain : Printable s.toList ∧ hasPair (· = ' ') isBreak s.toList = false := by
      simpa [needsEscapes, Printable] using hescapes
    obtain ⟨hprint, hends⟩ := hplain
    split
    next hfeed =>
      split
      · trivial
      · exact ⟨hprint, by simpa using hfeed⟩
    next hfeed =>
      split
      next hsafe =>
        simp only [Bool.and_eq_true, Bool.not_eq_true'] at hsafe
        exact ⟨hprint, hsafe⟩
      next =>
        split
        · trivial
        next hbegins => exact ⟨hprint, by simpa using hfeed, hends, by simpa using hbegins⟩

/-- What is written for a text stands for it. -/
theorem standsFor_writeText (s : String) (column : Nat) :
    StandsFor column s.toList (writtenStyle s).style (writeText (column + 2) s) := by
  have hsuits := suits_writtenStyle s
  unfold writeText
  generalize writtenStyle s = style at hsuits ⊢
  cases style with
  | plain =>
    obtain ⟨hprint, hambiguous, hplain⟩ := hsuits
    have hne : s.toList ≠ [] := by
      intro hnil
      have hempty : s = "" := String.toList_eq_nil_iff.mp hnil
      simp [isAmbiguous, hempty] at hambiguous
    exact standsFor_plain hprint hne hplain column
  | single =>
    obtain ⟨hprint, hfeed, hends, hbegins⟩ := hsuits
    exact standsFor_single hprint hfeed hends hbegins (Nat.succ_pos _) column
  | double => exact standsFor_double s.toList column
  | literal => exact standsFor_literal hsuits.1 (List.ne_nil_of_mem hsuits.2) column

end Mediation.Yaml
