import Mediation.Proofs.Yaml.Cursor
import Mediation.Yaml.Block

/-!
# Literals are read as they are written

The lines of a literal hold the characters of the text, and its header tells how
many of the line breaks at the end belong to it.
-/

namespace Mediation.Yaml

/-! ### Lines -/

/-- The lines of a text, as they are written: a last line gets a line break if it
has none. -/
def linesOf : Bool → List Char → List BlockLine
  | true, [] => []
  | false, [] => [⟨[], ['\n']⟩]
  | _, c :: cs =>
    if isBreak c then ⟨[], [c]⟩ :: linesOf true cs else addToFirst c (linesOf false cs)

def BlockLine.chars (l : BlockLine) : List Char := l.text ++ l.ending

theorem flatMap_chars_addToFirst (c : Char) (ls : List BlockLine) :
    (addToFirst c ls).flatMap BlockLine.chars = c :: ls.flatMap BlockLine.chars := by
  cases ls with
  | nil => rfl
  | cons l ls => simp [addToFirst, BlockLine.chars]

theorem flatMap_chars_linesOf {c : Char} (hc : isBreak c = true) (front : List Char)
    (atStart : Bool) : (linesOf atStart (front ++ [c])).flatMap BlockLine.chars = front ++ [c] := by
  induction front generalizing atStart with
  | nil => simp [linesOf, hc, BlockLine.chars]
  | cons x front ih =>
    rw [List.cons_append, linesOf]
    split
    · rw [List.flatMap_cons, ih]
      rfl
    · rw [flatMap_chars_addToFirst, ih]

/-- The last line of a text that ends with a character and what may end a line. -/
theorem exists_linesOf_eq {d : Char} (hd : isBreak d = false) {behind ending : List Char}
    (hbehind : linesOf false behind = [⟨[], ending⟩]) (front : List Char) (atStart : Bool) :
    ∃ init text, linesOf atStart (front ++ d :: behind) = init ++ [⟨text, ending⟩] ∧ text ≠ [] ∧
      init.flatMap BlockLine.chars ++ text = front ++ [d] := by
  induction front generalizing atStart with
  | nil => exact ⟨[], [d], by simp [linesOf, hd, hbehind, addToFirst], by simp, rfl⟩
  | cons x front ih =>
    rw [List.cons_append, linesOf]
    by_cases hx : isBreak x = true
    · obtain ⟨init, text, hlines, hne, hchars⟩ := ih true
      refine ⟨⟨[], [x]⟩ :: init, text, ?_, hne, ?_⟩
      · rw [if_pos hx, hlines, List.cons_append]
      · rw [List.flatMap_cons, List.append_assoc, hchars]
        rfl
    · obtain ⟨init, text, hlines, hne, hchars⟩ := ih false
      rw [if_neg hx, hlines]
      cases init with
      | nil => exact ⟨[], x :: text, rfl, by simp, congrArg (x :: ·) hchars⟩
      | cons l init =>
        refine ⟨addToFirst x (l :: init), text, rfl, hne, ?_⟩
        rw [flatMap_chars_addToFirst, List.cons_append, hchars, List.cons_append]

theorem joinLines_keep (ending breaks : List Char) (indented : Bool) (ls : List BlockLine) :
    joinLines false .keep ending indented breaks ls =
      ending ++ breaks ++ ls.flatMap BlockLine.chars := by
  induction ls generalizing ending breaks indented with
  | nil => simp [joinLines]
  | cons l ls ih =>
    rw [joinLines]
    split
    next h => simp [ih, BlockLine.chars, h]
    next => simp [ih, BlockLine.chars]

/-- When the last line holds text, nothing but its line break may be lost. -/
theorem joinLines_append_line (chomping : Chomping) (ending breaks : List Char) (indented : Bool)
    (ls : List BlockLine) {text : List Char} (htext : text ≠ []) (last : List Char) :
    joinLines false chomping ending indented breaks (ls ++ [⟨text, last⟩]) =
      ending ++ breaks ++ ls.flatMap BlockLine.chars ++ text ++
        (if chomping = .strip then [] else last) := by
  induction ls generalizing ending breaks indented with
  | nil => cases chomping <;> simp [joinLines, htext]
  | cons l ls ih =>
    rw [List.cons_append, joinLines]
    split
    next h => simp [ih, BlockLine.chars, h]
    next => simp [ih, BlockLine.chars]

/-! ### Line breaks at the end -/

/-- How a text ends, by what becomes of its line breaks there: it has none, one
behind a line that holds something, or one at least. -/
inductive Ends : List Char → Chomping → Prop where
  | nothing : Ends [] .strip
  | strip {d : Char} (front : List Char) (hd : isBreak d = false) : Ends (front ++ [d]) .strip
  | clip {d c : Char} (front : List Char) (hd : isBreak d = false) (hc : isBreak c = true) :
    Ends (front ++ [d, c]) .clip
  | keep {c : Char} (front : List Char) (hc : isBreak c = true) : Ends (front ++ [c]) .keep

theorem Ends.joinLines_linesOf {cs : List Char} {chomping : Chomping} (h : Ends cs chomping) :
    joinLines false chomping [] false [] (linesOf true cs) = cs := by
  cases h with
  | nothing => rfl
  | @strip d front hd =>
    have hbehind : linesOf false [] = [⟨[], ['\n']⟩] := rfl
    obtain ⟨init, text, hlines, hne, hchars⟩ := exists_linesOf_eq hd hbehind front true
    rw [hlines, joinLines_append_line _ _ _ _ _ hne]
    simpa using hchars
  | @clip d c front hd hc =>
    have hbehind : linesOf false [c] = [⟨[], [c]⟩] := by simp [linesOf, hc]
    obtain ⟨init, text, hlines, hne, hchars⟩ := exists_linesOf_eq hd hbehind front true
    rw [hlines, joinLines_append_line _ _ _ _ _ hne]
    simp [hchars]
  | @keep c front hc =>
    rw [joinLines_keep, flatMap_chars_linesOf hc, List.nil_append, List.nil_append]

def chompingSign : Chomping → List Char
  | .clip => []
  | .strip => ['-']
  | .keep => ['+']

def indentSign : List Char → List Char
  | [] => []
  | c :: _ => if c = ' ' || isBreak c then ['2'] else []

/-- The sign for the line breaks at the end, of a text from its end. -/
def endSign : List Char → List Char
  | [] => ['-']
  | [c] => if isBreak c then ['+'] else ['-']
  | c :: d :: _ => if !isBreak c then ['-'] else if isBreak d then ['+'] else []

theorem literalSigns_eq (cs : List Char) :
    literalSigns cs = indentSign cs ++ endSign cs.reverse := by
  unfold literalSigns indentSign endSign
  rfl

theorem exists_ends (cs : List Char) :
    ∃ chomping, Ends cs chomping ∧ endSign cs.reverse = chompingSign chomping := by
  obtain ⟨r, rfl⟩ : ∃ r : List Char, cs = r.reverse := ⟨cs.reverse, cs.reverse_reverse.symm⟩
  rw [List.reverse_reverse]
  match r with
  | [] => exact ⟨.strip, .nothing, rfl⟩
  | c :: r =>
    rw [List.reverse_cons]
    by_cases hc : isBreak c = true
    · cases r with
      | nil => exact ⟨.keep, .keep _ hc, by simp [endSign, chompingSign, hc]⟩
      | cons d r =>
        by_cases hd : isBreak d = true
        · exact ⟨.keep, .keep _ hc, by simp [endSign, chompingSign, hc, hd]⟩
        · have hd : isBreak d = false := by simpa using hd
          have hends : Ends ((d :: r).reverse ++ [c]) .clip := by
            simpa using Ends.clip r.reverse hd hc
          exact ⟨.clip, hends, by simp [endSign, chompingSign, hc, hd]⟩
    · have hc : isBreak c = false := by simpa using hc
      refine ⟨.strip, .strip _ hc, ?_⟩
      cases r <;> simp [endSign, chompingSign, hc]

/-! ### Headers -/

theorem readHeader_signs (chomping : Chomping) (cs body : List Char) :
    ∃ indent, readHeader (indentSign cs ++ chompingSign chomping ++ '\n' :: body) =
        some (⟨chomping, indent⟩, '\n' :: body) ∧
      (indent = some 2 ∨ indent = none ∧ indentSign cs = []) := by
  have hsign : indentSign cs = ['2'] ∨ indentSign cs = [] := by
    unfold indentSign
    split
    next => exact .inr rfl
    next => split <;> simp
  rcases hsign with hsign | hsign <;> rw [hsign]
  · exact ⟨some 2, by cases chomping <;> rfl, .inl rfl⟩
  · exact ⟨none, by cases chomping <;> rfl, .inr ⟨rfl, rfl⟩⟩

theorem widestIndent_spaces (n : Nat) {c : Char} (hspace : c ≠ ' ') (htab : c ≠ '\t')
    (hbreak : isBreak c = false) (column : Nat) (cs : List Char) :
    widestIndent 0 column (List.replicate n ' ' ++ c :: cs) = some (column + n) := by
  induction n generalizing column with
  | zero => simp [widestIndent, hspace, htab, hbreak]
  | succ n ih =>
    rw [List.replicate_succ, List.cons_append, widestIndent, if_pos rfl, ih]
    congr 1
    omega

/-- Without a digit in the header, the first line tells the indentation. -/
theorem widestIndent_writeLines {indent : Nat} {cs : List Char} (hne : cs ≠ [])
    (hprint : Printable cs) (hsign : indentSign cs = []) (rest : List Char) :
    widestIndent 0 0 (writeLines indent true cs ++ rest) = some indent := by
  cases cs with
  | nil => exact absurd rfl hne
  | cons c cs =>
    have hc := (printable_cons.mp hprint).1
    have hfirst : c ≠ ' ' ∧ isBreak c = false := by simpa [indentSign] using hsign
    obtain ⟨hspace, hbreak⟩ := hfirst
    have htab : c ≠ '\t' := by
      rintro rfl
      cases hc
    simp [writeLines, hbreak, widestIndent_spaces indent hspace htab hbreak]

/-! ### Reading -/

theorem readLines_spaces {indent n column : Nat} (h : column + n ≤ indent) (cs : List Char) :
    readLines indent false column (List.replicate n ' ' ++ cs) =
      readLines indent false (column + n) cs := by
  induction n generalizing column with
  | zero => rfl
  | succ n ih =>
    have hcolumn : column < indent := by omega
    have hstep : column + 1 + n ≤ indent := by omega
    rw [List.replicate_succ, List.cons_append, readLines]
    simp only [hcolumn, decide_true, Bool.and_self, if_true]
    rw [if_neg (by decide), if_neg (by decide), ih hstep, Nat.add_assoc, Nat.add_comm 1 n]

/-- The lines end in front of a line that is not indented as far. -/
theorem readLines_dedents {indent margin : Nat} (hindent : margin ≤ indent) {rest : List Char}
    (hrest : Dedents margin rest) :
    ∃ after, readLines indent false 0 rest = some ([], after) ∧
      after.next false = lineStart rest := by
  cases hrest with
  | nothing => exact ⟨⟨[], 0, true⟩, rfl, rfl⟩
  | @line n c cs hn hc =>
    refine ⟨⟨c :: cs, n, true⟩, ?_, ?_⟩
    · have hspace : c ≠ ' ' := ne_of_isWordChar hc (by decide)
      have htab : c ≠ '\t' := ne_of_isWordChar hc (by decide)
      have hcolumn : n ≠ indent := by omega
      rw [readLines_spaces (by omega), Nat.zero_add]
      simp [readLines, not_isBreak_of_isWordChar hc, hspace, htab, hcolumn]
    · rw [next_word hc, lineStart_word hc]

theorem readLines_writeLines {indent margin : Nat} (hindent : margin ≤ indent) {rest : List Char}
    (hrest : Dedents margin rest) (cs : List Char) (atStart : Bool) (column : Nat)
    (hcolumn : atStart = true → column = 0) :
    ∃ after, readLines indent (!atStart) column (writeLines indent atStart cs ++ rest) =
        some (linesOf atStart cs, after) ∧ after.next false = lineStart rest := by
  induction cs generalizing atStart column with
  | nil =>
    obtain ⟨after, hread, hafter⟩ := readLines_dedents hindent hrest
    refine ⟨after, ?_, hafter⟩
    cases atStart with
    | true => simpa [hcolumn rfl, writeLines, linesOf] using hread
    | false => simp [writeLines, readLines, isBreak, hread, linesOf]
  | cons c cs ih =>
    by_cases hbreak : isBreak c = true
    · obtain ⟨after, hread, hafter⟩ := ih true 0 fun _ => rfl
      refine ⟨after, ?_, hafter⟩
      rw [Bool.not_true] at hread
      simp [writeLines, readLines, hbreak, hread, linesOf]
    · have htext (column : Nat) := ih false column (absurd · (by decide))
      cases atStart with
      | false =>
        obtain ⟨after, hread, hafter⟩ := htext (column + 1)
        refine ⟨after, ?_, hafter⟩
        rw [Bool.not_false] at hread
        simp [writeLines, readLines, hbreak, hread, linesOf]
      | true =>
        obtain ⟨after, hread, hafter⟩ := htext (indent + 1)
        refine ⟨after, ?_, hafter⟩
        rw [Bool.not_false] at hread
        simp only [writeLines, hbreak, if_true]
        rw [hcolumn rfl, Bool.not_true, if_neg (by decide), List.append_assoc,
          readLines_spaces (by omega), Nat.zero_add]
        simp [readLines, hbreak, hread, linesOf]

/-- A literal is read as it is, in a block of a margin that its lines go beyond. -/
theorem readBlock_literal {margin : Nat} (hmargin : 0 < margin) {cs : List Char} (hne : cs ≠ [])
    (hprint : Printable cs) {rest : List Char} (hrest : Dedents margin rest) :
    ∃ after, readBlock false margin ((literal (margin + 1) cs).tail ++ rest) =
        some ⟨cs, after⟩ ∧ after.next false = lineStart rest := by
  obtain ⟨chomping, hends, hsign⟩ := exists_ends cs
  obtain ⟨after, hread, hafter⟩ :=
    readLines_writeLines (Nat.le_succ margin) hrest cs true 0 fun _ => rfl
  refine ⟨after, ?_, hafter⟩
  obtain ⟨indent, hheader, hindent⟩ :=
    readHeader_signs chomping cs (writeLines (margin + 1) true cs ++ rest)
  have hliteral : (literal (margin + 1) cs).tail ++ rest = indentSign cs ++
      chompingSign chomping ++ '\n' :: (writeLines (margin + 1) true cs ++ rest) := by
    simp [literal, literalSigns_eq, hsign]
  have hafterHeader (body : List Char) : afterHeader ('\n' :: body) = some body := by
    simp [afterHeader, isSpace, isBreak]
  rw [Bool.not_true] at hread
  rw [hliteral, readBlock, hheader]
  rcases hindent with rfl | ⟨rfl, hnone⟩
  · have hwidth : margin - 1 + 2 = margin + 1 := by omega
    simp [hafterHeader, hwidth, hread, hends.joinLines_linesOf]
  · have hwidth : max (margin + 1) (max margin 1) = margin + 1 := by omega
    have hwidest : (widestIndent 0 0 (writeLines (margin + 1) true cs ++ rest)).map
        (fun widest => max widest (max margin 1)) = some (margin + 1) := by
      rw [widestIndent_writeLines hne hprint hnone, Option.map_some, hwidth]
    simp only [hafterHeader, hwidest, hread, Option.map_some, hends.joinLines_linesOf]

theorem printable_literal {cs : List Char} (h : Printable cs) (indent : Nat) :
    Printable (literal indent cs) := by
  have hwrite (atStart : Bool) : Printable (writeLines indent atStart cs) := by
    induction cs generalizing atStart with
    | nil => cases atStart <;> simp [writeLines]
    | cons c cs ih =>
      rw [printable_cons] at h
      cases atStart <;> by_cases hbreak : isBreak c = true <;>
        simp [writeLines, hbreak, h.1, ih h.2]
  have hindent : Printable (indentSign cs) := by
    unfold indentSign
    split
    next => exact printable_nil
    next =>
      split
      · rw [printable_cons]
        exact ⟨by decide, printable_nil⟩
      · exact printable_nil
  obtain ⟨chomping, -, hsign⟩ := exists_ends cs
  have hchomping : Printable (chompingSign chomping) := by
    cases chomping <;> simp [chompingSign] <;> decide
  have hmark : isPrintable '|' = true := by decide
  simp [literal, literalSigns_eq, hsign, hmark, hindent, hchomping, hwrite]

end Mediation.Yaml
