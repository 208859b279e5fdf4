import Mathlib.Data.List.TakeWhile
import Mediation.Proofs.Yaml.Scalar

/-!
# Lines are read as keys with their values

Reading goes from the beginning of a line to the beginning of the next one, and
comes upon a key and its value. The first line that is indented further than
those around it opens a mapping, which ends with the text.
-/

namespace Mediation.Yaml

namespace Lexer

/-! ### Steps -/

/-- Reading has come to the beginning of a line. -/
def atLine (rest : List Char) (blocks : List Nat) (tokens : List Token) : Lexer :=
  ⟨.start rest, blocks, none, [], tokens⟩

theorem readAll_congr {c c' : Cursor} (h : c.next false = c'.next false) (blocks : List Nat)
    (keyStart : Option KeyStart) (tokens : List Token) (fuel : Nat) :
    (Lexer.mk c blocks keyStart [] tokens).readAll fuel =
      (Lexer.mk c' blocks keyStart [] tokens).readAll fuel := by
  cases fuel with
  | zero => rfl
  | succ fuel => simp only [readAll, moveTo, inFlow, List.isEmpty_nil, Bool.not_true, h]

theorem closeBlocks_of_head? {l : Lexer} {column : Nat}
    (h : ∀ b, l.blocks.head? = some b → b ≤ column) : l.closeBlocks (column + 1) = l := by
  have hopen : l.blocks.takeWhile (column + 1 ≤ ·) = [] := by
    cases hblocks : l.blocks with
    | nil => rfl
    | cons b bs =>
      have hb : b ≤ column := h b (by rw [hblocks, List.head?_cons])
      exact List.takeWhile_cons_of_neg (by simpa using Nat.lt_succ_of_le hb)
  unfold closeBlocks
  rw [hopen]
  split <;> rfl

/-- Where no block ends, the next step reads the token of the next place. -/
theorem readAll_step {c : Cursor} {x : Char} {r : List Char} {column : Nat} {fresh : Bool}
    (hnext : c.next false = ⟨x :: r, column, fresh⟩) {blocks : List Nat}
    (hblocks : ∀ b, blocks.head? = some b → b ≤ column) (keyStart : Option KeyStart)
    (tokens : List Token) (fuel : Nat) :
    (Lexer.mk c blocks keyStart [] tokens).readAll (fuel + 1) =
      ((Lexer.mk ⟨x :: r, column, fresh⟩ blocks keyStart [] tokens).readToken).bind
        (readAll fuel) := by
  have hclose : (Lexer.mk ⟨x :: r, column, fresh⟩ blocks keyStart [] tokens).closeBlocks
      (column + 1) = ⟨⟨x :: r, column, fresh⟩, blocks, keyStart, [], tokens⟩ :=
    closeBlocks_of_head? hblocks
  simp [readAll, moveTo, inFlow, hnext, hclose]

/-- At the end of the text all blocks end. -/
theorem readAll_end (blocks : List Nat) (tokens : List Token) (fuel : Nat) :
    (atLine [] blocks tokens).readAll (fuel + 1) =
      some (tokens.reverse ++ List.replicate blocks.length .blockEnd) := by
  have hopen : blocks.takeWhile (fun _ => true) = blocks :=
    List.takeWhile_eq_self_iff.mpr fun _ _ => rfl
  have hnext : (Cursor.start []).next false = ⟨[], 0, true⟩ := rfl
  simp [readAll, atLine, moveTo, inFlow, hnext, closeBlocks, hopen, dropKey?]

/-! ### Keys -/

/-- A key at a column stands in a block of that column, which it may open. -/
inductive Enters (column : Nat) : List Nat → List Token → List Nat → List Token → Prop where
  | inside (blocks : List Nat) (tokens : List Token) :
    Enters column (column :: blocks) tokens (column :: blocks) tokens
  | opens {blocks : List Nat} (h : ∀ b, blocks.head? = some b → b < column) (tokens : List Token) :
    Enters column blocks tokens (column :: blocks) (.mappingStart :: tokens)

/-- The words that may be keys. -/
def IsKey (name : List Char) : Prop := IsWord name ∧ name.length ≤ maxKeyLength

theorem isKey_of_all {name : List Char}
    (h : (!name.isEmpty && name.all isWordChar && Nat.ble name.length maxKeyLength) = true) :
    IsKey name := by
  obtain ⟨hword, hlength⟩ := Bool.and_eq_true_iff.mp h
  exact ⟨isWord_of_all hword, Nat.le_of_ble_eq_true hlength⟩

theorem byteCount_word {cs : List Char} (h : ∀ c ∈ cs, isWordChar c = true) :
    byteCount cs = cs.length := by
  have hsize {c : Char} (hc : isWordChar c = true) : c.utf8Size = 1 :=
    of_isWordChar (P := (Char.utf8Size · = 1)) (by decide) hc
  have hsum (n : Nat) : cs.foldl (fun n c => n + c.utf8Size) n = n + cs.length := by
    induction cs generalizing n with
    | nil => rfl
    | cons c cs ih =>
      rw [List.foldl_cons, ih (fun x hx => h x (List.mem_cons_of_mem c hx)),
        hsize (h c (List.mem_cons_self ..)), List.length_cons]
      omega
  rw [byteCount, hsum, Nat.zero_add]

theorem mayBeKey_key {name : List Char} (h : IsKey name) (rest : List Char) :
    mayBeKey (name ++ ':' :: rest) (':' :: rest) = true := by
  obtain ⟨⟨-, hword⟩, hlength⟩ := h
  have htake : (name ++ ':' :: rest).take ((name ++ ':' :: rest).length - (':' :: rest).length) =
      name := by
    rw [List.length_append, Nat.add_sub_cancel, List.take_left]
  have hbreak : name.all (!isBreak ·) = true :=
    List.all_eq_true.mpr fun c hc => by simp [not_isBreak_of_isWordChar (hword c hc)]
  simp only [mayBeKey, htake, hbreak, byteCount_word hword, hlength, decide_true, Bool.and_self]

theorem startsPlain_word {c : Char} (hc : isWordChar c = true) (cs : List Char) :
    startsPlain false (c :: cs) = true := by
  have hdash : c ≠ '-' := ne_of_isWordChar hc (by decide)
  have hquery : c ≠ '?' := ne_of_isWordChar hc (by decide)
  have hcolon : c ≠ ':' := ne_of_isWordChar hc (by decide)
  simp [startsPlain, not_isSpace_of_isWordChar hc, not_isBreak_of_isWordChar hc,
    not_isReserved_of_isWordChar hc, hdash, hquery, hcolon]

theorem readToken_key {name : List Char} (hname : IsWord name) {rest : List Char}
    (hrest : endsWord rest = true) (column : Nat) (blocks : List Nat) (tokens : List Token) :
    ∃ required, (Lexer.mk ⟨name ++ ':' :: rest, column, true⟩ blocks none [] tokens).readToken =
      some ⟨⟨':' :: rest, column + name.length, false⟩, blocks,
        some ⟨name ++ ':' :: rest, column, required, tokens.length⟩, [],
        .scalar (String.ofList name) .plain :: tokens⟩ := by
  obtain ⟨c, cs, rfl, hc⟩ := hname.exists_cons
  rw [List.cons_append, readToken_plain (startsPlain_word hc _) _ (fun _ => hc),
    ← List.cons_append, readPlain_key hname.2 hrest]
  simp [readScalar, noteKey?, dropKey?, addScalar, moveTo, emit]

theorem Enters.head? {column : Nat} {blocks blocks' : List Nat} {tokens tokens' : List Token}
    (h : Enters column blocks tokens blocks' tokens') :
    ∀ b, blocks.head? = some b → b ≤ column := by
  cases h with
  | inside blocks =>
    rintro b ⟨⟩
    exact Nat.le_refl column
  | opens hblocks => exact fun b hb => Nat.le_of_lt (hblocks b hb)

theorem opensBlock_iff {l : Lexer} (h : l.outerKeys = []) (column : Nat) :
    l.opensBlock column = true ↔ ∀ b, l.blocks.head? = some b → b < column := by
  have hflow : l.inFlow = false := by
    rw [inFlow, h]
    rfl
  rw [opensBlock, hflow, Bool.not_false, Bool.true_and, decide_eq_true_eq, margin]
  cases l.blocks with
  | nil =>
    refine ⟨fun _ b hb => ?_, fun _ => Nat.zero_le column⟩
    cases hb
  | cons b bs =>
    refine ⟨fun hle b' hb => ?_, fun hall => hall b rfl⟩
    cases hb
    exact hle

/-- The token of a key comes in front of the one token read since the key began. -/
theorem insertKey_enters {k : KeyStart} {blocks blocks' : List Nat} {tokens tokens' : List Token}
    (h : Enters k.column blocks tokens blocks' tokens') (hindex : k.index = tokens.length)
    (c : Cursor) (keyStart : Option KeyStart) (scalar : Token) :
    (Lexer.mk c blocks keyStart [] (scalar :: tokens)).insertKey k =
      ⟨c, blocks', none, [], scalar :: .key :: tokens'⟩ := by
  have hsince : tokens.length + 1 - k.index = 1 := by
    rw [hindex, Nat.add_sub_cancel_left]
  have hopens := opensBlock_iff (l := ⟨c, blocks, keyStart, [], scalar :: tokens⟩) rfl k.column
  cases h with
  | inside blocks =>
    have hinside : ¬ ∀ b, (k.column :: blocks).head? = some b → b < k.column :=
      fun h => Nat.lt_irrefl _ (h _ rfl)
    simp [insertKey, hsince, mt hopens.mp hinside]
  | opens hblocks => simp [insertKey, hsince, hopens.mpr hblocks]

theorem readToken_value {column : Nat} (hcolumn : column ≠ 0) {k : KeyStart}
    {blocks blocks' : List Nat} {tokens tokens' : List Token}
    (h : Enters k.column blocks tokens blocks' tokens') (hindex : k.index = tokens.length)
    {rest : List Char} (hkey : mayBeKey k.rest (':' :: rest) = true)
    (hrest : endsWord rest = true) (scalar : Token) :
    (Lexer.mk ⟨':' :: rest, column, false⟩ blocks (some k) [] (scalar :: tokens)).readToken =
      some ⟨⟨rest, column + 1, false⟩, blocks', none, [], .value :: scalar :: .key :: tokens'⟩ := by
  have hinsert := insertKey_enters h hindex ⟨':' :: rest, column, false⟩ (some k) scalar
  simp [readToken, hcolumn, inFlow, hrest, readValue, hkey, hinsert, advance, moveTo, emit,
    Cursor.upTo]

theorem readAll_key {column : Nat} {blocks blocks' : List Nat} {tokens tokens' : List Token}
    (h : Enters column blocks tokens blocks' tokens') {name : List Char} (hname : IsKey name)
    {rest : List Char} (hrest : endsWord rest = true) (fuel : Nat) :
    (atLine (List.replicate column ' ' ++ (name ++ ':' :: rest)) blocks tokens).readAll (fuel + 2) =
      (Lexer.mk ⟨rest, column + name.length + 1, false⟩ blocks' none []
        (.value :: .scalar (String.ofList name) .plain :: .key :: tokens')).readAll fuel := by
  obtain ⟨required, hkey⟩ := readToken_key hname.1 hrest column blocks tokens
  obtain ⟨c, cs, rfl, hc⟩ := hname.1.exists_cons
  have hplace : column + (c :: cs).length ≠ 0 := by simp
  have hvalue := readToken_value (k := ⟨c :: cs ++ ':' :: rest, column, required, tokens.length⟩)
    hplace h rfl (mayBeKey_key hname rest) hrest (.scalar (String.ofList (c :: cs)) .plain)
  have hinside : ∀ b, blocks.head? = some b → b ≤ column + (c :: cs).length :=
    fun b hb => Nat.le_add_right_of_le (h.head? b hb)
  have hcolon : (⟨':' :: rest, column + (c :: cs).length, false⟩ : Cursor).next false =
      ⟨':' :: rest, column + (c :: cs).length, false⟩ := by
    simp [Cursor.next, skipGap, isBreak]
  rw [List.cons_append] at hkey hvalue ⊢
  rw [atLine, readAll_step (lineStart_word hc column _) h.head?, hkey, Option.bind_some,
    readAll_step hcolon hinside, hvalue, Option.bind_some]

/-! ### Lines -/

theorem readAll_break (column : Nat) (rest : List Char) (blocks : List Nat) (tokens : List Token)
    (fuel : Nat) :
    (Lexer.mk ⟨'\n' :: rest, column, false⟩ blocks none [] tokens).readAll fuel =
      (atLine rest blocks tokens).readAll fuel :=
  readAll_congr (next_break column false rest) blocks none tokens fuel

theorem readAll_value {column : Nat} {text : List Char} {style : Style} {written : List Char}
    (h : StandsFor column text style written) {rest : List Char}
    (hrest : Dedents (column + 1) rest) {place : Nat} (hplace : column ≤ place)
    (blocks : List Nat) (tokens : List Token) (fuel : Nat) :
    (Lexer.mk ⟨' ' :: (written ++ rest), place, false⟩ (column :: blocks) none [] tokens).readAll
        (fuel + 1) =
      (atLine rest (column :: blocks) (.scalar (String.ofList text) style :: tokens)).readAll
        fuel := by
  obtain ⟨after, hread, hafter⟩ := h.reads hrest blocks tokens (Nat.succ_ne_zero place)
  obtain ⟨c, cs, hwritten, hspace, hbreak, hcomment⟩ := h.begins
  rw [hwritten, List.cons_append] at hread ⊢
  have hnext : (⟨' ' :: c :: (cs ++ rest), place, false⟩ : Cursor).next false =
      ⟨c :: (cs ++ rest), place + 1, false⟩ := by
    have hblank : c ≠ ' ' ∧ c ≠ '\t' := by simpa [isSpace] using hspace
    rw [Cursor.next, skipGap_space]
    simp [skipGap, hbreak, hblank, hcomment]
  have hinside : ∀ b, (column :: blocks).head? = some b → b ≤ place + 1 := by
    rintro b ⟨⟩
    omega
  rw [readAll_step hnext hinside, hread, Option.bind_some]
  exact readAll_congr hafter _ none _ fuel

end Lexer

/-- A line of a block: a key, and characters that stand for a scalar. -/
structure Line where
  name : String
  text : String
  style : Style
  written : List Char

namespace Line

def chars (column : Nat) (l : Line) : List Char :=
  List.replicate column ' ' ++ (l.name.toList ++ ':' :: ' ' :: l.written)

def tokens (l : Line) : List Token :=
  [.key, .scalar l.name .plain, .value, .scalar l.text l.style]

structure Fits (column : Nat) (l : Line) : Prop where
  key : Lexer.IsKey l.name.toList
  value : StandsFor column l.text.toList l.style l.written

end Line

theorem dedents_word {name : List Char} (hname : IsWord name) (column : Nat) (rest : List Char) :
    Dedents (column + 1) (List.replicate column ' ' ++ (name ++ rest)) := by
  obtain ⟨c, cs, rfl, hc⟩ := hname.exists_cons
  exact .line (Nat.lt_succ_self column) hc

theorem dedents_lines {column : Nat} {ls : List Line} (hls : ∀ l ∈ ls, l.Fits column)
    {rest : List Char} (hrest : Dedents (column + 1) rest) :
    Dedents (column + 1) (ls.flatMap (Line.chars column) ++ rest) := by
  cases ls with
  | nil => exact hrest
  | cons l ls =>
    rw [List.flatMap_cons, Line.chars, List.append_assoc, List.append_assoc, List.append_assoc]
    exact dedents_word (hls l (List.mem_cons_self ..)).key.1 column _

namespace Lexer

theorem readAll_line {column : Nat} {l : Line} (hl : l.Fits column) {rest : List Char}
    (hrest : Dedents (column + 1) rest) (blocks : List Nat) (tokens : List Token) (fuel : Nat) :
    (atLine (l.chars column ++ rest) (column :: blocks) tokens).readAll (fuel + 3) =
      (atLine rest (column :: blocks) (l.tokens.reverse ++ tokens)).readAll fuel := by
  have hchars : l.chars column ++ rest =
      List.replicate column ' ' ++ (l.name.toList ++ ':' :: ' ' :: (l.written ++ rest)) := by
    simp [Line.chars]
  have hplace : column ≤ column + l.name.toList.length + 1 := by omega
  rw [hchars, readAll_key (.inside blocks tokens) hl.key rfl (fuel + 1),
    readAll_value hl.value hrest hplace]
  simp [Line.tokens]

/-- The lines of an open block are read as its entries. -/
theorem readAll_lines {column : Nat} {ls : List Line} (hls : ∀ l ∈ ls, l.Fits column)
    {rest : List Char} (hrest : Dedents (column + 1) rest) (blocks : List Nat)
    (tokens : List Token) (fuel : Nat) :
    (atLine (ls.flatMap (Line.chars column) ++ rest) (column :: blocks) tokens).readAll
        (fuel + 3 * ls.length) =
      (atLine rest (column :: blocks) ((ls.flatMap Line.tokens).reverse ++ tokens)).readAll
        fuel := by
  induction ls generalizing tokens with
  | nil => rfl
  | cons l ls ih =>
    have hmore := fun x hx => hls x (List.mem_cons_of_mem l hx)
    have hfuel : fuel + 3 * (l :: ls).length = fuel + 3 * ls.length + 3 := by
      rw [List.length_cons]
      omega
    rw [List.flatMap_cons, List.append_assoc, hfuel,
      readAll_line (hls l (List.mem_cons_self ..)) (dedents_lines hmore hrest), ih hmore]
    simp

/-- A key that opens a block is read as if the block were open already. -/
theorem readAll_opens {column : Nat} {blocks : List Nat}
    (hblocks : ∀ b, blocks.head? = some b → b < column) {name : List Char} (hname : IsKey name)
    {rest : List Char} (hrest : endsWord rest = true) (tokens : List Token) (fuel : Nat) :
    (atLine (List.replicate column ' ' ++ (name ++ ':' :: rest)) blocks tokens).readAll (fuel + 2) =
      (atLine (List.replicate column ' ' ++ (name ++ ':' :: rest)) (column :: blocks)
        (.mappingStart :: tokens)).readAll (fuel + 2) := by
  rw [readAll_key (.opens hblocks tokens) hname hrest, readAll_key (.inside ..) hname hrest]

theorem readAll_block {column : Nat} {ls : List Line} (hne : ls ≠ [])
    (hls : ∀ l ∈ ls, l.Fits column) {rest : List Char} (hrest : Dedents (column + 1) rest)
    {blocks : List Nat} (hblocks : ∀ b, blocks.head? = some b → b < column) (tokens : List Token)
    (fuel : Nat) :
    (atLine (ls.flatMap (Line.chars column) ++ rest) blocks tokens).readAll
        (fuel + 3 * ls.length) =
      (atLine rest (column :: blocks)
        ((ls.flatMap Line.tokens).reverse ++ .mappingStart :: tokens)).readAll fuel := by
  -- only the first key opens the block, so the other lines need not be read again
  rw [← readAll_lines hls hrest]
  cases ls with
  | nil => exact absurd rfl hne
  | cons l ls =>
    have hkey := (hls l (List.mem_cons_self ..)).key
    have hfuel : fuel + 3 * (l :: ls).length = fuel + 3 * ls.length + 1 + 2 := by
      rw [List.length_cons]
      omega
    have hchars : (l :: ls).flatMap (Line.chars column) ++ rest =
        List.replicate column ' ' ++ (l.name.toList ++
          ':' :: ' ' :: (l.written ++ (ls.flatMap (Line.chars column) ++ rest))) := by
      simp [Line.chars]
    rw [hfuel, hchars, readAll_opens hblocks hkey rfl]

end Lexer

/-! ### Outlines -/

/-- Lines of a mapping, and behind them a key with lines of its own, which are
indented by two. -/
structure Outline where
  lines : List Line
  name : String
  below : List Line

namespace Outline

def chars (o : Outline) : List Char :=
  o.lines.flatMap (Line.chars 0) ++ (o.name.toList ++ ':' :: '\n' :: o.below.flatMap (Line.chars 2))

def tokens (o : Outline) : List Token :=
  .mappingStart :: o.lines.flatMap Line.tokens ++
    .key :: .scalar o.name .plain :: .value ::
      .mappingStart :: o.below.flatMap Line.tokens ++ [.blockEnd, .blockEnd]

structure Fits (o : Outline) : Prop where
  lines_ne_nil : o.lines ≠ []
  lines_fit : ∀ l ∈ o.lines, l.Fits 0
  key : Lexer.IsKey o.name.toList
  below_ne_nil : o.below ≠ []
  below_fit : ∀ l ∈ o.below, l.Fits 2

end Outline

theorem length_lines_le {column : Nat} {ls : List Line} (hls : ∀ l ∈ ls, l.Fits column) :
    3 * ls.length ≤ (ls.flatMap (Line.chars column)).length := by
  induction ls with
  | nil => exact Nat.le_refl 0
  | cons l ls ih =>
    have hname := List.length_pos_iff.mpr (hls l (List.mem_cons_self ..)).key.1.1
    have ih := ih fun x hx => hls x (List.mem_cons_of_mem l hx)
    rw [List.flatMap_cons, List.length_append, List.length_cons]
    simp only [Line.chars, List.length_append, List.length_replicate, List.length_cons]
    omega

/-- The tokens of an outline. -/
theorem ofChars?_outline {o : Outline} (h : o.Fits) : Token.ofChars? o.chars = some o.tokens := by
  have hname := List.length_pos_iff.mpr h.key.1.1
  have hlines := length_lines_le h.lines_fit
  have hbelow := length_lines_le h.below_fit
  -- three steps for each line, two for the key between them, and one for the end
  obtain ⟨fuel, hfuel⟩ : ∃ fuel, o.chars.length + 1 =
      fuel + 1 + 3 * o.below.length + 2 + 3 * o.lines.length := by
    refine ⟨o.chars.length - 3 * o.below.length - 2 - 3 * o.lines.length, ?_⟩
    simp only [Outline.chars, List.length_append, List.length_cons]
    omega
  let below := o.below.flatMap (Line.chars 2)
  have hstart : Lexer.start o.chars = .atLine (o.lines.flatMap (Line.chars 0) ++
    (List.replicate 0 ' ' ++ (o.name.toList ++ ':' :: '\n' :: below))) [] [] := rfl
  have hnone : ∀ b, ([] : List Nat).head? = some b → b < 0 := fun _ hb => nomatch hb
  have hzero : ∀ b, [0].head? = some b → b < 2 := by
    rintro b ⟨⟩
    decide
  rw [Token.ofChars?, hfuel, hstart,
    Lexer.readAll_block h.lines_ne_nil h.lines_fit (dedents_word h.key.1 0 _) hnone,
    Lexer.readAll_key (.inside ..) h.key rfl, Lexer.readAll_break, ← List.append_nil below,
    Lexer.readAll_block h.below_ne_nil h.below_fit .nothing hzero, Lexer.readAll_end]
  simp [Outline.tokens]

end Mediation.Yaml
