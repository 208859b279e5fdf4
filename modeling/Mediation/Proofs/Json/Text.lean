import Mediation.Json.Document
import Mediation.Proofs.Decimal

/-!
# What is written can be read

A text spells a value when it consists of the parts of the value with blanks
between them; both written forms do. Reading a text that spells a value gives
the document of that value, provided that its integers fit 64 bits and that it
is not nested too deep (`readDocument_of_spells`).
-/

namespace Mediation

namespace Json

/-! ### Strings -/

/-- How a character of a string is read: as a code unit where it is written by one. -/
def pieceOf (c : Char) : Piece :=
  if c.toNat < 32 && c ∉ ['\n', '\r', '\t', '\x08', '\x0c'] then .codeUnit c.toNat else .char c

theorem scanPieces_codeUnit {n : Nat} (h : n < 16 ^ 4) (r : List Char) :
    scanPieces ('\\' :: 'u' :: Radix.digits 4 n ++ r) =
      (scanPieces r).map fun p => (.codeUnit n :: p.1, p.2) := by
  have hlength := Radix.length_digits 4 n
  have hnumber := Radix.number?_digits 4 n h
  match hds : Radix.digits 4 n, hlength with
  | [a, b, c, d], _ =>
    rw [hds] at hnumber
    simp only [List.cons_append, List.nil_append, scanPieces, hnumber]
    cases scanPieces r <;> rfl

theorem scanPieces_shortEscape {e c : Char} (h : shortEscape? e = some c) (hu : e ≠ 'u')
    (r : List Char) :
    scanPieces ('\\' :: e :: r) = (scanPieces r).map fun p => (.char c :: p.1, p.2) := by
  rw [scanPieces.eq_def]
  split
  next heq => cases heq
  next heq => cases heq
  next heq =>
    cases heq
    exact absurd rfl hu
  next heq =>
    cases heq
    rw [h]
    cases scanPieces r <;> rfl
  next hne heq =>
    cases heq
    exact absurd rfl (hne e r rfl)

theorem scanPieces_plain {c : Char} (h : 32 ≤ c.toNat) (hq : c ≠ '"') (hb : c ≠ '\\')
    (r : List Char) :
    scanPieces (c :: r) = (scanPieces r).map fun p => (.char c :: p.1, p.2) := by
  rw [scanPieces.eq_def]
  split
  next heq => cases heq
  next heq =>
    cases heq
    exact absurd rfl hq
  next heq =>
    cases heq
    exact absurd rfl hb
  next heq =>
    cases heq
    exact absurd rfl hb
  next heq =>
    cases heq
    rw [if_neg]
    simp [hb]
    omega

theorem scanPieces_escapeChar (c : Char) (r : List Char) :
    scanPieces (escapeChar c ++ r) =
      (scanPieces r).map fun p => (pieceOf c :: p.1, p.2) := by
  unfold escapeChar
  split
  next h =>
    subst h
    exact scanPieces_shortEscape (e := '"') rfl (by decide) r
  split
  next h =>
    subst h
    exact scanPieces_shortEscape (e := '\\') rfl (by decide) r
  split
  next h =>
    subst h
    exact scanPieces_shortEscape (e := 'n') rfl (by decide) r
  split
  next h =>
    subst h
    exact scanPieces_shortEscape (e := 'r') rfl (by decide) r
  split
  next h =>
    subst h
    exact scanPieces_shortEscape (e := 't') rfl (by decide) r
  split
  next h =>
    subst h
    exact scanPieces_shortEscape (e := 'b') rfl (by decide) r
  split
  next h =>
    subst h
    exact scanPieces_shortEscape (e := 'f') rfl (by decide) r
  split
  next hq hb hn hr ht h8 hc h =>
    have hpiece : pieceOf c = .codeUnit c.toNat := by
      simp [pieceOf, h, hn, hr, ht, h8, hc]
    rw [hpiece]
    exact scanPieces_codeUnit (by omega) r
  next hq hb hn hr ht h8 hc h =>
    have hpiece : pieceOf c = .char c := by
      simp [pieceOf, h]
    rw [hpiece]
    exact scanPieces_plain (by omega) hq hb r

theorem joinPieces_codeUnit {n : Nat} (h : n < 0xD800) (ps : List Piece) :
    joinPieces (.codeUnit n :: ps) = (joinPieces ps).map (Char.ofNat n :: ·) := by
  have hlow : ¬ (0xD800 ≤ n) := by omega
  cases ps with
  | nil => simp [joinPieces, hlow]
  | cons p ps => cases p <;> simp [joinPieces, hlow]

theorem joinPieces_pieceOf (c : Char) (ps : List Piece) :
    joinPieces (pieceOf c :: ps) = (joinPieces ps).map (c :: ·) := by
  unfold pieceOf
  split
  next h =>
    simp only [Bool.and_eq_true, decide_eq_true_eq] at h
    rw [joinPieces_codeUnit (by omega), Char.ofNat_toNat]
  next => rw [joinPieces]

theorem joinPieces_map_pieceOf (cs : List Char) : joinPieces (cs.map pieceOf) = some cs := by
  induction cs with
  | nil => rfl
  | cons c cs ih => rw [List.map_cons, joinPieces_pieceOf, ih, Option.map_some]

theorem scanPieces_quoted (cs r : List Char) :
    scanPieces (cs.flatMap escapeChar ++ '"' :: r) = some (cs.map pieceOf, r) := by
  induction cs with
  | nil => rfl
  | cons c cs ih =>
    rw [List.flatMap_cons, List.append_assoc, scanPieces_escapeChar, ih]
    rfl


/-! ### Numbers -/

/-- A text that does not go on with a number. -/
def Delimited (cs : List Char) : Prop :=
  ∀ c, cs.head? = some c → Decimal.isDigit c = false ∧ c ≠ '.' ∧ c ≠ 'e' ∧ c ≠ 'E'

theorem integerDocument_of_nonneg {n : Nat} (h : n < 2 ^ 64) :
    integerDocument false (Decimal.digits n) = .int n := by
  simp only [integerDocument, Decimal.value_digits, Bool.false_and, Bool.false_or]
  rw [if_neg (by simpa using h), if_neg (by decide)]

theorem integerDocument_of_neg {n : Nat} (h0 : n ≠ 0) (h : n ≤ 2 ^ 63) :
    integerDocument true (Decimal.digits n) = .int (-n) := by
  simp only [integerDocument, Decimal.value_digits, Bool.true_and]
  rw [if_neg (by simp only [Bool.or_eq_true, decide_eq_true_eq, not_or]; omega)]
  simp

theorem scanUnsigned_digits {negative : Bool} {n : Nat} {r : List Char} (hr : Delimited r) :
    scanUnsigned negative (Decimal.digits n ++ r) =
      some (integerDocument negative (Decimal.digits n), r) := by
  have hspan := Decimal.span_append (Decimal.isDigit_of_mem_digits n) fun c hc => (hr c hc).1
  have hfraction : scanFraction r = some ([], r) := by
    unfold scanFraction
    split
    next => exact absurd rfl (hr _ rfl).2.1
    next => rfl
  have hexponent : scanExponent r = some ([], none, r) := by
    cases r with
    | nil => rfl
    | cons c cs =>
      obtain ⟨-, -, he, hE⟩ := hr c rfl
      simp [scanExponent, he, hE]
  unfold scanUnsigned
  simp only [hspan]
  split
  next h => exact absurd h (Decimal.digits_ne_nil n)
  next h => exact absurd h (Decimal.digits_ne_zero_cons n _ _)
  next =>
    simp only [hfraction, hexponent]
    rfl

theorem scanNumber_signed {i : Int} (hlow : -(2 ^ 63) ≤ i) (hhigh : i < 2 ^ 64) {r : List Char}
    (hr : Delimited r) : scanNumber (Decimal.signed i ++ r) = some (.int i, r) := by
  unfold Decimal.signed
  split
  next h =>
    rw [List.cons_append, scanNumber, scanUnsigned_digits hr,
      integerDocument_of_neg (by omega) (by omega)]
    congr 3
    omega
  next h =>
    have hplain : ∀ cs, Decimal.digits i.natAbs ++ r ≠ '-' :: cs := by
      intro cs heq
      cases hds : Decimal.digits i.natAbs with
      | nil => exact Decimal.digits_ne_nil _ hds
      | cons c ds =>
        have hdigit := Decimal.isDigit_of_mem_digits i.natAbs c (hds ▸ List.mem_cons_self ..)
        rw [hds] at heq
        cases heq
        revert hdigit
        decide
    unfold scanNumber
    split
    next heq => exact absurd heq (hplain _)
    next =>
      rw [scanUnsigned_digits hr, integerDocument_of_nonneg (by omega)]
      congr 3
      omega
/-! ### Spelling -/

def Blanks (cs : List Char) : Prop := ∀ c ∈ cs, isBlank c = true

theorem skipBlanks_append {b : List Char} (hb : Blanks b) (cs : List Char) :
    skipBlanks (b ++ cs) = skipBlanks cs := by
  induction b with
  | nil => rfl
  | cons c b ih =>
    rw [List.cons_append, skipBlanks, if_pos (hb c (List.mem_cons_self ..))]
    exact ih fun d hd => hb d (List.mem_cons_of_mem _ hd)

theorem skipBlanks_cons {c : Char} (hc : isBlank c = false) (cs : List Char) :
    skipBlanks (c :: cs) = c :: cs := by
  rw [skipBlanks, if_neg (by simp [hc])]

theorem blanks_nil : Blanks [] := fun _ hc => absurd hc List.not_mem_nil

theorem blanks_space : Blanks [' '] := fun _ hc => List.mem_singleton.mp hc ▸ rfl

theorem blanks_newline (level : Nat) : Blanks (newline level) := by
  intro c hc
  rcases List.mem_cons.mp hc with rfl | hc
  · rfl
  · rw [(List.mem_replicate.mp hc).2]
    rfl

mutual

/-- A text consists of the parts of a value, with blanks between them. -/
def Spells : Json → List Char → Prop
  | .null, cs => cs = ['n', 'u', 'l', 'l']
  | .bool true, cs => cs = ['t', 'r', 'u', 'e']
  | .bool false, cs => cs = ['f', 'a', 'l', 's', 'e']
  | .int i, cs => cs = Decimal.signed i
  | .string s, cs => cs = quote s
  | .array js, cs => ∃ t, cs = '[' :: t ∧ SpellsItems js t
  | .object ms, cs => ∃ t, cs = '\x7b' :: t ∧ SpellsMembers ms t

/-- The items of an array up to the closing bracket. -/
def SpellsItems : List Json → List Char → Prop
  | [], cs => ∃ b, Blanks b ∧ cs = b ++ [']']
  | [j], cs => ∃ b v b', Blanks b ∧ Spells j v ∧ Blanks b' ∧ cs = b ++ v ++ b' ++ [']']
  | j :: js, cs =>
    ∃ b v b' t, Blanks b ∧ Spells j v ∧ Blanks b' ∧ SpellsItems js t
      ∧ cs = b ++ v ++ b' ++ ',' :: t

/-- The members of an object up to the closing brace. -/
def SpellsMembers : List (String × Json) → List Char → Prop
  | [], cs => ∃ b, Blanks b ∧ cs = b ++ ['\x7d']
  | [(k, j)], cs =>
    ∃ b b' v b'', Blanks b ∧ Blanks b' ∧ Spells j v ∧ Blanks b''
      ∧ cs = b ++ quote k ++ ':' :: b' ++ v ++ b'' ++ ['\x7d']
  | (k, j) :: ms, cs =>
    ∃ b b' v b'' t, Blanks b ∧ Blanks b' ∧ Spells j v ∧ Blanks b'' ∧ SpellsMembers ms t
      ∧ cs = b ++ quote k ++ ':' :: b' ++ v ++ b'' ++ ',' :: t

end

mutual

theorem spells_compact : ∀ j : Json, Spells j (compact j)
  | .null | .bool true | .bool false | .int _ | .string _ => by simp only [Spells, compact]
  | .array js => by
    rw [Spells, compact]
    exact ⟨_, rfl, spellsItems_compactItems js⟩
  | .object ms => by
    rw [Spells, compact]
    exact ⟨_, rfl, spellsMembers_compactMembers ms⟩

theorem spellsItems_compactItems : ∀ js : List Json, SpellsItems js (compactItems js)
  | [] => by
    rw [SpellsItems, compactItems]
    exact ⟨[], blanks_nil, rfl⟩
  | [j] => by
    rw [SpellsItems, compactItems]
    exact ⟨[], _, [], blanks_nil, spells_compact j, blanks_nil, by simp⟩
  | j :: j' :: js => by
    rw [SpellsItems.eq_3 _ _ _ (by simp), compactItems.eq_3 _ _ (by simp)]
    exact ⟨[], _, [], _, blanks_nil, spells_compact j, blanks_nil,
      spellsItems_compactItems (j' :: js), by simp⟩

theorem spellsMembers_compactMembers :
    ∀ ms : List (String × Json), SpellsMembers ms (compactMembers ms)
  | [] => by
    rw [SpellsMembers, compactMembers]
    exact ⟨[], blanks_nil, rfl⟩
  | [(k, j)] => by
    rw [SpellsMembers, compactMembers]
    exact ⟨[], [], _, [], blanks_nil, blanks_nil, spells_compact j, blanks_nil, by simp⟩
  | (k, j) :: m :: ms => by
    rw [SpellsMembers.eq_3 _ _ _ _ (by simp), compactMembers.eq_3 _ _ _ (by simp)]
    exact ⟨[], [], _, [], _, blanks_nil, blanks_nil, spells_compact j, blanks_nil,
      spellsMembers_compactMembers (m :: ms), by simp⟩

end

theorem spellsItems_indentedItems {level : Nat} (outer : Nat) {j : Json} {js : List Json}
    (h : ∀ i ∈ j :: js, Spells i (indented level i)) :
    SpellsItems (j :: js)
      (newline level ++ indented level j ++ indentedItems level js ++ newline outer ++ [']']) := by
  induction js generalizing j with
  | nil =>
    rw [SpellsItems, indentedItems]
    exact ⟨_, _, _, blanks_newline level, h j (List.mem_singleton_self j), blanks_newline outer,
      by simp⟩
  | cons j' js ih =>
    rw [SpellsItems.eq_3 _ _ _ (by simp), indentedItems]
    exact ⟨_, _, [], _, blanks_newline level, h j (List.mem_cons_self ..), blanks_nil,
      ih fun i hi => h i (List.mem_cons_of_mem _ hi), by simp⟩

theorem spellsMembers_indentedMembers {level : Nat} (outer : Nat) {m : String × Json}
    {ms : List (String × Json)} (h : ∀ i ∈ m :: ms, Spells i.2 (indented level i.2)) :
    SpellsMembers (m :: ms)
      (newline level ++ quote m.1 ++ ':' :: ' ' :: indented level m.2 ++ indentedMembers level ms
        ++ newline outer ++ ['\x7d']) := by
  induction ms generalizing m with
  | nil =>
    rw [SpellsMembers, indentedMembers]
    exact ⟨_, _, _, _, blanks_newline level, blanks_space, h m (List.mem_singleton_self m),
      blanks_newline outer, by simp⟩
  | cons m' ms ih =>
    rw [SpellsMembers.eq_3 _ _ _ _ (by simp), indentedMembers]
    exact ⟨_, _, _, [], _, blanks_newline level, blanks_space, h m (List.mem_cons_self ..),
      blanks_nil, ih fun i hi => h i (List.mem_cons_of_mem _ hi), by simp⟩

mutual

theorem spells_indented (level : Nat) : ∀ j : Json, Spells j (indented level j)
  | .null | .bool true | .bool false | .int _ | .string _ => by simp only [Spells, indented]
  | .array [] => by
    rw [Spells, indented]
    refine ⟨_, rfl, ?_⟩
    rw [SpellsItems]
    exact ⟨[], blanks_nil, rfl⟩
  | .array (j :: js) => by
    rw [Spells, indented]
    exact ⟨_, rfl, spellsItems_indentedItems level (spells_indented_items (level + 1) (j :: js))⟩
  | .object [] => by
    rw [Spells, indented]
    refine ⟨_, rfl, ?_⟩
    rw [SpellsMembers]
    exact ⟨[], blanks_nil, rfl⟩
  | .object (m :: ms) => by
    rw [Spells, indented]
    exact ⟨_, rfl,
      spellsMembers_indentedMembers level (spells_indented_members (level + 1) (m :: ms))⟩

theorem spells_indented_items (level : Nat) :
    ∀ js : List Json, ∀ j ∈ js, Spells j (indented level j)
  | [] => fun _ hi => absurd hi List.not_mem_nil
  | j :: js => fun i hi => by
    rcases List.mem_cons.mp hi with h | h
    · exact h ▸ spells_indented level j
    · exact spells_indented_items level js i h

theorem spells_indented_members (level : Nat) :
    ∀ ms : List (String × Json), ∀ m ∈ ms, Spells m.2 (indented level m.2)
  | [] => fun _ hi => absurd hi List.not_mem_nil
  | (k, j) :: ms => fun i hi => by
    rcases List.mem_cons.mp hi with h | h
    · exact h ▸ spells_indented level j
    · exact spells_indented_members level ms i h

end

/-! ### Reading -/

/-- Whether a value can be read: its integers fit 64 bits, and its arrays and
objects are nested at most `n` deep. -/
def Fits : Nat → Json → Prop
  | _, .null | _, .bool _ | _, .string _ => True
  | _, .int i => -(2 ^ 63) ≤ i ∧ i < 2 ^ 64
  | 0, .array _ | 0, .object _ => False
  | n + 1, .array js => ∀ j ∈ js, Fits n j
  | n + 1, .object ms => ∀ m ∈ ms, Fits n m.2

/-- Any text that spells the value is read as its document. -/
def ReadsBack (depth : Nat) (j : Json) : Prop :=
  ∀ cs fuel rest, Spells j cs → cs.length < fuel → Delimited rest →
    readValue fuel depth (cs ++ rest) = (j.toDocument, some rest)

theorem delimited_append {b : List Char} (hb : Blanks b) {cs : List Char} (h : Delimited cs) :
    Delimited (b ++ cs) := by
  cases b with
  | nil => exact h
  | cons d b =>
    intro c hc
    cases hc
    have key : ∀ c, isBlank c = true → c = ' ' ∨ c = '\n' ∨ c = '\t' ∨ c = '\r' := by
      simp [isBlank, or_assoc]
    rcases key d (hb d (List.mem_cons_self ..)) with rfl | rfl | rfl | rfl <;> decide

theorem delimited_cons {c : Char} (h : c = ',' ∨ c = ']' ∨ c = '\x7d') (cs : List Char) :
    Delimited (c :: cs) := by
  intro d hd
  cases hd
  rcases h with rfl | rfl | rfl <;> decide

theorem head?_signed (i : Int) :
    ∃ c cs, Decimal.signed i = c :: cs ∧ (c = '-' ∨ Decimal.isDigit c = true) := by
  unfold Decimal.signed
  split
  · exact ⟨_, _, rfl, .inl rfl⟩
  · cases hds : Decimal.digits i.natAbs with
    | nil => exact absurd hds (Decimal.digits_ne_nil _)
    | cons c cs =>
      exact ⟨c, cs, rfl, .inr (Decimal.isDigit_of_mem_digits _ c (hds ▸ List.mem_cons_self ..))⟩

theorem Spells.head {j : Json} {cs : List Char} (h : Spells j cs) :
    ∃ c r, cs = c :: r ∧ isBlank c = false ∧ c ≠ ']' := by
  cases j with
  | null =>
    rw [Spells] at h
    exact ⟨_, _, h, rfl, by decide⟩
  | bool b =>
    cases b <;> (rw [Spells] at h; exact ⟨_, _, h, rfl, by decide⟩)
  | int i =>
    rw [Spells] at h
    obtain ⟨c, r, hs, hc⟩ := head?_signed i
    refine ⟨c, r, h.trans hs, ?_, ?_⟩
    · rcases hc with rfl | hc
      · rfl
      · simp only [isBlank, Bool.or_eq_false_iff, decide_eq_false_iff_not]
        refine ⟨⟨⟨?_, ?_⟩, ?_⟩, ?_⟩ <;> (rintro rfl; revert hc; decide)
    · rintro rfl
      revert hc
      decide
  | string s =>
    rw [Spells] at h
    exact ⟨_, _, h, rfl, by decide⟩
  | array js =>
    rw [Spells] at h
    obtain ⟨t, ht, -⟩ := h
    exact ⟨_, _, ht, rfl, by decide⟩
  | object ms =>
    rw [Spells] at h
    obtain ⟨t, ht, -⟩ := h
    exact ⟨_, _, ht, rfl, by decide⟩

theorem readValue_blanks {b : List Char} (hb : Blanks b) (fuel depth : Nat) (cs : List Char) :
    readValue fuel depth (b ++ cs) = readValue fuel depth cs := by
  cases fuel with
  | zero => simp only [readValue]
  | succ fuel => simp only [readValue, skipBlanks_append hb]

theorem readsBack_null (depth : Nat) : ReadsBack depth .null := by
  intro cs fuel rest h hf _
  obtain ⟨fuel, rfl⟩ := Nat.exists_eq_add_one_of_ne_zero (Nat.ne_zero_of_lt hf)
  rw [Spells] at h
  subst h
  rfl

theorem readsBack_bool (depth : Nat) (b : Bool) : ReadsBack depth (.bool b) := by
  intro cs fuel rest h hf _
  obtain ⟨fuel, rfl⟩ := Nat.exists_eq_add_one_of_ne_zero (Nat.ne_zero_of_lt hf)
  cases b <;> (rw [Spells] at h; subst h; rfl)

theorem readsBack_string (depth : Nat) (s : String) : ReadsBack depth (.string s) := by
  intro cs fuel rest h hf _
  obtain ⟨fuel, rfl⟩ := Nat.exists_eq_add_one_of_ne_zero (Nat.ne_zero_of_lt hf)
  rw [Spells] at h
  subst h
  have hpieces := scanPieces_quoted s.toList rest
  rw [quote, List.cons_append, List.append_assoc, readValue, skipBlanks_cons rfl]
  simp only [List.cons_append, List.nil_append, hpieces, stringDocument, joinPieces_map_pieceOf,
    String.ofList_toList, toDocument]

theorem readsBack_int (depth : Nat) {i : Int} (hi : -(2 ^ 63) ≤ i ∧ i < 2 ^ 64) :
    ReadsBack depth (.int i) := by
  intro cs fuel rest h hf hr
  obtain ⟨fuel, rfl⟩ := Nat.exists_eq_add_one_of_ne_zero (Nat.ne_zero_of_lt hf)
  have hhead := Spells.head h
  rw [Spells] at h
  subst h
  have hscan := scanNumber_signed hi.1 hi.2 hr
  obtain ⟨c, r, hs, hc⟩ := head?_signed i
  rw [hs] at hscan hhead ⊢
  obtain ⟨_, _, heq, hblank, -⟩ := hhead
  cases heq
  rw [List.cons_append] at hscan ⊢
  rw [readValue, skipBlanks_cons hblank]
  split
  case h_7 => simp only [hscan, toDocument]
  all_goals
    next heq =>
      obtain ⟨rfl, -⟩ := List.cons.inj heq
      exact absurd hc (by decide)

/-- What follows an item decides how the array goes on. -/
theorem readItems_item {depth : Nat} {j : Json} (hj : ReadsBack depth j) {b v w : List Char}
    (hb : Blanks b) (hv : Spells j v) (hw : Delimited w) {fuel : Nat} (hf : v.length < fuel)
    (first : Bool) :
    readItems (fuel + 1) depth first (b ++ v ++ w) =
      match skipBlanks w with
      | ']' :: r => ([j.toDocument], some r)
      | ',' :: r =>
        let (ds, rest) := readItems fuel depth false r
        (j.toDocument :: ds, rest)
      | _ => ([j.toDocument, .malformed], none) := by
  obtain ⟨c, r, hcr, hblank, hclose⟩ := hv.head
  have hread := hj v fuel w hv hf hw
  subst hcr
  have hskip : skipBlanks (b ++ c :: r ++ w) = c :: r ++ w := by
    rw [List.append_assoc, skipBlanks_append hb, List.cons_append, skipBlanks_cons hblank]
  -- the first character of a value is no closing bracket
  have hopen : ∀ r', first = true → skipBlanks (b ++ c :: r ++ w) = ']' :: r' → False := by
    intro r' _ heq
    rw [hskip] at heq
    exact hclose (List.cons.inj heq).1
  have hstep := readItems.eq_3 depth _ fuel first hopen
  rw [hskip, hread] at hstep
  exact hstep

theorem readItems_spells {depth : Nat} {js : List Json} (h : ∀ j ∈ js, ReadsBack depth j)
    {t : List Char} (ht : SpellsItems js t) {fuel : Nat} (hf : t.length < fuel) (rest : List Char)
    {first : Bool} (hfirst : first = true ∨ js ≠ []) :
    readItems fuel depth first (t ++ rest) = (toDocuments js, some rest) := by
  induction js generalizing t fuel first with
  | nil =>
    obtain ⟨fuel, rfl⟩ := Nat.exists_eq_add_one_of_ne_zero (Nat.ne_zero_of_lt hf)
    obtain rfl : first = true := hfirst.resolve_right fun h => h rfl
    rw [SpellsItems] at ht
    obtain ⟨b, hb, rfl⟩ := ht
    have hskip : skipBlanks (b ++ [']'] ++ rest) = ']' :: rest := by
      rw [List.append_assoc, skipBlanks_append hb]
      rfl
    simp only [readItems, hskip, toDocuments]
  | cons j js ih =>
    obtain ⟨fuel, rfl⟩ := Nat.exists_eq_add_one_of_ne_zero (Nat.ne_zero_of_lt hf)
    have hj := h j (List.mem_cons_self ..)
    cases js with
    | nil =>
      rw [SpellsItems] at ht
      obtain ⟨b, v, b', hb, hv, hb', rfl⟩ := ht
      have hw := delimited_append hb' (delimited_cons (.inr (.inl rfl)) rest)
      simp only [List.length_append, List.length_cons] at hf
      have hlt : v.length < fuel := by omega
      have hstep := readItems_item hj hb hv hw hlt first
      rw [skipBlanks_append hb', skipBlanks_cons rfl] at hstep
      simpa [toDocuments] using hstep
    | cons j' js =>
      rw [SpellsItems.eq_3 _ _ _ (by simp)] at ht
      obtain ⟨b, v, b', t, hb, hv, hb', ht, rfl⟩ := ht
      have hw := delimited_append hb' (delimited_cons (.inl rfl) (t ++ rest))
      simp only [List.length_append, List.length_cons] at hf
      have hlt : v.length < fuel := by omega
      have hstep := readItems_item hj hb hv hw hlt first
      rw [skipBlanks_append hb', skipBlanks_cons rfl] at hstep
      have hmore : readItems fuel depth false (t ++ rest) = (toDocuments (j' :: js), some rest) :=
        ih (fun i hi => h i (List.mem_cons_of_mem _ hi)) ht (by omega) (.inr (by simp))
      simp only [hmore] at hstep
      simpa [toDocuments] using hstep

/-- What follows a member decides how the object goes on. -/
theorem readMembers_member {depth : Nat} {j : Json} (hj : ReadsBack depth j) {b b' v w : List Char}
    (hb : Blanks b) (hb' : Blanks b') (hv : Spells j v) (hw : Delimited w) {fuel : Nat}
    (hf : v.length < fuel) (first : Bool) (k : String) :
    readMembers (fuel + 1) depth first (b ++ quote k ++ ':' :: b' ++ v ++ w) =
      match skipBlanks w with
      | '\x7d' :: r => ([(.named k, j.toDocument)], some r)
      | ',' :: r =>
        let (ms, rest) := readMembers fuel depth false r
        ((.named k, j.toDocument) :: ms, rest)
      | _ => ([(.named k, j.toDocument), (.stray, .malformed)], none) := by
  have hread := hj v fuel w hv hf hw
  have hpieces := scanPieces_quoted k.toList (':' :: (b' ++ (v ++ w)))
  have hkey : keyOf (k.toList.map pieceOf) = .named k := by
    simp only [keyOf, joinPieces_map_pieceOf, String.ofList_toList]
  have hskip : skipBlanks (b ++ quote k ++ ':' :: b' ++ v ++ w) =
      '"' :: (k.toList.flatMap escapeChar ++ '"' :: ':' :: (b' ++ (v ++ w))) := by
    simp only [quote, List.append_assoc, List.cons_append, List.nil_append]
    rw [skipBlanks_append hb, skipBlanks_cons rfl]
  have hstep := readMembers.eq_def (fuel + 1) depth first (b ++ quote k ++ ':' :: b' ++ v ++ w)
  simp only [hskip, hpieces, skipBlanks_cons (c := ':') rfl, readValue_blanks hb', hread,
    hkey] at hstep
  exact hstep

theorem readMembers_spells {depth : Nat} {ms : List (String × Json)}
    (h : ∀ m ∈ ms, ReadsBack depth m.2) {t : List Char} (ht : SpellsMembers ms t) {fuel : Nat}
    (hf : t.length < fuel) (rest : List Char) {first : Bool} (hfirst : first = true ∨ ms ≠ []) :
    readMembers fuel depth first (t ++ rest) = (toMembers ms, some rest) := by
  induction ms generalizing t fuel first with
  | nil =>
    obtain ⟨fuel, rfl⟩ := Nat.exists_eq_add_one_of_ne_zero (Nat.ne_zero_of_lt hf)
    obtain rfl : first = true := hfirst.resolve_right fun h => h rfl
    rw [SpellsMembers] at ht
    obtain ⟨b, hb, rfl⟩ := ht
    have hskip : skipBlanks (b ++ ['\x7d'] ++ rest) = '\x7d' :: rest := by
      rw [List.append_assoc, skipBlanks_append hb]
      rfl
    simp only [readMembers, hskip, toMembers]
  | cons m ms ih =>
    obtain ⟨fuel, rfl⟩ := Nat.exists_eq_add_one_of_ne_zero (Nat.ne_zero_of_lt hf)
    obtain ⟨k, j⟩ := m
    have hj := h (k, j) (List.mem_cons_self ..)
    cases ms with
    | nil =>
      rw [SpellsMembers] at ht
      obtain ⟨b, b', v, b'', hb, hb', hv, hb'', rfl⟩ := ht
      have hw := delimited_append hb'' (delimited_cons (.inr (.inr rfl)) rest)
      simp only [List.length_append, List.length_cons] at hf
      have hlt : v.length < fuel := by omega
      have hstep := readMembers_member hj hb hb' hv hw hlt first k
      rw [skipBlanks_append hb'', skipBlanks_cons rfl] at hstep
      simpa [toMembers] using hstep
    | cons m' ms =>
      rw [SpellsMembers.eq_3 _ _ _ _ (by simp)] at ht
      obtain ⟨b, b', v, b'', t, hb, hb', hv, hb'', ht, rfl⟩ := ht
      have hw := delimited_append hb'' (delimited_cons (.inl rfl) (t ++ rest))
      simp only [List.length_append, List.length_cons] at hf
      have hlt : v.length < fuel := by omega
      have hstep := readMembers_member hj hb hb' hv hw hlt first k
      rw [skipBlanks_append hb'', skipBlanks_cons rfl] at hstep
      have hmore : readMembers fuel depth false (t ++ rest) = (toMembers (m' :: ms), some rest) :=
        ih (fun i hi => h i (List.mem_cons_of_mem _ hi)) ht (by omega) (.inr (by simp))
      simp only [hmore] at hstep
      simpa [toMembers] using hstep

theorem nest_of_lt {depth : Nat} (h : depth < maxDepth) (d : Document) : nest depth d = d :=
  if_pos h

/-- Values that fit are read as they were spelled, at any depth that leaves room for them. -/
theorem readsBack_of_fits {n depth : Nat} {j : Json} (h : Fits n j) (hd : depth + n ≤ maxDepth) :
    ReadsBack depth j := by
  induction n generalizing depth j with
  | zero =>
    cases j with
    | null => exact readsBack_null depth
    | bool b => exact readsBack_bool depth b
    | int i => exact readsBack_int depth h
    | string s => exact readsBack_string depth s
    | array _ | object _ => exact h.elim
  | succ n ih =>
    cases j with
    | null => exact readsBack_null depth
    | bool b => exact readsBack_bool depth b
    | int i => exact readsBack_int depth h
    | string s => exact readsBack_string depth s
    | array js =>
      intro cs fuel rest hs hf _
      obtain ⟨fuel, rfl⟩ := Nat.exists_eq_add_one_of_ne_zero (Nat.ne_zero_of_lt hf)
      rw [Spells] at hs
      obtain ⟨t, rfl, ht⟩ := hs
      have hitems : readItems fuel (depth + 1) true (t ++ rest) = (toDocuments js, some rest) :=
        readItems_spells (fun i hi => ih (h i hi) (by omega)) ht (by simpa using hf) rest (.inl rfl)
      rw [List.cons_append, readValue, skipBlanks_cons rfl]
      simp only [hitems, nest_of_lt (show depth < maxDepth by omega), toDocument]
    | object ms =>
      intro cs fuel rest hs hf _
      obtain ⟨fuel, rfl⟩ := Nat.exists_eq_add_one_of_ne_zero (Nat.ne_zero_of_lt hf)
      rw [Spells] at hs
      obtain ⟨t, rfl, ht⟩ := hs
      have hmembers : readMembers fuel (depth + 1) true (t ++ rest) = (toMembers ms, some rest) :=
        readMembers_spells (fun m hm => ih (h m hm) (by omega)) ht (by simpa using hf) rest
          (.inl rfl)
      rw [List.cons_append, readValue, skipBlanks_cons rfl]
      simp only [hmembers, nest_of_lt (show depth < maxDepth by omega), toDocument]

theorem readDocument_of_spells {n : Nat} {j : Json} (h : Fits n j) (hn : n ≤ maxDepth)
    {cs : List Char} (hs : Spells j cs) :
    readDocument (String.ofList cs) = (j.toDocument, true) := by
  have hread : readValue (2 * cs.length + 2) 0 (cs ++ []) = (j.toDocument, some []) :=
    readsBack_of_fits h (by omega) cs _ [] hs (by omega) fun _ hc => nomatch hc
  rw [List.append_nil] at hread
  simp only [readDocument, String.toList_ofList, hread]
  rfl

theorem readDocument_render {n : Nat} {j : Json} (h : Fits n j) (hn : n ≤ maxDepth) :
    readDocument j.render = (j.toDocument, true) :=
  readDocument_of_spells h hn (spells_compact j)

theorem readDocument_renderIndented {n : Nat} {j : Json} (h : Fits n j) (hn : n ≤ maxDepth) :
    readDocument j.renderIndented = (j.toDocument, true) :=
  readDocument_of_spells h hn (spells_indented 0 j)

mutual

theorem sound_toDocument : ∀ j : Json, j.toDocument.sound = true
  | .null | .bool _ | .int _ | .string _ => rfl
  | .array js => by
    rw [toDocument, Document.sound]
    exact soundItems_toDocuments js
  | .object ms => by
    rw [toDocument, Document.sound]
    exact soundMembers_toMembers ms

theorem soundItems_toDocuments : ∀ js : List Json, soundItems (toDocuments js) = true
  | [] => rfl
  | j :: js => by
    rw [toDocuments, soundItems, sound_toDocument j, soundItems_toDocuments js]
    rfl

theorem soundMembers_toMembers :
    ∀ ms : List (String × Json), soundMembers (toMembers ms) = true
  | [] => rfl
  | (k, j) :: ms => by
    rw [toMembers, soundMembers, sound_toDocument j, soundMembers_toMembers ms]
    rfl

end

end Json

end Mediation
