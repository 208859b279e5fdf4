import Mediation.Proofs.Yaml.Token
import Mediation.Yaml.Value

/-!
# Outlines are read as mappings

An outline is a document without directives, tags and anchors: a mapping of the
texts of its lines, and of a mapping of those below.
-/

namespace Mediation.Yaml

/-! ### Nodes -/

namespace Line

def entry (l : Line) : Node × Node :=
  (.scalar .none l.name .plain, .scalar .none l.text l.style)

def member (l : Line) : Value × Value :=
  (.scalar ⟨l.name, .plain, none⟩, .scalar ⟨l.text, l.style, none⟩)

end Line

namespace Node

theorem read_mapping (atKey : Bool) (fuel : Nat) (ts : List Token) :
    read true atKey (fuel + 1) (.mappingStart :: ts) =
      (readMapping fuel ts).map fun r => (.mapping .none r.1, r.2) := rfl

theorem readMapping_line (fuel : Nat) (l : Line) (ts : List Token) :
    readMapping (fuel + 4) (l.tokens ++ ts) =
      (readMapping (fuel + 3) ts).map fun r => (l.entry :: r.1, r.2) := rfl

theorem readMapping_lines (fuel : Nat) (ls : List Line) (ts : List Token) :
    readMapping (fuel + 3 + ls.length) (ls.flatMap Line.tokens ++ ts) =
      (readMapping (fuel + 3) ts).map fun r => (ls.map Line.entry ++ r.1, r.2) := by
  induction ls with
  | nil => simp
  | cons l ls ih =>
    have hfuel : fuel + 3 + (l :: ls).length = fuel + ls.length + 4 := by
      rw [List.length_cons]
      omega
    have hnext : fuel + ls.length + 3 = fuel + 3 + ls.length := by omega
    rw [List.flatMap_cons, List.append_assoc, hfuel, readMapping_line, hnext, ih, Option.map_map]
    rfl

theorem readMapping_section {fuel : Nat} {ts rest : List Token} {entries : List (Node × Node)}
    (h : readMapping fuel ts = some (entries, rest)) (name : String) :
    readMapping (fuel + 4) (.key :: .scalar name .plain :: .value :: .mappingStart :: ts) =
      (readMapping (fuel + 3) rest).map fun r =>
        ((.scalar .none name .plain, .mapping .none entries) :: r.1, r.2) := by
  have hvalue : readBlockValue (fuel + 3) (.value :: .mappingStart :: ts) =
      some (.mapping .none entries, rest) := by
    have hread := read_mapping true fuel ts
    rw [h] at hread
    exact hread
  have hkey (ts : List Token) : readBlockEntry (fuel + 3) (.scalar name .plain :: ts) =
      some (.scalar .none name .plain, ts) := rfl
  simp only [readMapping, hkey, hvalue]

end Node

namespace Outline

def node (o : Outline) : Node :=
  .mapping .none (o.lines.map Line.entry ++
    [(.scalar .none o.name .plain, .mapping .none (o.below.map Line.entry))])

def value (o : Outline) : Value :=
  .mapping (o.lines.map Line.member ++
    [(.scalar ⟨o.name, .plain, none⟩, .mapping (o.below.map Line.member))])

theorem length_flatMap_tokens (ls : List Line) :
    (ls.flatMap Line.tokens).length = 4 * ls.length := by
  induction ls with
  | nil => rfl
  | cons l ls ih =>
    rw [List.flatMap_cons, List.length_append, ih, List.length_cons]
    simp only [Line.tokens, List.length_cons, List.length_nil]
    omega

theorem read_tokens (o : Outline) :
    Node.read true false (Source.fuelFor o.tokens) o.tokens = some (o.node, []) := by
  have htokens : o.tokens = .mappingStart :: (o.lines.flatMap Line.tokens ++
      .key :: .scalar o.name .plain :: .value :: .mappingStart ::
        (o.below.flatMap Line.tokens ++ [.blockEnd, .blockEnd])) := by
    simp [tokens]
  have hlength : o.tokens.length = 4 * o.lines.length + 4 * o.below.length + 7 := by
    simp only [htokens, List.length_cons, List.length_append, length_flatMap_tokens,
      List.length_nil]
    omega
  -- an entry takes one call of the mapping, and the mapping below is read in the fourth call
  obtain ⟨n, hfuel⟩ : ∃ n, Source.fuelFor o.tokens =
      n + o.below.length + 4 + 3 + o.lines.length + 1 := by
    refine ⟨Source.fuelFor o.tokens - (o.below.length + o.lines.length + 8), ?_⟩
    unfold Source.fuelFor
    omega
  have hbelow : Node.readMapping (n + 3 + o.below.length)
      (o.below.flatMap Line.tokens ++ [.blockEnd, .blockEnd]) =
        some (o.below.map Line.entry, [.blockEnd]) := by
    have hend : Node.readMapping (n + 3) [.blockEnd, .blockEnd] = some ([], [.blockEnd]) := rfl
    rw [Node.readMapping_lines, hend, Option.map_some, List.append_nil]
  have hdepth : n + o.below.length + 4 + 3 = n + 3 + o.below.length + 4 := by omega
  have hend : Node.readMapping (n + 3 + o.below.length + 3) [.blockEnd] = some ([], []) := rfl
  rw [hfuel, htokens, Node.read_mapping, Node.readMapping_lines, hdepth,
    Node.readMapping_section hbelow, hend]
  rfl

end Outline

/-! ### Values -/

theorem value?_scalar (handles : List (String × String)) (text : String) (style : Style)
    (a : Anchors) :
    (Node.scalar .none text style).value? handles a = some (.scalar ⟨text, style, none⟩, a) := by
  simp [Node.value?, Properties.none, Properties.tag?, Anchors.enter, Anchors.leave, scalarTag]

theorem value?_mapping (handles : List (String × String)) (entries : List (Node × Node))
    (a : Anchors) :
    (Node.mapping .none entries).value? handles a =
      (entryValues handles entries a).map fun r => (.mapping r.1, r.2) := by
  simp [Node.value?, Properties.none, Properties.tag?, Anchors.enter, Anchors.leave]

theorem entryValues_line (handles : List (String × String)) (l : Line)
    (entries : List (Node × Node)) (a : Anchors) :
    entryValues handles (l.entry :: entries) a =
      (entryValues handles entries a).map fun r => (l.member :: r.1, r.2) := by
  simp only [Line.entry, entryValues, value?_scalar, Line.member]

theorem entryValues_lines (handles : List (String × String)) (ls : List Line)
    (entries : List (Node × Node)) (a : Anchors) :
    entryValues handles (ls.map Line.entry ++ entries) a =
      (entryValues handles entries a).map fun r => (ls.map Line.member ++ r.1, r.2) := by
  induction ls with
  | nil => simp
  | cons l ls ih =>
    rw [List.map_cons, List.cons_append, entryValues_line, ih, Option.map_map]
    rfl

theorem value?_outline (o : Outline) (handles : List (String × String)) :
    o.node.value? handles .none = some (o.value, .none) := by
  have hbelow := entryValues_lines handles o.below [] .none
  rw [List.append_nil] at hbelow
  rw [Outline.node, value?_mapping, entryValues_lines]
  simp [entryValues, value?_scalar, value?_mapping, hbelow, Outline.value]

/-! ### Texts -/

theorem not_break_of_isPrintable {c : Char} (h : isPrintable c = true) :
    c ≠ '\r' ∧ c.toNat ≠ 0x85 := by
  refine ⟨?_, fun hc => ?_⟩
  · rintro rfl
    cases h
  · simp [isPrintable, hc] at h

theorem uniformBreaks_of_printable {cs : List Char} (h : Printable cs) : uniformBreaks cs = cs := by
  induction cs with
  | nil => rfl
  | cons c cs ih =>
    obtain ⟨hc, hcs⟩ := printable_cons.mp h
    obtain ⟨hreturn, hnext⟩ := not_break_of_isPrintable hc
    rw [uniformBreaks, ih hcs]
    · simp [hreturn, hnext]
    · rintro r rfl
      exact absurd rfl hreturn

theorem isReadable_of_isPrintable {c : Char} (h : isPrintable c = true) : isReadable c = true := by
  simp only [isPrintable, Bool.or_eq_true, Bool.and_eq_true, decide_eq_true_eq] at h
  rcases h with ((h | h) | h) | h
  · obtain rfl : c = '\n' := Char.toNat_inj.mp h
    rfl
  all_goals simp [isReadable, h]

theorem printable_lines {column : Nat} {ls : List Line} (h : ∀ l ∈ ls, l.Fits column) :
    Printable (ls.flatMap (Line.chars column)) := by
  intro c hc
  obtain ⟨l, hl, hc⟩ := List.mem_flatMap.mp hc
  have hfits := h l hl
  have hmarks : isPrintable ':' = true ∧ isPrintable ' ' = true := by decide
  have hline : Printable (l.chars column) := by
    simp [Line.chars, hfits.key.1.printable, hmarks, hfits.value.printable]
  exact hline c hc

theorem Outline.Fits.printable {o : Outline} (h : o.Fits) : Printable o.chars := by
  have hcolon : isPrintable ':' = true := by decide
  simp [Outline.chars, printable_lines h.lines_fit, h.key.1.printable, hcolon,
    printable_lines h.below_fit]

/-- An outline is read as the mapping that it is. -/
theorem ofText?_outline {o : Outline} (h : o.Fits) :
    Document.ofText? (String.ofList o.chars) = some (some ⟨o.value, .none⟩) := by
  have hreadable : o.chars.all isReadable = true :=
    List.all_eq_true.mpr fun c hc => isReadable_of_isPrintable (h.printable c hc)
  have hsource : Source.ofTokens? o.tokens = some (some ⟨[], o.node⟩) := by
    have hread : Source.read o.tokens = some (some (⟨[], o.node⟩, [])) := by
      have hstep : Source.read o.tokens =
        (Node.read true false (Source.fuelFor o.tokens) o.tokens).map fun r =>
          some (⟨[], r.1⟩, r.2) := rfl
      rw [hstep, o.read_tokens]
      rfl
    rw [Source.ofTokens?, hread]
    rfl
  have hdocument : Document.ofSource? ⟨[], o.node⟩ = some ⟨o.value, .none⟩ := by
    have hagree : directivesAgree [] = true := rfl
    simp only [Document.ofSource?, hagree, if_true, value?_outline, Option.map_some]
  simp only [Document.ofText?, String.toList_ofList, hreadable, if_true,
    uniformBreaks_of_printable h.printable, ofChars?_outline h, Option.bind_some, hsource,
    hdocument, Option.map_some]

end Mediation.Yaml
