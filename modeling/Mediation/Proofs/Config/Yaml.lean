import Mediation.CommandLine.Commands
import Mediation.Proofs.Decimal
import Mediation.Proofs.Yaml.Document

/-!
# Configurations are read as they are written

A configuration is written as an outline, each of whose lines stands for the
setting it was written for, whatever texts and numbers the settings are. So the
output of the command that shows the configuration is read as the configuration
that commands run with.
-/

namespace Mediation

open Yaml (Value)

/-! ### Settings -/

namespace Yaml

theorem ne_cons_of_digits {c : Char} (hc : Decimal.isDigit c = false) (n : Nat) (cs : List Char) :
    Decimal.digits n ≠ c :: cs := by
  intro h
  have hdigit := Decimal.isDigit_of_mem_digits n c (by rw [h]; exact List.mem_cons_self ..)
  rw [hc] at hdigit
  cases hdigit

theorem magnitude?_digits (n : Nat) : magnitude? (Decimal.digits n) = some n := by
  have hsign : withoutSign (Decimal.digits n) = Decimal.digits n := by
    unfold withoutSign
    split
    next heq => exact absurd heq (ne_cons_of_digits (by decide) n _)
    next heq => exact absurd heq (ne_cons_of_digits (by decide) n _)
    next => rfl
  have hzero : hasLeadingZero (Decimal.digits n) = false := by
    unfold hasLeadingZero
    rw [hsign]
    split
    next heq => exact absurd heq (Decimal.digits_ne_zero_cons n _ _)
    next => rfl
  have hprefix : prefixedNumber? (Decimal.digits n) = none := by
    unfold prefixedNumber?
    split
    next heq => exact absurd heq (Decimal.digits_ne_zero_cons n _ _)
    next heq => exact absurd heq (Decimal.digits_ne_zero_cons n _ _)
    next heq => exact absurd heq (Decimal.digits_ne_zero_cons n _ _)
    next => rfl
  simp [magnitude?, hzero, hprefix, Decimal.parse?_digits]

theorem word?_digits (n : UInt64) : word? (String.ofList (Decimal.digits n.toNat)) = some n := by
  have hlt : n.toNat < 18446744073709551616 := n.toNat_lt
  simp only [word?, String.toList_ofList]
  split
  next heq => exact absurd heq (ne_cons_of_digits (by decide) _ _)
  next => simp [magnitude?_digits, hlt]

namespace Value

theorem word?_digits (n : UInt64) :
    word? (.scalar ⟨String.ofList (Decimal.digits n.toNat), .plain, none⟩) = some n :=
  Yaml.word?_digits n

theorem nullableText?_text (s : String) :
    nullableText? (.scalar ⟨s, (writtenStyle s).style, none⟩) = some (some s) := by
  have hsuits := suits_writtenStyle s
  cases hstyle : writtenStyle s with
  | plain =>
    rw [hstyle] at hsuits
    obtain ⟨-, hambiguous, -⟩ := hsuits
    simp only [isAmbiguous, Bool.or_eq_false_iff, decide_eq_false_iff_not] at hambiguous
    simp [nullableText?, WrittenStyle.style, hambiguous]
  | single => rfl
  | double => rfl
  | literal => rfl

end Value

end Yaml

/-! ### Lines -/

namespace NodeConfig

def lineOfText (indent : Nat) (name s : String) : Yaml.Line :=
  ⟨name, s, (Yaml.writtenStyle s).style, Yaml.writeText (indent + 2) s⟩

def lineOfWord (name : String) (word : List Char) : Yaml.Line :=
  ⟨name, String.ofList word, .plain, word ++ ['\n']⟩

def lineOfNullable (indent : Nat) (name : String) : Option String → Yaml.Line
  | none => lineOfWord name "null".toList
  | some s => lineOfText indent name s

theorem chars_lineOfText (indent : Nat) (name s : String) :
    (lineOfText indent name s).chars indent = textLine indent name s := by
  simp [lineOfText, Yaml.Line.chars, textLine]

theorem chars_lineOfWord (indent : Nat) (name : String) (word : List Char) :
    (lineOfWord name word).chars indent = wordLine indent name word := by
  simp [lineOfWord, Yaml.Line.chars, wordLine]

theorem chars_lineOfNullable (indent : Nat) (name : String) (s : Option String) :
    (lineOfNullable indent name s).chars indent = nullableLine indent name s := by
  cases s with
  | none => exact chars_lineOfWord ..
  | some s => exact chars_lineOfText ..

variable {name : String}

theorem fits_lineOfText (hname : Yaml.Lexer.IsKey name.toList) (indent : Nat) (s : String) :
    (lineOfText indent name s).Fits indent :=
  ⟨hname, Yaml.standsFor_writeText s indent⟩

theorem fits_lineOfWord (hname : Yaml.Lexer.IsKey name.toList) (indent : Nat) {word : List Char}
    (hword : Yaml.IsWord word) : (lineOfWord name word).Fits indent where
  key := hname
  value := by
    rw [lineOfWord, String.toList_ofList]
    exact Yaml.standsFor_word hword indent

theorem isWord_digits (n : Nat) : Yaml.IsWord (Decimal.digits n) :=
  ⟨Decimal.digits_ne_nil n, fun c hc => by
    simp [Yaml.isWordChar, Decimal.isDigit_of_mem_digits n c hc]⟩

theorem fits_lineOfNullable (hname : Yaml.Lexer.IsKey name.toList) (indent : Nat)
    (s : Option String) : (lineOfNullable indent name s).Fits indent := by
  cases s with
  | none => exact fits_lineOfWord hname indent (Yaml.isWord_of_all (by decide +kernel))
  | some s => exact fits_lineOfText hname indent s

/-- A configuration as an outline. -/
def outline (c : NodeConfig) : Yaml.Outline where
  lines := [
    lineOfText 0 "node_address" c.address.text,
    lineOfText 0 "data_dir" c.dataDir,
    lineOfWord "retry_delay_secs" (Decimal.digits c.retryDelaySecs.toNat)]
  name := "journal"
  below := [
    lineOfWord "enabled" (booleanWord c.journal.enabled),
    lineOfNullable 2 "notification_cli" c.journal.notificationCommand,
    lineOfWord "cli_timeout_ms" (Decimal.digits c.journal.commandTimeoutMillis.toNat)]

theorem chars_outline (c : NodeConfig) : c.outline.chars = c.yamlChars := by
  simp [Yaml.Outline.chars, outline, chars_lineOfText, chars_lineOfWord, chars_lineOfNullable,
    yamlChars]

theorem name_outline (c : NodeConfig) : c.outline.name = "journal" := rfl

theorem fits_outline (c : NodeConfig) : c.outline.Fits where
  lines_ne_nil := by simp [outline]
  lines_fit := by
    simp only [outline, List.forall_mem_cons]
    refine ⟨fits_lineOfText ?_ 0 _, fits_lineOfText ?_ 0 _, fits_lineOfWord ?_ 0 (isWord_digits _),
      nofun⟩
    all_goals exact Yaml.Lexer.isKey_of_all (by decide +kernel)
  key := by
    rw [name_outline]
    exact Yaml.Lexer.isKey_of_all (by decide +kernel)
  below_ne_nil := by simp [outline]
  below_fit := by
    have henabled : Yaml.IsWord (booleanWord c.journal.enabled) := by
      cases c.journal.enabled <;> exact Yaml.isWord_of_all (by decide +kernel)
    simp only [outline, List.forall_mem_cons]
    refine ⟨fits_lineOfWord ?_ 2 henabled, fits_lineOfNullable ?_ 2 _,
      fits_lineOfWord ?_ 2 (isWord_digits _), nofun⟩
    all_goals exact Yaml.Lexer.isKey_of_all (by decide +kernel)

/-- The setting that a line is read as. -/
def setting (l : Yaml.Line) : String × Value := (l.name, .scalar ⟨l.text, l.style, none⟩)

theorem members?_lines (d : Yaml.Document) (ls : List Yaml.Line) :
    d.members? (.mapping (ls.map Yaml.Line.member)) = some (ls.map setting) := by
  rw [Yaml.Document.members?]
  induction ls with
  | nil => rfl
  | cons l ls ih =>
    rw [List.map_cons, List.mapM_cons, ih]
    rfl

theorem members?_outline (d : Yaml.Document) (o : Yaml.Outline) :
    d.members? o.value =
      some (o.lines.map setting ++ [(o.name, .mapping (o.below.map Yaml.Line.member))]) := by
  have hlines := members?_lines d o.lines
  rw [Yaml.Document.members?] at hlines
  rw [Yaml.Outline.value, Yaml.Document.members?, List.mapM_append, hlines]
  rfl

theorem boolean?_word (b : Bool) :
    Value.boolean? (.scalar ⟨String.ofList (booleanWord b), .plain, none⟩) = some b := by
  cases b <;> decide

theorem nullableText?_null : Value.nullableText? (.scalar ⟨"null", .plain, none⟩) = some none := by
  decide

theorem journal_ofValue?_outline (d : Yaml.Document) (c : NodeConfig) :
    JournalConfig.ofValue? d (.mapping (c.outline.below.map Yaml.Line.member)) =
      some c.journal := by
  obtain ⟨address, dataDir, retryDelay, enabled, command, timeout⟩ := c
  rw [JournalConfig.ofValue?, members?_lines]
  cases command <;>
    simp [outline, setting?, setting, lineOfWord, lineOfNullable, lineOfText, boolean?_word,
      nullableText?_null, Value.nullableText?_text, Value.word?_digits]

theorem addressOfValue?_text (a : NodeAddress) (style : Yaml.Style) :
    addressOfValue? (.scalar ⟨a.text, style, none⟩) = some a := by
  simp [addressOfValue?, Value.text?, NodeAddress.ofString?_text, Except.toOption]

theorem ofDocument?_outline (c : NodeConfig) : ofDocument? ⟨c.outline.value, .none⟩ = some c := by
  have hlines : c.outline.lines.map setting = [
      ("node_address", .scalar ⟨c.address.text, (Yaml.writtenStyle c.address.text).style, none⟩),
      ("data_dir", .scalar ⟨c.dataDir, (Yaml.writtenStyle c.dataDir).style, none⟩),
      ("retry_delay_secs",
        .scalar ⟨String.ofList (Decimal.digits c.retryDelaySecs.toNat), .plain, none⟩)] := rfl
  rw [ofDocument?, members?_outline, hlines, name_outline]
  simp [setting?, addressOfValue?_text, Value.text?, Value.word?_digits, journal_ofValue?_outline]

theorem trim_ne_nil {c : Char} (hc : Text.isBlank c = false) (cs : List Char) :
    Text.trim (c :: cs) ≠ [] := by
  intro h
  rw [Text.trim, Text.trimStart_of_head hc, List.reverse_eq_nil_iff, Text.trimStart,
    List.dropWhile_eq_nil_iff] at h
  have hblank := h c (List.mem_reverse.mpr (List.mem_cons_self ..))
  rw [hc] at hblank
  cases hblank

/-- A configuration is read as it was written. -/
theorem ofYaml_toYaml (c : NodeConfig) : ofYaml c.toYaml = .ok c := by
  have hstart : ∃ cs, c.yamlChars = 'n' :: cs := ⟨_, rfl⟩
  have htext : Yaml.Document.ofText? c.toYaml = some (some ⟨c.outline.value, .none⟩) := by
    rw [toYaml, ← chars_outline]
    exact Yaml.ofText?_outline c.fits_outline
  have htrim : Text.trim c.toYaml.toList ≠ [] := by
    obtain ⟨cs, hchars⟩ := hstart
    rw [toYaml, String.toList_ofList, hchars]
    exact trim_ne_nil (by decide) cs
  simp [ofYaml, htrim, htext, ofDocument?_outline]

/-- Different configurations are written in different ways, also when one has no
notification command and the other has an empty one. -/
theorem toYaml_inj {a b : NodeConfig} : a.toYaml = b.toYaml ↔ a = b := by
  refine ⟨fun h => ?_, congrArg toYaml⟩
  have ha := ofYaml_toYaml a
  rw [h, ofYaml_toYaml b] at ha
  exact (Except.ok.inj ha).symm

end NodeConfig

/-! ### The command -/

theorem NodeConfig.fault?_of_effective {lookup : String → Option String} {b c : NodeConfig}
    (h : b.effective lookup = .ok c) : c.fault? = none := by
  unfold effective at h
  split at h
  next => cases h
  next =>
    split at h
    next => cases h
    next hfault =>
      cases h
      exact hfault

theorem NodeConfig.effective_none {c : NodeConfig} (h : c.fault? = none) :
    c.effective (fun _ => none) = .ok c := by
  have hkept : c.withVariables (fun _ => none) = .ok c := rfl
  simp [effective, hkept, h]

/-- A command fails without a configuration, or goes on with one that has no fault. -/
theorem Job.loadConfig_cases (lookup : String → Option String) (path : Option String) (home : Path)
    (d : Disk) :
    (∃ message, ∀ next, (loadConfig lookup path next).runOn home d = (.failed message, d)) ∨
      ∃ c : NodeConfig, c.fault? = none ∧
        ∀ next, (loadConfig lookup path next).runOn home d = (next c).runOn home d := by
  have hwith (b : Except ConfigError NodeConfig) :
      (∃ message, ∀ next, (withConfig next (b.bind (·.effective lookup))).runOn home d =
          (.failed message, d)) ∨
        ∃ c : NodeConfig, c.fault? = none ∧ ∀ next,
          (withConfig next (b.bind (·.effective lookup))).runOn home d = (next c).runOn home d := by
    cases hc : b.bind (·.effective lookup) with
    | error e => exact .inl ⟨e.message, fun _ => rfl⟩
    | ok c =>
      refine .inr ⟨c, ?_, fun _ => rfl⟩
      cases b with
      | error e => cases hc
      | ok b => exact NodeConfig.fault?_of_effective hc
  cases path with
  | none => exact hwith (.ok .default)
  | some path =>
    cases hread : d.readAt home path with
    | error e =>
      refine .inl ⟨(ConfigError.unreadable path).message, fun next => ?_⟩
      simp [loadConfig, runOn, hread, fail]
    | ok text => simpa [loadConfig, runOn, hread] using hwith (NodeConfig.ofYaml text)

/-- Every configuration is read as it was written. So what the command prints is
read as the configuration that commands go on with, and saved to a file it makes
them go on with that configuration again. -/
theorem NodeConfig.ofYaml_printed :
    (∀ c : NodeConfig, ofYaml c.toYaml = .ok c) ∧
    ∀ (lookup : String → Option String) (stamps : Nat → Stamp) (i : Invocation) (home : Path)
      (d d' : Disk) (output : String), i.command = .config false →
      (i.job lookup stamps).runOn home d = (.done output, d') →
      ∃ c, output = c.toYaml ∧ ofYaml output = .ok c ∧
        (∀ next, (Job.loadConfig lookup i.configPath next).runOn home d = (next c).runOn home d) ∧
        ∀ (e : Disk) (path : String), e.readAt home path = .ok output →
          ∀ next, (Job.loadConfig (fun _ => none) (some path) next).runOn home e =
            (next c).runOn home e := by
  refine ⟨ofYaml_toYaml, fun lookup stamps i home d d' output hcommand hrun => ?_⟩
  rw [Invocation.job, hcommand] at hrun
  rcases Job.loadConfig_cases lookup i.configPath home d with
    ⟨message, hfails⟩ | ⟨c, hfault, hloads⟩
  · rw [hfails] at hrun
    cases hrun
  · rw [hloads] at hrun
    have houtput : c.toYaml = output := CommandResult.done.inj (Prod.mk.inj hrun).1
    refine ⟨c, houtput.symm, houtput ▸ ofYaml_toYaml c, hloads, fun e path hread next => ?_⟩
    have heffective : (ofYaml output).bind (·.effective fun _ => none) = .ok c := by
      rw [← houtput, ofYaml_toYaml]
      exact effective_none hfault
    simp [Job.loadConfig, Job.runOn, hread, heffective, Job.withConfig]

/-- A configuration whose texts would be nothing without their quotes. -/
def NodeConfig.nullTexts : NodeConfig := ⟨.default, "null", 2, ⟨true, some "null", 1000⟩⟩

theorem NodeConfig.ofYaml_printed_null :
    ofYaml nullTexts.toYaml = .ok nullTexts ∧
      ∃ c, nullTexts.toYaml = c.toYaml ∧ ofYaml nullTexts.toYaml = .ok c ∧
        ∀ next, (Job.loadConfig (fun _ => none) (some "saved") next).runOn []
            ⟨Table.empty.insert ["saved"] (.file nullTexts.toYaml)⟩ =
          (next c).runOn [] ⟨Table.empty.insert ["saved"] (.file nullTexts.toYaml)⟩ := by
  obtain ⟨hread, hprinted⟩ := NodeConfig.ofYaml_printed
  obtain ⟨c, houtput, hprint, -, hsaved⟩ := hprinted
    (fun name => if name = retryDelayVariable then none else some "null")
    (fun _ => ⟨⟨0, by decide⟩, .epoch⟩) ⟨none, .config false⟩ [] .empty .empty nullTexts.toYaml
    rfl rfl
  exact ⟨hread nullTexts, c, houtput, hprint, hsaved _ "saved" rfl⟩

end Mediation
