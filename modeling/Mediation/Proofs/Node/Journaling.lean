import Mediation.Proofs.Node.Recording

/-!
# What the journal keeps of a trade

A trade whose phase never goes back is journaled up to the first phase in which
its payout is out, and its files end in the backup if that is the phase in which
the payout is published. A phase may go back, and then a payout can be published
again: the files of the second payout replace those of the first.
-/

namespace Mediation

namespace Recording

def about (id : TradeId) (ws : List Recording) : List Recording := ws.filter (·.trade.id = id)

/-- The entries that were recorded for a trade. -/
def entriesOf (id : TradeId) (ws : List Recording) : List PhaseEntry := (about id ws).map entry

/-- No record of a trade has failed. -/
def Faultless (id : TradeId) (ws : List Recording) : Prop :=
  ∀ w ∈ ws, w.trade.id = id → w.fault = none

variable {id : TradeId} {ws : List Recording} {w : Recording}

theorem about_concat_self (h : w.trade.id = id) : about id (ws ++ [w]) = about id ws ++ [w] := by
  simp [about, h]

theorem about_concat_of_ne (h : w.trade.id ≠ id) : about id (ws ++ [w]) = about id ws := by
  simp [about, h]

theorem entriesOf_concat_self (h : w.trade.id = id) :
    entriesOf id (ws ++ [w]) = entriesOf id ws ++ [w.entry] := by
  simp [entriesOf, about_concat_self h]

theorem entriesOf_concat_of_ne (h : w.trade.id ≠ id) :
    entriesOf id (ws ++ [w]) = entriesOf id ws := by
  simp [entriesOf, about_concat_of_ne h]

theorem faultless_concat :
    Faultless id (ws ++ [w]) ↔ Faultless id ws ∧ (w.trade.id = id → w.fault = none) := by
  simp [Faultless, or_imp, forall_and]

end Recording

namespace Journal

/-! ### Files after several records -/

/-- What becomes of the files in the journal and in the backup. -/
def refileAll (h : Option Filing × Option Filing) (ws : List Recording) :
    Option Filing × Option Filing :=
  ws.foldl (fun h w => refile h w.date w.trade) h

theorem refileAll_concat (h : Option Filing × Option Filing) (ws : List Recording)
    (w : Recording) : refileAll h (ws ++ [w]) = refile (refileAll h ws) w.date w.trade :=
  List.foldl_append

/-- What is on file once trades have been recorded, the last of them last. -/
def filing (ws : List Recording) : Option Filing :=
  ws.getLast?.map fun w => ⟨w.trade, ws.map Recording.entry⟩

theorem filing_concat (ws : List Recording) (w : Recording) :
    filing (ws ++ [w]) = some ⟨w.trade, ws.map Recording.entry ++ [w.entry]⟩ := by
  simp only [filing, List.getLast?_concat, Option.map_some, List.map_append, List.map_cons,
    List.map_nil]

theorem phases_filing (ws : List Recording) :
    (filing ws).elim [] Filing.phases = ws.map Recording.entry := by
  cases hlast : ws.getLast? with
  | none =>
    rw [List.getLast?_eq_none_iff.mp hlast]
    rfl
  | some w => simp only [filing, hlast, Option.map_some, Option.elim_some]

theorem refile_filing (ws : List Recording) (w : Recording) :
    refile (filing ws, none) w.date w.trade =
      if w.trade.phase = .payoutPublished then (none, filing (ws ++ [w]))
      else (filing (ws ++ [w]), none) := by
  simp only [refile, phases_filing, filing_concat]
  rfl

/-- Without a published payout the files stay in the journal. -/
theorem refileAll_filing {ws : List Recording}
    (hws : ∀ w ∈ ws, w.trade.phase ≠ .payoutPublished) (vs : List Recording) :
    refileAll (filing vs, none) ws = (filing (vs ++ ws), none) := by
  induction ws generalizing vs with
  | nil =>
    rw [List.append_nil]
    rfl
  | cons w ws ih =>
    have hw : w.trade.phase ≠ .payoutPublished := hws w (List.mem_cons_self ..)
    have hrest := ih (fun v hv => hws v (List.mem_cons_of_mem w hv)) (vs ++ [w])
    rw [refileAll, List.foldl_cons, refile_filing, if_neg hw]
    rw [List.append_assoc] at hrest
    exact hrest

/-- The files of trades of which only the last may have its payout published. -/
theorem refileAll_of_last {ws : List Recording} {last : Recording} (hlast : ws.getLast? = some last)
    (hws : ∀ w ∈ ws.dropLast, w.trade.phase ≠ .payoutPublished) :
    refileAll (none, none) ws =
      if last.trade.phase = .payoutPublished then
        (none, some ⟨last.trade, ws.map Recording.entry⟩)
      else (some ⟨last.trade, ws.map Recording.entry⟩, none) := by
  obtain ⟨front, rfl⟩ := List.getLast?_eq_some_iff.mp hlast
  rw [List.dropLast_concat] at hws
  have hbefore : refileAll (none, none) front = (filing front, none) := refileAll_filing hws []
  have hfiling : filing (front ++ [last]) =
      some ⟨last.trade, (front ++ [last]).map Recording.entry⟩ := by
    simp only [filing, hlast, Option.map_some]
  rw [refileAll_concat, hbefore, refile_filing, hfiling]

/-- When the trades that were recorded are those of changes of which only the last
may lead to a payout, the files are those of the last. -/
theorem refileAll_of_changes {ws : List Recording} {cs : List PhaseChange} {last : PhaseChange}
    (htrades : ws.map (·.trade) = cs.map (·.trade)) (hlast : cs.getLast? = some last)
    (hcs : ∀ change ∈ cs.dropLast, change.trade.phase.isPaidOut = false) :
    refileAll (none, none) ws =
      if last.trade.phase = .payoutPublished then
        (none, some ⟨last.trade, ws.map Recording.entry⟩)
      else (some ⟨last.trade, ws.map Recording.entry⟩, none) := by
  have hrecorded : ∃ w, ws.getLast? = some w ∧ w.trade = last.trade := by
    have hmapped := congrArg List.getLast? htrades
    rw [List.getLast?_map, List.getLast?_map, hlast] at hmapped
    exact Option.map_eq_some_iff.mp hmapped
  obtain ⟨w, hw, htrade⟩ := hrecorded
  rw [← htrade]
  refine refileAll_of_last hw fun v hv hphase => ?_
  have hmem : v.trade ∈ cs.dropLast.map (·.trade) := by
    rw [List.map_dropLast, ← htrades, ← List.map_dropLast]
    exact List.mem_map_of_mem hv
  obtain ⟨change, hmem, hsame⟩ := List.mem_map.mp hmem
  have hnot := hcs change hmem
  rw [hsame, hphase] at hnot
  cases hnot

section After
variable {j : Journal} {id : TradeId} {ws : List Recording} {w : Recording} {execute : Execution}
  {d d' : Disk}

/-- The histories of a trade after several records, if none of the trade has failed. -/
def KeepsAfter (j : Journal) (id : TradeId) (h : List PhaseEntry × List PhaseEntry)
    (ws : List Recording) (d : Disk) : Prop :=
  Recording.Faultless id ws →
    j.Keeps id d (archiveAll h (Recording.entriesOf id ws)).1
      (archiveAll h (Recording.entriesOf id ws)).2

theorem KeepsAfter.record {h₀ : List PhaseEntry × List PhaseEntry} (h : j.KeepsAfter id h₀ ws d)
    (hexecute : j.Harmless execute (j.Leads .phases id))
    (hrecord : j.record execute w.date w.trade d = (d', w.fault)) :
    j.KeepsAfter id h₀ (ws ++ [w]) d' := by
  intro hfaults
  obtain ⟨hfaults, hfault⟩ := Recording.faultless_concat.mp hfaults
  have hbefore := h hfaults
  obtain rfl : (j.record execute w.date w.trade d).1 = d' := congrArg Prod.fst hrecord
  by_cases hid : w.trade.id = id
  · have hok : (j.record execute w.date w.trade d).2 = none :=
      (congrArg Prod.snd hrecord).trans (hfault hid)
    rw [Recording.entriesOf_concat_self hid, archiveAll_concat]
    subst hid
    exact hbefore.record hexecute hok
  · rw [Recording.entriesOf_concat_of_ne hid]
    exact hbefore.agrees (agrees_record hexecute (fun q hq => hq.apart (Ne.symm hid)) w.date d)

/-- The files of a trade after several records, of which none of the trade has failed. -/
structure HoldsAfter (j : Journal) (id : TradeId) (h : Option Filing × Option Filing)
    (ws : List Recording) (d : Disk) : Prop where
  faultless : Recording.Faultless id ws
  holds : j.Holds id d (texts (refileAll h (Recording.about id ws)).1)
    (texts (refileAll h (Recording.about id ws)).2)

theorem HoldsAfter.record {h₀ : Option Filing × Option Filing} (h : j.HoldsAfter id h₀ ws d)
    (hcommand : j.command = none)
    (hrecord : j.record execute w.date w.trade d = (d', w.fault)) :
    j.HoldsAfter id h₀ (ws ++ [w]) d' := by
  by_cases hid : w.trade.id = id
  · obtain ⟨d₁, hrecorded, hafter⟩ :=
      Holds.record hcommand (hid.symm ▸ h.holds) execute w.date
    obtain ⟨rfl, hfault⟩ := Prod.mk.inj (hrecorded.symm.trans hrecord)
    refine ⟨Recording.faultless_concat.mpr ⟨h.faultless, fun _ => hfault.symm⟩, ?_⟩
    rw [Recording.about_concat_self hid, refileAll_concat]
    subst hid
    exact hafter
  · obtain rfl : (j.record execute w.date w.trade d).1 = d' := congrArg Prod.fst hrecord
    refine ⟨Recording.faultless_concat.mpr ⟨h.faultless, fun hid' => absurd hid' hid⟩, ?_⟩
    rw [Recording.about_concat_of_ne hid]
    exact h.holds.agrees fun f =>
      agrees_record (.inl hcommand) (fun q hq => hq.apart (Ne.symm hid)) w.date d

end After

end Journal

namespace Node

variable {c : NodeConfig} {j : Journal} {s s' : Storage} {n : Node} {id : TradeId}
  {os : List Occurrence}

namespace Journaling

/-- A command that leaves the way to the files of a trade alone leaves the
directories of the node alone. -/
theorem leads_home (h : n.Journaling c j s) (f : JournalFile) {q : Path} (hq : c.Home q) :
    j.Leads f id q := by
  refine Journal.leads_of_home ?_
  rw [h.sound.journal j h.journal, NodeConfig.path_tradeDataDir h.sound.dataDir, List.append_assoc]
  exact hq.isPrefix h.sound.dataDir

/-- The histories of a trade after a run whose records of the trade did not fail. -/
theorem run_keeps (h : n.Journaling c j s)
    (hexecute : ∀ execute date, .record execute date ∈ os →
      j.Harmless execute (j.Leads .phases id))
    {kept current : List PhaseEntry} (hkeeps : j.Keeps id s.disk kept current)
    (hs' : (n.run os).storage = some s') :
    j.KeepsAfter id (kept, current) (n.recordings os) s'.disk := by
  have hhome : ∀ execute date, .record execute date ∈ os → j.Harmless execute c.Home :=
    fun execute date ho => (hexecute execute date ho).mono fun _ => h.leads_home .phases
  refine h.run_induction (P := j.KeepsAfter id (kept, current)) hhome ?_ ?_ (fun _ => hkeeps) hs'
  · intro ws d d' hagrees hws hfaults
    exact (hws hfaults).agrees (hagrees .phases id)
  · intro ws w execute d d' ho hrecord hws
    exact hws.record (hexecute execute w.date ho) hrecord

/-- The files of a trade after a run without a notification command: no record of it fails. -/
theorem run_holds (h : n.Journaling c j s) (hcommand : j.command = none)
    {current kept : Option Journal.Filing}
    (hholds : j.Holds id s.disk (Journal.texts current) (Journal.texts kept))
    (hs' : (n.run os).storage = some s') :
    j.HoldsAfter id (current, kept) (n.recordings os) s'.disk := by
  have hhome : ∀ execute date, .record execute date ∈ os → j.Harmless execute c.Home :=
    fun execute date _ => .inl hcommand
  have hstart : j.HoldsAfter id (current, kept) [] s.disk :=
    ⟨fun w hw => absurd hw List.not_mem_nil, hholds⟩
  refine h.run_induction (P := j.HoldsAfter id (current, kept)) hhome ?_ ?_ hstart hs'
  · intro ws d d' hagrees hws
    exact ⟨hws.faultless, hws.holds.agrees fun f => hagrees f id⟩
  · intro ws w execute d d' _ hrecord hws
    exact hws.record hcommand hrecord

/-- Once nothing waits any more, what was recorded is what the journal takes of the changes. -/
theorem trades_of_drained (h : n.Journaling c j s)
    (hexecute : ∀ execute date, .record execute date ∈ os → j.Harmless execute c.Home)
    (hidle : s.backlog = []) (hs' : (n.run os).storage = some s') (hdrained : s'.backlog = [])
    (id : TradeId) :
    (Recording.about id (n.recordings os)).map (·.trade) =
      ((n.changes id os).filter Journal.takes).map (·.trade) := by
  obtain ⟨s₁, h₁, hrun⟩ := h.run hexecute
  obtain rfl : s₁ = s' := Option.some.inj (h₁.storage.symm.trans hs')
  have hid := hrun id
  rw [hidle, hdrained, List.append_nil, List.filter_nil, List.nil_append, List.filter_map] at hid
  exact hid

end Journaling

end Node

namespace Sample

def bootedStorage : Storage := booted.storage.get (by decide +kernel)

def bootedJournal : Journal := bootedStorage.journal.get (by decide +kernel)

/-- A node with a live trade, of which nothing has been journaled. -/
def journalingNode : Node := { booted with engine := engine }

theorem journaling_journalingNode :
    journalingNode.Journaling .default bootedJournal bootedStorage := by
  obtain ⟨j, s, hbooted, -, -⟩ := Node.journaling_boot booting_eq rfl
  obtain rfl : s = bootedStorage := by
    simp only [bootedStorage, hbooted.storage, Option.get_some]
  obtain rfl : j = bootedJournal := by
    simp only [bootedJournal, hbooted.journal, Option.get_some]
  have hfiled : engine.Filed :=
    ⟨⟨Table.keyed_empty.insert rfl, Table.keyed_empty, Table.keyed_empty⟩, Table.keyed_empty⟩
  exact ⟨hbooted.storage, hbooted.journal, rfl, hbooted.sound, hfiled, rfl⟩

theorem command_bootedJournal : bootedJournal.command = none := rfl

theorem backlog_bootedStorage : bootedStorage.backlog = [] := rfl

theorem find?_bootedStorage (f : JournalFile) :
    bootedStorage.disk.find? (bootedJournal.path f tradeId) = none ∧
      bootedStorage.disk.find? (bootedJournal.backupPath f tradeId) = none := by
  cases f <;> decide +kernel

theorem holds_bootedStorage :
    bootedJournal.Holds tradeId bootedStorage.disk (Journal.texts none) (Journal.texts none) :=
  journaling_journalingNode.ready.holds find?_bootedStorage

def updated (u : TradeUpdate) : List Occurrence :=
  [.send (.update tradeId u), .handle fun _ => stamp]

def recorded : Occurrence := .record (fun _ _ d => d) 0

/-- The payout is published and later withdrawn. -/
def paidOnce : List Occurrence :=
  updated (.phase .fiatSent) ++ [recorded] ++ updated (.payoutTx "aa") ++
    updated (.phase .withdrawn) ++ [recorded]

/-- After the payout was published the phase goes back, and the payout is published again. -/
def paidTwice : List Occurrence :=
  updated (.phase .fiatSent) ++ [recorded] ++ updated (.payoutTx "aa") ++ [recorded] ++
    updated (.phase .init) ++ updated (.payoutTx "bb") ++ [recorded]

theorem entries_paidTwice :
    Recording.entriesOf tradeId (journalingNode.recordings paidTwice) =
      [⟨0, .fiatSent⟩, ⟨0, .payoutPublished⟩, ⟨0, .payoutPublished⟩] := by
  decide +kernel

theorem exists_storage_run (os : List Occurrence) :
    ∃ s', (journalingNode.run os).storage = some s' := by
  have hharmless : ∀ execute date, .record execute date ∈ os →
      bootedJournal.Harmless execute NodeConfig.default.Home :=
    fun execute date _ => .inl command_bootedJournal
  obtain ⟨s', h', -⟩ := journaling_journalingNode.run hharmless
  exact ⟨s', h'.storage⟩

theorem fault_paidTwice : ∀ w ∈ journalingNode.recordings paidTwice, w.fault = none := by
  intro w hw
  have hids : (journalingNode.recordings paidTwice).map (·.trade.id) =
      [tradeId, tradeId, tradeId] := by decide +kernel
  have hid : w.trade.id = tradeId := by
    have hmem : w.trade.id ∈ [tradeId, tradeId, tradeId] := hids ▸ List.mem_map_of_mem hw
    simpa using hmem
  obtain ⟨s', hs'⟩ := exists_storage_run paidTwice
  have hafter := journaling_journalingNode.run_holds command_bootedJournal holds_bootedStorage hs'
  exact hafter.faultless w hw hid

end Sample

namespace Node

variable {c : NodeConfig} {j : Journal} {s s' : Storage} {n : Node} {id : TradeId}
  {os : List Occurrence}

/-! ### Phases that only move forward -/

/-- The changes that are journaled of a phase that never goes back: those up to the
first with the payout out, and none if it was out before. -/
theorem filter_takes_of_forward {p : TradePhase} {cs : List PhaseChange}
    (hchain : PhaseChange.Chain p cs)
    (hforward : ∀ change ∈ cs, change.previous.rank ≤ change.trade.phase.rank) :
    cs.filter Journal.takes =
      if p.isPaidOut then [] else cs.take (cs.findIdx (·.trade.phase.isPaidOut) + 1) := by
  induction cs generalizing p with
  | nil => simp
  | cons change cs ih =>
    obtain ⟨rfl, hchain⟩ := hchain
    have hrest := ih hchain fun b hb => hforward b (List.mem_cons_of_mem change hb)
    have hstep := hforward change (List.mem_cons_self ..)
    rw [List.filter_cons, hrest, List.findIdx_cons]
    cases hbefore : change.previous.isPaidOut with
    | true =>
      have hafter : change.trade.phase.isPaidOut = true := by
        simp only [TradePhase.isPaidOut, decide_eq_true_eq] at hbefore ⊢
        exact Nat.le_trans hbefore hstep
      simp [Journal.takes, hbefore, hafter]
    | false => cases change.trade.phase.isPaidOut <;> simp [Journal.takes, hbefore]

theorem not_isPaidOut_of_mem_dropLast {cs : List PhaseChange} {change : PhaseChange}
    (h : change ∈ (cs.take (cs.findIdx (·.trade.phase.isPaidOut) + 1)).dropLast) :
    change.trade.phase.isPaidOut = false := by
  induction cs with
  | nil => cases h
  | cons first cs ih =>
    rw [List.findIdx_cons] at h
    cases hfirst : first.trade.phase.isPaidOut with
    | true =>
      rw [hfirst] at h
      cases h
    | false =>
      rw [hfirst, cond_false, List.take_succ_cons] at h
      by_cases hrest : cs.take (cs.findIdx (·.trade.phase.isPaidOut) + 1) = []
      · rw [hrest] at h
        cases h
      · rw [List.dropLast_cons_of_ne_nil hrest] at h
        rcases List.mem_cons.mp h with rfl | h
        · exact hfirst
        · exact ih h

/-- A trade that is live, whose phase never goes back, of which nothing is on
file and nothing waits to be recorded. Once all that waits has been recorded,
nothing is on file if the payout was out from the start or the phase never
changed. Otherwise the phases that the trade went through are on file, up to
the first with the payout out, with the record of the trade as it was then:
in the backup if it is the one in which the payout is published, and else in
the journal. -/
theorem forward_history_journaled (h : n.Journaling c j s) (hcommand : j.command = none)
    (hidle : s.backlog = []) {t : Trade} (hlive : n.engine.registry.book.live.get? id = some t)
    (hfiles : ∀ f, s.disk.find? (j.path f id) = none ∧ s.disk.find? (j.backupPath f id) = none)
    (hforward : ∀ change ∈ n.changes id os, change.previous.rank ≤ change.trade.phase.rank)
    (hs' : (n.run os).storage = some s') (hdrained : s'.backlog = []) :
    let cs := n.changes id os
    let journaled := cs.take (cs.findIdx (·.trade.phase.isPaidOut) + 1)
    if t.phase.isPaidOut ∨ cs = [] then
      (∀ w ∈ n.recordings os, w.trade.id ≠ id) ∧
        j.Holds id s'.disk (Journal.texts none) (Journal.texts none)
    else
      ∃ last phases, journaled.getLast? = some last ∧
        phases.map PhaseEntry.phase = journaled.map (·.trade.phase) ∧
        let filing : Journal.Filing := ⟨last.trade, phases⟩
        if last.trade.phase = .payoutPublished then
          j.Holds id s'.disk (Journal.texts none) (Journal.texts (some filing))
        else j.Holds id s'.disk (Journal.texts (some filing)) (Journal.texts none) := by
  intro cs journaled
  let ws := Recording.about id (n.recordings os)
  have hholds : j.Holds id s'.disk (Journal.texts (Journal.refileAll (none, none) ws).1)
      (Journal.texts (Journal.refileAll (none, none) ws).2) :=
    (h.run_holds hcommand (h.ready.holds hfiles) hs').holds
  have htaken : cs.filter Journal.takes = if t.phase.isPaidOut then [] else journaled :=
    filter_takes_of_forward (changes_chain hlive os) hforward
  have htrades : ws.map (·.trade) = (cs.filter Journal.takes).map (·.trade) :=
    h.trades_of_drained (fun execute _ _ => .inl hcommand) hidle hs' hdrained id
  split
  next hnothing =>
    have hnone : cs.filter Journal.takes = [] := by
      rcases hnothing with hpaid | hnone
      · rw [htaken, if_pos hpaid]
      · rw [hnone, List.filter_nil]
    rw [hnone] at htrades
    have hws : ws = [] := List.map_eq_nil_iff.mp htrades
    refine ⟨fun w hw hid => ?_, ?_⟩
    · have hmem : w ∈ ws := List.mem_filter.mpr ⟨hw, by simpa using hid⟩
      rw [hws] at hmem
      cases hmem
    · rw [hws] at hholds
      exact hholds
  next hsome =>
    obtain ⟨hunpaid, hchanged⟩ := not_or.mp hsome
    rw [htaken, if_neg hunpaid] at htrades
    have hjournaled : journaled ≠ [] :=
      fun hnil => (List.take_eq_nil_iff.mp hnil).elim nofun hchanged
    obtain ⟨last, hlast⟩ := Option.ne_none_iff_exists'.mp
      (mt List.getLast?_eq_none_iff.mp hjournaled)
    have hphases : (ws.map Recording.entry).map PhaseEntry.phase =
        journaled.map (·.trade.phase) := by
      have hmapped := congrArg (List.map Trade.phase) htrades
      rw [List.map_map, List.map_map] at hmapped
      rw [List.map_map]
      exact hmapped
    refine ⟨last, ws.map Recording.entry, hlast, hphases, ?_⟩
    intro filing
    rw [Journal.refileAll_of_changes htrades hlast fun _ => not_isPaidOut_of_mem_dropLast] at hholds
    split
    next hpaid =>
      rw [if_pos hpaid] at hholds
      exact hholds
    next hpaid =>
      rw [if_neg hpaid] at hholds
      exact hholds

open Sample in
/-- The payout is published before the last change of phase. -/
theorem forward_history_journaled_withdrawn :
    ∃ s' filing, (journalingNode.run paidOnce).storage = some s' ∧
      filing.trade.payoutTx = some ⟨"aa"⟩ ∧ filing.trade.phase = .payoutPublished ∧
      filing.phases.map PhaseEntry.phase = [.fiatSent, .payoutPublished] ∧
      bootedJournal.Holds tradeId s'.disk (Journal.texts none) (Journal.texts (some filing)) := by
  have hlive : journalingNode.engine.registry.book.live.get? tradeId = some trade := by
    decide +kernel
  have hdrained : (journalingNode.run paidOnce).storage.map Storage.backlog = some [] := by
    decide +kernel
  obtain ⟨s', hs'⟩ := exists_storage_run paidOnce
  rw [hs'] at hdrained
  have hjournaled := forward_history_journaled journaling_journalingNode command_bootedJournal
    backlog_bootedStorage hlive find?_bootedStorage (by decide +kernel) hs' (Option.some.inj hdrained)
  rw [if_neg (by decide +kernel)] at hjournaled
  obtain ⟨last, phases, hlast, hphases, hholds⟩ := hjournaled
  let cs := journalingNode.changes tradeId paidOnce
  have hend : ((cs.take (cs.findIdx (·.trade.phase.isPaidOut) + 1)).getLast?).map
      (fun l => (l.trade.phase, l.trade.payoutTx)) = some (.payoutPublished, some ⟨"aa"⟩) := by
    decide +kernel
  rw [hlast] at hend
  obtain ⟨hphase, htx⟩ := Prod.mk.inj (Option.some.inj hend)
  rw [if_pos hphase] at hholds
  refine ⟨s', _, hs', htx, hphase, ?_, hholds⟩
  rw [hphases]
  decide +kernel

/-! ### Histories after any changes -/

/-- What a run leaves of the histories of a trade when no record of the trade
fails: the end of what could be read before and of all that was recorded. Nothing
is lost as long as no payout is recorded, nor by the first one if there was
nothing in the backup; any other payout loses what the backup held. -/
theorem histories_complete_iff (h : n.Journaling c j s)
    (hexecute : ∀ execute date, .record execute date ∈ os →
      j.Harmless execute (j.Leads .phases id))
    (hfaults : ∀ w ∈ n.recordings os, w.trade.id = id → w.fault = none)
    {kept current : List PhaseEntry} (hkeeps : j.Keeps id s.disk kept current)
    (hs' : (n.run os).storage = some s') :
    let written := Recording.entriesOf id (n.recordings os)
    let left := Journal.archiveAll (kept, current) written
    j.Keeps id s'.disk left.1 left.2 ∧ left.1 ++ left.2 <:+ kept ++ current ++ written ∧
      (left.1 ++ left.2 = kept ++ current ++ written ↔
        written.countP (·.phase = .payoutPublished) = 0 ∨
          kept = [] ∧ written.countP (·.phase = .payoutPublished) = 1) :=
  ⟨h.run_keeps hexecute hkeeps hs' hfaults, Journal.archiveAll_suffix _ _ _,
    Journal.archiveAll_eq_iff _ _ _⟩

open Sample in
/-- Of a payout that is published twice only the second is left. -/
theorem histories_complete_iff_paid_twice :
    ∃ s', (journalingNode.run paidTwice).storage = some s' ∧
      bootedJournal.Keeps tradeId s'.disk [⟨0, .payoutPublished⟩] [] := by
  obtain ⟨s', hs'⟩ := exists_storage_run paidTwice
  obtain ⟨hkeeps, -, -⟩ := histories_complete_iff journaling_journalingNode
    (fun execute date _ => .inl command_bootedJournal) (fun w hw _ => fault_paidTwice w hw)
    holds_bootedStorage.keeps hs'
  rw [entries_paidTwice] at hkeeps
  exact ⟨s', hs', hkeeps⟩

open Sample in
/-- What was recorded of a trade cannot always be read. -/
theorem not_histories_complete : ¬ ∀ (c : NodeConfig) (j : Journal) (s s' : Storage) (n : Node)
    (id : TradeId) (os : List Occurrence) (kept current : List PhaseEntry),
    n.Journaling c j s → j.command = none → s.backlog = [] → j.Keeps id s.disk [] [] →
    (∀ w ∈ n.recordings os, w.fault = none) → (n.run os).storage = some s' →
    j.Keeps id s'.disk kept current →
    (Recording.entriesOf id (n.recordings os)).Sublist (kept ++ current) := by
  intro h
  obtain ⟨s', hs'⟩ := exists_storage_run paidTwice
  have hkeeps := journaling_journalingNode.run_keeps
    (fun execute date _ => .inl command_bootedJournal) holds_bootedStorage.keeps hs'
    (fun w hw _ => fault_paidTwice w hw)
  rw [entries_paidTwice] at hkeeps
  have hsublist := h .default bootedJournal bootedStorage s' journalingNode tradeId paidTwice _ _
    journaling_journalingNode command_bootedJournal backlog_bootedStorage
    holds_bootedStorage.keeps fault_paidTwice hs' hkeeps
  rw [entries_paidTwice] at hsublist
  exact absurd hsublist (by decide)

end Node

end Mediation
