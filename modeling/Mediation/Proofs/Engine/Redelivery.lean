import Mathlib.Data.List.Nodup
import Mediation.Proofs.Engine.Runs

/-!
# Results that come early, late and again

One dispute is opened and one result for it is delivered any number of times,
before and after, while the clock runs. Before the dispute is there the attempts
leave no trace outside of the timers and the retries; the first one after it
applies the result, and those that follow change nothing.
-/

namespace Mediation

/-! ### A chat holds no message twice -/

theorem Dispute.nodup_addMessage {d : Dispute} (h : d.chat.Nodup) (m : ChatMessage) :
    (d.addMessage m).chat.Nodup := by
  unfold addMessage
  split
  next => exact h
  next hm =>
    have hnew : m ∉ d.chat := by simpa [hasMessage] using hm
    change (d.chat ++ [m]).Nodup
    rw [← List.concat_eq_append]
    exact h.concat hnew

def Turn.Delivers (t : Turn) (m : ResultMessage) : Prop :=
  ∀ r, t = .request r → r = .event (.support (.disputeResult m))

namespace Engine

theorem takes_result {e : Engine} {m : ResultMessage}
    (hgate : e.takes (.event (.support (.disputeResult m))) = true) {r : Request}
    (hr : r.result? = some m) : e.takes r = true := by
  unfold Request.result? at hr
  split at hr
  next =>
    cases hr
    exact hgate
  next => rfl
  next => cases hr

/-! ### What is outstanding -/

/-- Only retries of one message are outstanding. -/
structure Awaits (e : Engine) (m : ResultMessage) : Prop where
  waiting : ∀ w ∈ e.timers.waiting, w.task = m
  retries : e.retries.erase m.uid = .empty

theorem Awaits.clock {e : Engine} {m : ResultMessage} (h : e.Awaits m) (millis : Nat) :
    Awaits { e with timers := e.timers.advance millis } m := by
  constructor
  · intro w hw
    exact h.waiting w (Timers.mem_waiting_advance.mp hw).1
  · exact h.retries

theorem Awaits.miss {e : Engine} {m : ResultMessage} (h : e.Awaits m) (a : Attempt) :
    (e.missDispute m a).Awaits m := by
  cases a with
  | delivery =>
    simp only [missDispute]
    split
    next => exact h
    next =>
      constructor
      · intro w hw
        rcases List.mem_append.mp hw with hold | hnew
        · exact h.waiting w hold
        · rw [List.mem_singleton.mp hnew]
      · change (e.retries.insert m.uid e.timers.nextHandle).erase m.uid = .empty
        rw [Table.erase_insert]
        exact h.retries
  | retry =>
    constructor
    · exact h.waiting
    · change (e.retries.erase m.uid).erase m.uid = .empty
      rw [Table.erase_erase]
      exact h.retries

theorem Awaits.rule {e e' : Engine} {m : ResultMessage} {closing : ChatMessage} (h : e.Awaits m)
    (hruled : Ruled e m closing e') : e'.Awaits m ∧ e'.retries = .empty := by
  have hretries : e'.retries = .empty := by rw [hruled.retries, h.retries]
  refine ⟨⟨?_, ?_⟩, hretries⟩
  · rw [hruled.timers]
    exact h.waiting
  · rw [hruled.retries, Table.erase_erase]
    exact h.retries

/-! ### Before the dispute is opened -/

/-- An engine in which results for a missing dispute have been tried. -/
structure Tried (e : Engine) (m : ResultMessage) (e' : Engine) : Prop where
  same : e' = { e with timers := e'.timers, retries := e'.retries }
  awaits : e'.Awaits m

theorem play_tried {e : Engine} {m : ResultMessage} {closing : ChatMessage}
    (hgate : e.takes (.event (.support (.disputeResult m))) = true)
    (hclosing : m.result.chatMessage = some closing)
    (hmissing : e.disputes.find? m.tradeId = none) (hawaits : e.Awaits m)
    (ts : List (Stamp × Turn)) (hts : ∀ t ∈ ts, t.2.Delivers m) : Tried e m (e.play ts) := by
  refine play_induction (P := Tried e m) (Q := fun r => r.result? = some m) ?_ ?_ ?_ ts ?_ e
    ⟨rfl, hawaits⟩
  · intro e' h w hw
    rw [h.awaits.waiting w hw]
    rfl
  · intro e' millis h
    refine ⟨?_, h.awaits.clock millis⟩
    rw [h.same]
  · intro e' stamp r hr h
    have hconfig : e'.config = e.config := by rw [h.same]
    rw [← takes_congr hconfig] at hgate
    have htakes : e'.takes r = true := takes_result hgate hr
    have hmissing' : e'.disputes.find? m.tradeId = none := by
      rw [h.same]
      exact hmissing
    obtain ⟨a, ha⟩ := serve_result_of_missing hr htakes hclosing hmissing' stamp
    rw [ha]
    refine ⟨?_, h.awaits.miss a⟩
    rw [missDispute_eq, h.same]
  · intro t ht r hr
    rw [hts t ht r hr]
    rfl

/-! ### Once the dispute is open -/

structure SameCases (a b : Engine) : Prop where
  disputes : a.disputes.disputes = b.disputes.disputes
  book : a.registry.book = b.registry.book

theorem SameCases.contains {a b : Engine} (h : SameCases a b) (id : TradeId) :
    a.disputes.contains id = b.disputes.contains id := by
  simp only [DisputeStore.contains, DisputeStore.find?, h.disputes]

theorem Ruled.sameCases {a b a' b' : Engine} {m : ResultMessage} {closing : ChatMessage}
    (hab : SameCases a b) (ha : Ruled a m closing a') (hb : Ruled b m closing b') :
    SameCases a' b' := by
  constructor
  · rw [ha.disputes, hb.disputes]
    exact DisputeStore.rule_congr hab.disputes m closing
  · rw [ha.book, hb.book, hab.book]

theorem Ruled.again {a once c c' : Engine} {m : ResultMessage} {closing : ChatMessage}
    (honce : Ruled a m closing once) (hc : SameCases c once) (hc' : Ruled c m closing c') :
    SameCases c' once := by
  constructor
  · rw [hc'.disputes, DisputeStore.rule_congr hc.disputes, DisputeStore.rule_congr honce.disputes,
      DisputeStore.rule_rule, honce.disputes]
  · rw [hc'.book, hc.book, honce.book, Book.applyResult_applyResult]

theorem Ruled.stored {e e' : Engine} {m : ResultMessage} {closing : ChatMessage}
    (h : Ruled e m closing e') :
    e'.disputes.contains m.tradeId = e.disputes.contains m.tradeId := by
  rw [DisputeStore.contains, h.find?, if_pos rfl, Option.isSome_map]
  exact e.disputes.contains_append closing m.tradeId

/-- The result of an open dispute has not been tried yet, or it has been applied. -/
structure Underway (b once : Engine) (m : ResultMessage) (h : List (Engine × Request))
    (c : Engine) : Prop where
  awaits : c.Awaits m
  config : c.config = b.config
  cases : (h = [] ∧ SameCases c b) ∨ (c.retries = .empty ∧ SameCases c once)

theorem Underway.serve {b once c : Engine} {m : ResultMessage} {closing : ChatMessage}
    {h : List (Engine × Request)} {r : Request}
    (hgate : b.takes (.event (.support (.disputeResult m))) = true)
    (hclosing : m.result.chatMessage = some closing)
    (hstored : b.disputes.contains m.tradeId = true) (honce : Ruled b m closing once)
    (hr : r.result? = some m) (hc : Underway b once m h c) (stamp : Stamp) :
    Underway b once m (h ++ [(c, r)]) (c.serve stamp r).1 := by
  rw [← takes_congr hc.config] at hgate
  have htakes : c.takes r = true := takes_result hgate hr
  have hstored' : c.disputes.contains m.tradeId = true := by
    rcases hc.cases with ⟨-, hsame⟩ | ⟨-, hsame⟩
    · rw [hsame.contains, hstored]
    · rw [hsame.contains, honce.stored, hstored]
  have hruled := serve_result_of_stored hr htakes hclosing hstored' stamp
  obtain ⟨hawaits, hretries⟩ := hc.awaits.rule hruled
  refine ⟨hawaits, hruled.config.trans hc.config, Or.inr ⟨hretries, ?_⟩⟩
  rcases hc.cases with ⟨-, hsame⟩ | ⟨-, hsame⟩
  · exact Ruled.sameCases hsame hruled honce
  · exact Ruled.again honce hsame hruled

theorem play_underway {b once : Engine} {m : ResultMessage} {closing : ChatMessage}
    (hgate : b.takes (.event (.support (.disputeResult m))) = true)
    (hclosing : m.result.chatMessage = some closing)
    (hstored : b.disputes.contains m.tradeId = true) (honce : Ruled b m closing once)
    (hawaits : b.Awaits m) (ts : List (Stamp × Turn)) (hts : ∀ t ∈ ts, t.2.Delivers m) :
    Underway b once m (b.log ts) (b.play ts) := by
  refine play_log_induction (R := Underway b once m) (Q := fun r => r.result? = some m)
    ?_ ?_ ?_ ts ?_ [] b ⟨hawaits, rfl, Or.inl ⟨rfl, rfl, rfl⟩⟩
  · intro h c hc w hw
    rw [hc.awaits.waiting w hw]
    rfl
  · intro h c millis hc
    refine ⟨hc.awaits.clock millis, hc.config, ?_⟩
    rcases hc.cases with ⟨hnil, hsame⟩ | ⟨hretries, hsame⟩
    · exact Or.inl ⟨hnil, hsame.disputes, hsame.book⟩
    · exact Or.inr ⟨hretries, hsame.disputes, hsame.book⟩
  · intro h c stamp r hr hc
    exact hc.serve hgate hclosing hstored honce hr stamp
  · intro t ht r hr
    rw [hts t ht r hr]
    rfl

/-! ### The opening among the deliveries -/

theorem Tried.serve_opening {e e' : Engine} {m : ResultMessage} {r : Request} {d : Dispute}
    (h : Tried e m e') (hr : r.dispute? = some d) (htakes : e.takes r = true)
    (hnew : e.disputes.find? d.tradeId = none) (stamp : Stamp) :
    SameCases (e'.serve stamp r).1 (e.serve stamp r).1 ∧ (e'.serve stamp r).1.Awaits m := by
  obtain ⟨t, s, rfl⟩ : ∃ t s, e' = { e with timers := t, retries := s } := ⟨_, _, h.same⟩
  have hafter := Engine.serve_opening (e := { e with timers := t, retries := s }) hr htakes hnew
    stamp
  rw [hafter, Engine.serve_opening hr htakes hnew]
  refine ⟨⟨?_, ?_⟩, ?_⟩
  · change (addDispute _ stamp d _ _).disputes.disputes =
      (addDispute e stamp d _ _).disputes.disputes
    rw [addDispute_disputes, addDispute_disputes]
  · change (addDispute _ stamp d _ _).registry.book = (addDispute e stamp d _ _).registry.book
    rw [addDispute_book, addDispute_book]
  · rw [addDispute_eq]
    exact ⟨h.awaits.waiting, h.awaits.retries⟩

theorem Ruled.count_closing {e once : Engine} {m : ResultMessage} {closing : ChatMessage}
    {r : Request} {d : Dispute} (hr : r.dispute? = some d) (htakes : e.takes r = true)
    (hnew : e.disputes.find? d.tradeId = none) (hchat : d.chat = []) (hid : m.tradeId = d.tradeId)
    (hnames : closing.tradeId = d.tradeId) {stamp : Stamp}
    (honce : Ruled (e.serve stamp r).1 m closing once) :
    ∃ d', once.disputes.find? d.tradeId = some d' ∧ d'.chat.count closing = 1 := by
  have hopened := find?_serve_opening hr htakes hnew stamp d.tradeId
  rw [if_pos rfl] at hopened
  have hnodup : d.chat.Nodup := by
    rw [hchat]
    exact List.nodup_nil
  have hfind := honce.find? d.tradeId
  rw [if_pos hid.symm, DisputeStore.find?_append, if_pos hnames.symm, hopened] at hfind
  refine ⟨_, hfind, ?_⟩
  -- attaching the result and closing the dispute leave the chat as it is
  change (Dispute.addMessage (d.addMessage _) closing).chat.count closing = 1
  exact List.count_eq_one_of_mem
    (Dispute.nodup_addMessage (Dispute.nodup_addMessage hnodup _) closing)
    (Dispute.mem_addMessage _ closing)

/-- Wherever the opening stands among the deliveries of a result, and however
often that is delivered: once it has been tried after the opening, the disputes
and the trade book are those after the opening and one delivery. -/
theorem play_deliveries_converge {e : Engine} {m : ResultMessage} {closing : ChatMessage}
    {r : Request} {d : Dispute} (hr : r.dispute? = some d) (htakes : e.takes r = true)
    (hgate : e.takes (.event (.support (.disputeResult m))) = true)
    (hchat : d.chat = []) (hid : m.tradeId = d.tradeId)
    (hclosing : m.result.chatMessage = some closing) (hnames : closing.tradeId = d.tradeId)
    (hnew : e.disputes.find? d.tradeId = none) (htimers : e.timers.waiting = [])
    (hretries : e.retries = .empty) (stamp later : Stamp) (pre post : List (Stamp × Turn))
    (hpre : ∀ t ∈ pre, t.2.Delivers m) (hpost : ∀ t ∈ post, t.2.Delivers m)
    (hattempt : ∃ a ∈ (e.play (pre ++ [(stamp, .request r)])).log post, a.2.result? = some m) :
    let last := e.play (pre ++ (stamp, .request r) :: post)
    let once := e.play [(stamp, .request r),
      (later, .request (.event (.support (.disputeResult m))))]
    last.disputes.disputes = once.disputes.disputes ∧
      last.registry.book = once.registry.book ∧
      (∃ d', last.disputes.find? d.tradeId = some d' ∧ d'.chat.count closing = 1) ∧
      last.retries = .empty := by
  intro last once
  have hawaits : e.Awaits m := by
    constructor
    · intro w hw
      rw [htimers] at hw
      cases hw
    · rw [hretries]
      rfl
  have hmissing : e.disputes.find? m.tradeId = none := by rw [hid, hnew]
  -- the opening finds an engine that differs in its timers and retries only
  have htried := play_tried hgate hclosing hmissing hawaits pre hpre
  obtain ⟨hsame, hawaits'⟩ := htried.serve_opening hr htakes hnew stamp
  have hconfig : ((e.play pre).serve stamp r).1.config = e.config := by
    rw [serve_config, htried.same]
  have hstored : (e.serve stamp r).1.disputes.contains m.tradeId = true := by
    rw [DisputeStore.contains, find?_serve_opening hr htakes hnew, if_pos hid, Option.isSome_some]
  have hstored' : ((e.play pre).serve stamp r).1.disputes.contains m.tradeId = true := by
    rw [hsame.contains, hstored]
  have hgate₁ : (e.serve stamp r).1.takes (.event (.support (.disputeResult m))) = true := by
    rw [takes_congr (serve_config e stamp r), hgate]
  have hgate₂ : ((e.play pre).serve stamp r).1.takes (.event (.support (.disputeResult m))) =
      true := by
    rw [takes_congr hconfig, hgate]
  -- what the first attempt makes of either engine
  have honce := serve_result_of_stored rfl hgate₁ hclosing hstored later
  have honce' := serve_result_of_stored rfl hgate₂ hclosing hstored' later
  have hrest := play_underway hgate₂ hclosing hstored' honce' hawaits' post hpost
  have hplay : last = ((e.play pre).serve stamp r).1.play post := play_append e pre _
  have hlog : (e.play (pre ++ [(stamp, .request r)])).log post =
      (((e.play pre).serve stamp r).1).log post := by
    rw [play_append]
    rfl
  rw [hlog] at hattempt
  rw [hplay]
  rcases hrest.cases with ⟨hnil, -⟩ | ⟨hnone, hruled⟩
  · obtain ⟨a, ha, -⟩ := hattempt
    rw [hnil] at ha
    cases ha
  · have hagree := Ruled.sameCases hsame honce' honce
    refine ⟨hruled.disputes.trans hagree.disputes, hruled.book.trans hagree.book, ?_, hnone⟩
    obtain ⟨d', hd', hcount⟩ := honce.count_closing hr htakes hnew hchat hid hnames
    refine ⟨d', ?_, hcount⟩
    rw [← hd']
    simp only [DisputeStore.find?, hruled.disputes, hagree.disputes]

open Sample in
theorem play_deliveries_converge_early_and_again :
    let last := engine.play ([deliver (.disputeResult forBuyer)] ++
      deliver (opening none) :: [elapse 2000, deliver (.disputeResult forBuyer)])
    let once := engine.play [deliver (opening none), deliver (.disputeResult forBuyer)]
    last.disputes.disputes = once.disputes.disputes ∧
      last.registry.book = once.registry.book ∧
      (∃ d', last.disputes.find? tradeId = some d' ∧ d'.chat.count closing = 1) ∧
      last.retries = .empty := by
  have hpre : ∀ t ∈ [deliver (.disputeResult forBuyer)], t.2.Delivers forBuyer := by
    intro t ht r hr
    cases List.mem_singleton.mp ht
    cases hr
    rfl
  have hpost : ∀ t ∈ [elapse 2000, deliver (.disputeResult forBuyer)], t.2.Delivers forBuyer := by
    intro t ht r hr
    simp only [List.mem_cons, List.not_mem_nil, or_false] at ht
    rcases ht with rfl | rfl
    · cases hr
    · cases hr
      rfl
  have hattempt : ((engine.play ([deliver (.disputeResult forBuyer)] ++
      [deliver (opening none)])).log [elapse 2000, deliver (.disputeResult forBuyer)]).any
        (fun a => a.2.result? = some forBuyer) = true := by decide +kernel
  simp only [List.any_eq_true, decide_eq_true_eq] at hattempt
  exact play_deliveries_converge rfl (by decide) (by decide) rfl rfl rfl rfl rfl rfl rfl
    stamp stamp _ _ hpre hpost hattempt

end Engine

end Mediation
