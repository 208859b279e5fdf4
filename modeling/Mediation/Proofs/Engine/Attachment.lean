import Mathlib.Data.List.Induction
import Mediation.Proofs.Engine.Case
import Mediation.Proofs.Engine.Runs

/-!
# Where an attached result comes from

A result is attached to a dispute when a message with it is applied, each time
in place of the one before, or when the dispute is stored with a result of its
own. Nothing else attaches, changes or removes it.
-/

namespace Mediation

/-- No request but one that opens a dispute or brings a result changes what is attached. -/
theorem Case.Step.result_eq {c : MediationConfig} {r : Request} {id : TradeId} {k l : Case}
    (hopens : r.dispute? = none) (hrules : r.result? = none) (h : Case.Step c r id k l) :
    l.dispute.bind Dispute.result = k.dispute.bind Dispute.result := by
  cases h with
  | opened d stamp sender text hr hd =>
    rw [hopens] at hr
    cases hr
  | said d m hr hm => exact d.addMessage_result m
  | ruled d m hr hm =>
    rw [hrules] at hr
    cases hr
  | accepted d t res hr hres => rfl
  | rejected t hr => rfl
  | moved t phase hr => rfl
  | signed t signature hr => rfl
  | paid t tx hr => rfl
  | settled t hpaid hstate => rfl

theorem Case.Steps.result_eq {c : MediationConfig} {r : Request} {id : TradeId} {k l : Case}
    (hopens : r.dispute? = none) (hrules : r.result? = none) (h : Case.Steps c r id k l) :
    l.dispute.bind Dispute.result = k.dispute.bind Dispute.result := by
  induction h with
  | refl => rfl
  | tail _ hstep ih => exact (hstep.result_eq hopens hrules).trans ih

namespace Engine

def attached (e : Engine) (id : TradeId) : Option DisputeResult :=
  (e.disputes.find? id).bind Dispute.result

/-- The result message that a request applies to a stored dispute. -/
def applied? (e : Engine) (r : Request) : Option ResultMessage :=
  r.result?.filter fun m =>
    e.takes r && m.result.chatMessage.isSome && e.disputes.contains m.tradeId

def opened? (e : Engine) (r : Request) : Option Dispute :=
  r.dispute?.filter fun d => e.takes r && !e.disputes.contains d.tradeId

theorem applied?_some {e : Engine} {r : Request} {m : ResultMessage} (h : e.applied? r = some m) :
    r.result? = some m ∧ e.takes r = true ∧ (∃ closing, m.result.chatMessage = some closing) ∧
      e.disputes.contains m.tradeId = true := by
  obtain ⟨hr, hcond⟩ := Option.filter_eq_some_iff.mp h
  simp only [Bool.and_eq_true, Option.isSome_iff_exists] at hcond
  exact ⟨hr, hcond.1.1, hcond.1.2, hcond.2⟩

theorem opened?_some {e : Engine} {r : Request} {d : Dispute} (h : e.opened? r = some d) :
    r.dispute? = some d ∧ e.takes r = true ∧ e.disputes.find? d.tradeId = none := by
  obtain ⟨hr, hcond⟩ := Option.filter_eq_some_iff.mp h
  simp only [Bool.and_eq_true, Bool.not_eq_true', DisputeStore.contains, Option.isSome_eq_false_iff,
    Option.isNone_iff_eq_none] at hcond
  exact ⟨hr, hcond.1, hcond.2⟩

theorem opened?_of_applied? {e : Engine} {r : Request} {m : ResultMessage}
    (h : e.applied? r = some m) : e.opened? r = none := by
  have hr := (applied?_some h).1
  unfold Request.result? at hr
  split at hr
  next => rfl
  next => rfl
  next => cases hr

/-! ### One request -/

theorem attached_of_applied {e : Engine} {r : Request} {m : ResultMessage}
    (h : e.applied? r = some m) (stamp : Stamp) (id : TradeId) :
    (e.serve stamp r).1.attached id = if id = m.tradeId then some m.result else e.attached id := by
  obtain ⟨hr, htakes, ⟨closing, hclosing⟩, hstored⟩ := applied?_some h
  have hruled := serve_result_of_stored hr htakes hclosing hstored stamp
  rw [attached, hruled.find?]
  split
  next hid =>
    rw [← e.disputes.contains_append closing, ← hid] at hstored
    obtain ⟨d, hd⟩ := Option.isSome_iff_exists.mp hstored
    rw [hd]
    rfl
  next =>
    rw [DisputeStore.find?_append, attached]
    split
    · cases e.disputes.find? id with
      | none => rfl
      | some d => exact d.addMessage_result closing
    · rfl

theorem attached_of_opened {e : Engine} {r : Request} {d : Dispute} (h : e.opened? r = some d)
    (stamp : Stamp) (id : TradeId) :
    (e.serve stamp r).1.attached id = if id = d.tradeId then d.result else e.attached id := by
  obtain ⟨hr, htakes, hnew⟩ := opened?_some h
  rw [attached, find?_serve_opening hr htakes hnew]
  split
  · rw [Option.bind_some, Dispute.addMessage_result]
  · rfl

/-- A result that is not applied leaves the disputes alone. -/
theorem disputes_of_unapplied {e : Engine} {r : Request} {m : ResultMessage}
    (hr : r.result? = some m) (happlied : e.applied? r = none) (stamp : Stamp) :
    (e.serve stamp r).1.disputes = e.disputes := by
  rcases serve_result_cases hr stamp with
    ⟨-, hsame⟩ | ⟨-, a, hmissed⟩ | ⟨htakes, hstored, closing, hclosing, -⟩
  · rw [hsame]
  · rw [hmissed, missDispute_eq]
  · have hmissing : e.disputes.contains m.tradeId = false := by
      simpa [applied?, hr, htakes, hclosing] using happlied
    rw [hstored] at hmissing
    cases hmissing

/-- A dispute that is not stored by its request is refused. -/
theorem serve_of_unopened {e : Engine} {r : Request} {d : Dispute} (hr : r.dispute? = some d)
    (hopened : e.opened? r = none) (stamp : Stamp) :
    (e.serve stamp r).1 = { e with acks := (e.serve stamp r).1.acks } := by
  rcases serve_opening_cases hr stamp with hsame | ⟨htakes, hnew, -⟩
  · exact hsame
  · have hstored : e.disputes.contains d.tradeId = true := by
      simpa [opened?, hr, htakes] using hopened
    rw [DisputeStore.contains_of_none hnew] at hstored
    cases hstored

theorem attached_of_neither {e : Engine} {r : Request} (happlied : e.applied? r = none)
    (hopened : e.opened? r = none) (stamp : Stamp) (id : TradeId) :
    (e.serve stamp r).1.attached id = e.attached id := by
  cases hopens : r.dispute? with
  | some d =>
    rw [serve_of_unopened hopens hopened]
    rfl
  | none =>
    cases hrules : r.result? with
    | none => exact (serve_steps e stamp r id).result_eq hopens hrules
    | some m => rw [attached, attached, disputes_of_unapplied hrules happlied]

/-! ### A whole run -/

section About
variable {α : Type} (f : Engine → Request → Option α) (key : α → TradeId) (id : TradeId)

def about (h : List (Engine × Request)) : List α :=
  (h.filterMap fun x => f x.1 x.2).filter fun a => key a = id

theorem mem_about {h : List (Engine × Request)} {a : α} (ha : a ∈ about f key id h) :
    key a = id ∧ ∃ x ∈ h, f x.1 x.2 = some a := by
  obtain ⟨hcame, hid⟩ := List.mem_filter.mp ha
  exact ⟨of_decide_eq_true hid, List.mem_filterMap.mp hcame⟩

theorem about_concat_of_none (h : List (Engine × Request)) {e : Engine} {r : Request}
    (hf : f e r = none) : about f key id (h ++ [(e, r)]) = about f key id h := by
  have hlast : [(e, r)].filterMap (fun x => f x.1 x.2) = [] := List.filterMap_cons_none hf
  rw [about, List.filterMap_append, hlast, List.append_nil, about]

theorem about_concat_of_some (h : List (Engine × Request)) {e : Engine} {r : Request} {a : α}
    (hf : f e r = some a) : about f key id (h ++ [(e, r)]) =
      if key a = id then about f key id h ++ [a] else about f key id h := by
  have hlast : [(e, r)].filterMap (fun x => f x.1 x.2) = [a] := List.filterMap_cons_some hf
  rw [about, List.filterMap_append, hlast, List.filter_append, about]
  split
  next hid => simp only [List.filter_cons, List.filter_nil, hid, decide_true, if_true]
  next hid =>
    simp only [List.filter_cons, List.filter_nil, hid, decide_false, Bool.false_eq_true, if_false,
      List.append_nil]

end About

/-- The result messages about a trade that were applied, in the order in which they were. -/
def applications : TradeId → List (Engine × Request) → List ResultMessage :=
  about applied? ResultMessage.tradeId

def openings : TradeId → List (Engine × Request) → List Dispute := about opened? Dispute.tradeId

/-- The result that a log leaves attached to the dispute about a trade: that of
the last message applied, or else the one it was stored with. -/
def source (id : TradeId) (h : List (Engine × Request)) : Option DisputeResult :=
  ((applications id h).getLast?.map ResultMessage.result).or
    ((openings id h).getLast?.bind Dispute.result)

theorem source_serve {h : List (Engine × Request)} {e : Engine} (r : Request) (stamp : Stamp)
    (hsource : ∀ id, e.attached id = source id h) (id : TradeId) :
    (e.serve stamp r).1.attached id = source id (h ++ [(e, r)]) := by
  have hbefore := hsource id
  simp only [source, applications, openings] at hbefore ⊢
  cases happlied : e.applied? r with
  | some m =>
    rw [attached_of_applied happlied, about_concat_of_some _ _ _ _ happlied,
      about_concat_of_none _ _ _ _ (opened?_of_applied? happlied)]
    by_cases hid : id = m.tradeId
    · rw [if_pos hid, if_pos hid.symm, List.getLast?_concat, Option.map_some, Option.some_or]
    · rw [if_neg hid, if_neg (Ne.symm hid), hbefore]
  | none =>
    rw [about_concat_of_none _ _ _ _ happlied]
    cases hopened : e.opened? r with
    | none =>
      rw [attached_of_neither happlied hopened, about_concat_of_none _ _ _ _ hopened, hbefore]
    | some d =>
      rw [attached_of_opened hopened, about_concat_of_some _ _ _ _ hopened]
      by_cases hid : id = d.tradeId
      · -- nothing was applied as long as there was no dispute
        have hmissing : e.attached id = none := by
          rw [attached, hid, (opened?_some hopened).2.2, Option.bind_none]
        have hnone := (Option.or_eq_none_iff.mp (hbefore.symm.trans hmissing)).1
        rw [if_pos hid, if_pos hid.symm, hnone, Option.none_or, List.getLast?_concat,
          Option.bind_some]
      · rw [if_neg hid, if_neg (Ne.symm hid), hbefore]

theorem attached_play {e : Engine} (hempty : e.disputes.disputes = .empty)
    (ts : List (Stamp × Turn)) (id : TradeId) :
    (e.play ts).attached id = source id (e.log ts) := by
  have hstart : ∀ j, e.attached j = source j [] := by
    intro j
    rw [attached, DisputeStore.find?, hempty, Table.get?_empty]
    rfl
  exact play_log_induction (R := fun h e => ∀ j, e.attached j = source j h) (Q := fun _ => True)
    (fun h e hsource w hw => trivial) (fun h e millis hsource => hsource)
    (fun h e stamp r hr hsource => source_serve r stamp hsource)
    ts (fun t ht r hr => trivial) [] e hstart id

/-! ### Accepting a result -/

/-- A payout is started with the amounts of the last result applied to the
dispute, or with those of the result that the dispute was opened with. -/
theorem accept_amounts {e e' : Engine} (hempty : e.disputes.disputes = .empty)
    (ts : List (Stamp × Turn)) {id : TradeId} {caller ticket : Nat}
    (haccept : (e.play ts).accept id caller = .ok (e', ticket)) :
    ∃ res : DisputeResult,
      (∃ t, e'.registry.book.live.get? id = some t ∧ t.process.buyerPayout = res.buyerPayout ∧
        t.process.sellerPayout = res.sellerPayout) ∧
      (∃ step t, e'.requests = (e.play ts).requests ++ [⟨step, t, ⟨ticket, id⟩⟩] ∧
        t.process.buyerPayout = res.buyerPayout ∧ t.process.sellerPayout = res.sellerPayout) ∧
      ((∃ m closing, (applications id (e.log ts)).getLast? = some m ∧
          m.result.chatMessage = some closing ∧ m.result = res) ∨
        (applications id (e.log ts) = [] ∧
          ∃ d ∈ openings id (e.log ts), d.result = some res)) := by
  obtain ⟨d, res, t, step, hd, hres, ht, rfl, rfl⟩ := accept_ok haccept
  refine ⟨res, ?_, ?_, ?_⟩
  · have hlive : ((e.play ts).accepting id caller res).registry.book.live.get? id =
        some (acceptedTrade t res) := by
      have hupdate := Book.update_live (e.play ts).registry.book id id fun t => acceptedTrade t res
      rw [if_pos rfl, ht, Option.map_some] at hupdate
      exact hupdate
    have hprocess := askPayout_process ((e.play ts).accepting id caller res) step
      (acceptedTrade t res) ⟨(e.play ts).tickets + 1, id⟩ id
    rw [hlive, Option.map_some] at hprocess
    obtain ⟨u, hu, hsame⟩ := Option.map_eq_some_iff.mp hprocess
    exact ⟨u, hu, by rw [hsame]; rfl, by rw [hsame]; rfl⟩
  · exact ⟨step, acceptedTrade t res, rfl, rfl, rfl⟩
  · have hsource : source id (e.log ts) = some res := by
      rw [← attached_play hempty, attached, hd, Option.bind_some, hres]
    rcases Option.or_eq_some_iff.mp hsource with happlied | ⟨hnone, hopened⟩
    · obtain ⟨m, hlast, hm⟩ := Option.map_eq_some_iff.mp happlied
      obtain ⟨-, x, -, hx⟩ := mem_about _ _ _ (List.mem_of_getLast? hlast)
      obtain ⟨-, -, ⟨closing, hclosing⟩, -⟩ := applied?_some hx
      exact Or.inl ⟨m, closing, hlast, hclosing, hm⟩
    · have hnil : applications id (e.log ts) = [] := by
        simpa using hnone
      obtain ⟨d', hlast, hd'⟩ := Option.bind_eq_some_iff.mp hopened
      exact Or.inr ⟨hnil, d', List.mem_of_getLast? hlast, hd'⟩

open Sample in
theorem accept_amounts_for_buyer :
    ∃ p t, (engine.play [deliver (opening none), deliver (.disputeResult forBuyer)]).accept
        tradeId 7 = .ok p ∧ p.1.registry.book.live.get? tradeId = some t ∧
      t.process.buyerPayout = forBuyer.result.buyerPayout ∧
      t.process.sellerPayout = forBuyer.result.sellerPayout := by
  have happlied : applications tradeId (engine.log [deliver (opening none),
      deliver (.disputeResult forBuyer)]) = [forBuyer] := by decide +kernel
  have hok : ((engine.play [deliver (opening none),
      deliver (.disputeResult forBuyer)]).accept tradeId 7).isOk = true := by decide +kernel
  cases haccept : (engine.play [deliver (opening none),
      deliver (.disputeResult forBuyer)]).accept tradeId 7 with
  | error err =>
    rw [haccept] at hok
    cases hok
  | ok p =>
    obtain ⟨res, ⟨t, ht, hbuyer, hseller⟩, -, ⟨m, closing, hlast, -, hm⟩ | ⟨hnil, -⟩⟩ :=
      accept_amounts rfl _ haccept
    · rw [happlied, List.getLast?_singleton, Option.some.injEq] at hlast
      subst hlast hm
      exact ⟨p, t, rfl, ht, hbuyer, hseller⟩
    · rw [happlied] at hnil
      cases hnil

open Sample in
/-- No message has to be applied for a payout: a dispute may be opened with a result. -/
theorem not_accept_amounts_of_applied :
    ¬ ∀ (e : Engine) (ts : List (Stamp × Turn)) (id : TradeId) (caller : Nat) (p : Engine × Nat),
      e.disputes.disputes = .empty → (e.play ts).accept id caller = .ok p →
      ∃ m ∈ applications id (e.log ts), m.result.chatMessage.isSome = true ∧
        ∃ t, p.1.registry.book.live.get? id = some t ∧
          t.process.buyerPayout = m.result.buyerPayout ∧
          t.process.sellerPayout = m.result.sellerPayout := by
  intro h
  have hnil : applications tradeId
      (engine.log [deliver (opening (some forBuyer.result))]) = [] := by decide +kernel
  have hok : ((engine.play [deliver (opening (some forBuyer.result))]).accept
      tradeId 7).isOk = true := by decide +kernel
  cases haccept : (engine.play [deliver (opening (some forBuyer.result))]).accept tradeId 7 with
  | error err =>
    rw [haccept] at hok
    cases hok
  | ok p =>
    obtain ⟨m, hm, -⟩ := h engine _ tradeId 7 p rfl haccept
    rw [hnil] at hm
    cases hm

/-! ### The last writer wins -/

/-- The result attached to a dispute is the one of the message applied last. -/
theorem result_eq_last_applied {e : Engine} (hempty : e.disputes.disputes = .empty)
    (ts : List (Stamp × Turn))
    (hnew : ∀ t ∈ ts, ∀ r, t.2 = .request r → ∀ d, r.dispute? = some d → d.result = none)
    {id : TradeId} {d : Dispute} (hd : (e.play ts).disputes.find? id = some d) :
    d.result = (applications id (e.log ts)).getLast?.map ResultMessage.result := by
  have hattached : (e.play ts).attached id = source id (e.log ts) := attached_play hempty ts id
  rw [attached, hd, Option.bind_some] at hattached
  have hlog := forall_mem_log (Q := fun r => ∀ d, r.dispute? = some d → d.result = none)
    (fun m d hd => by cases hd) ts hnew e
  have hopened : (openings id (e.log ts)).getLast?.bind Dispute.result = none := by
    rw [Option.bind_eq_none_iff]
    intro d' hlast
    obtain ⟨-, x, hx, hx'⟩ := mem_about _ _ _ (List.mem_of_getLast? hlast)
    exact hlog x hx d' (opened?_some hx').1
  rw [hattached, source, hopened, Option.or_none]

/-- The result message about a trade that was the last one to be applied for the first time. -/
def latest? (id : TradeId) (h : List (Engine × Request)) : Option ResultMessage :=
  (applications id h).eraseDups.getLast?

section Repeats
variable {α : Type} [DecidableEq α] {l : List α} {a : α}

theorem eraseDups_concat_of_mem (h : a ∈ l) : (l ++ [a]).eraseDups = l.eraseDups := by
  have hnone : [a].removeAll l = [] := by
    simp only [List.removeAll, List.filter_cons, List.elem_eq_mem, h, decide_true, Bool.not_true,
      Bool.false_eq_true, if_false, List.filter_nil]
  rw [List.eraseDups_append, hnone, List.eraseDups_nil, List.append_nil]

theorem eraseDups_concat_of_not_mem (h : a ∉ l) : (l ++ [a]).eraseDups = l.eraseDups ++ [a] := by
  have hsome : [a].removeAll l = [a] := by
    simp only [List.removeAll, List.filter_cons, List.elem_eq_mem, h, decide_false, Bool.not_false,
      if_true, List.filter_nil]
  rw [List.eraseDups_append, hsome]
  rfl

/-- The last entry is the last one to come for the first time, if none comes again once another
has followed it. -/
theorem getLast?_eraseDups (h : ∀ a b, List.Sublist [a, b, a] l → a = b) :
    l.eraseDups.getLast? = l.getLast? := by
  induction l using List.reverseRecOn with
  | nil => rfl
  | append_singleton l a ih =>
    have hbefore : ∀ x y, List.Sublist [x, y, x] l → x = y := fun x y hs =>
      h x y (hs.trans (List.sublist_append_left l [a]))
    by_cases ha : a ∈ l
    · rw [eraseDups_concat_of_mem ha, ih hbefore, List.getLast?_concat]
      rcases List.eq_nil_or_concat' l with rfl | ⟨l', b, rfl⟩
      · cases ha
      · -- the entry was there before, so what precedes it now is itself
        rw [List.getLast?_concat, Option.some_inj]
        rcases List.mem_append.mp ha with hearlier | hlast
        · have hagain : List.Sublist [a, b, a] (l' ++ [b] ++ [a]) :=
            ((List.singleton_sublist.mpr hearlier).append (.refl [b])).append (.refl [a])
          exact (h a b hagain).symm
        · exact (List.mem_singleton.mp hlast).symm
    · rw [eraseDups_concat_of_not_mem ha, List.getLast?_concat, List.getLast?_concat]

end Repeats

/-- The result attached to a dispute is the one of the message that was applied after all others,
whatever the order in which the messages came, as long as none is applied again once another has
been applied after it. -/
theorem result_eq_latest_applied {e : Engine} (hempty : e.disputes.disputes = .empty)
    (ts : List (Stamp × Turn))
    (hnew : ∀ t ∈ ts, ∀ r, t.2 = .request r → ∀ d, r.dispute? = some d → d.result = none)
    {id : TradeId}
    (hagain : ∀ m n, List.Sublist [m, n, m] (applications id (e.log ts)) → m = n)
    {d : Dispute} (hd : (e.play ts).disputes.find? id = some d) :
    d.result = (latest? id (e.log ts)).map ResultMessage.result := by
  rw [latest?, getLast?_eraseDups hagain]
  exact result_eq_last_applied hempty ts hnew hd

open Sample in
/-- The retry of an early result is applied after a newer one, and so is its second delivery. -/
theorem result_eq_latest_applied_of_retry :
    ((engine.play (overtaken ++ [deliver (.disputeResult forBuyer)])).disputes.find? tradeId).bind
      Dispute.result = some forBuyer.result := by
  have hstored : ((engine.play (overtaken ++ [deliver (.disputeResult forBuyer)])).disputes.find?
      tradeId).isSome = true := by decide +kernel
  have happlied : applications tradeId (engine.log
      (overtaken ++ [deliver (.disputeResult forBuyer)])) = [forSeller, forBuyer, forBuyer] := by
    decide +kernel
  have hlatest : latest? tradeId (engine.log
      (overtaken ++ [deliver (.disputeResult forBuyer)])) = some forBuyer := by decide +kernel
  have hnew : ∀ t ∈ overtaken ++ [deliver (.disputeResult forBuyer)], ∀ r, t.2 = .request r →
      ∀ d, r.dispute? = some d → d.result = none := by
    intro t ht r hr d hd
    rcases List.mem_append.mp ht with hearly | hlast
    · exact (overtaken_fresh t hearly r hr d hd).2
    · cases List.mem_singleton.mp hlast
      exact (fresh_result forBuyer r hr d hd).2
  have hagain : ∀ m n, List.Sublist [m, n, m] (applications tradeId (engine.log
      (overtaken ++ [deliver (.disputeResult forBuyer)]))) → m = n := by
    intro m n hsub
    rw [happlied] at hsub
    have hall := hsub.eq_of_length rfl
    simp only [List.cons.injEq] at hall
    exact hall.2.2.1.trans hall.2.1.symm
  obtain ⟨d, hd⟩ := Option.isSome_iff_exists.mp hstored
  rw [hd, Option.bind_some, result_eq_latest_applied rfl _ hnew hagain hd, hlatest]
  rfl

def deliveries (h : List (Engine × Request)) : List ResultMessage :=
  h.filterMap fun x => x.2.delivered?

/-- The result message about a trade whose first delivery is the latest among
those that were applied at all. -/
def newest? (id : TradeId) (h : List (Engine × Request)) : Option ResultMessage :=
  ((deliveries h).eraseDups.filter fun m => m ∈ applications id h).getLast?

/-- In every run of a kind from no disputes, with ids that tell the messages apart and new
disputes, once no retry is left the result attached is the newest one. -/
def NewestStays (P : Engine → List (Stamp × Turn) → Prop) : Prop :=
  ∀ (e : Engine) (ts : List (Stamp × Turn)), P e ts → e.disputes.disputes = .empty →
    (∀ m ∈ deliveries (e.log ts), ∀ n ∈ deliveries (e.log ts), m.uid = n.uid → m = n) →
    (∀ t ∈ ts, t.2.Fresh) → (e.play ts).timers.waiting = [] →
    ∀ id d, (e.play ts).disputes.find? id = some d →
      d.result = (newest? id (e.log ts)).map ResultMessage.result

end Engine

namespace Sample

/-- Both rulings come after the dispute, and then the one for the buyer comes again. -/
def repeated : List (Stamp × Turn) :=
  [deliver (opening none), deliver (.disputeResult forBuyer), deliver (.disputeResult forSeller),
    deliver (.disputeResult forBuyer)]

theorem repeated_fresh : ∀ t ∈ repeated, t.2.Fresh := by
  intro t ht
  simp only [repeated, List.mem_cons, List.not_mem_nil, or_false] at ht
  rcases ht with rfl | rfl | rfl | rfl
  · exact fresh_opening
  · exact fresh_result forBuyer
  · exact fresh_result forSeller
  · exact fresh_result forBuyer

end Sample

namespace Engine

open Sample in
/-- A newer result is displaced by the retry of an early one, though no message is applied
twice, and by a late delivery of an early one, though no time passes. -/
theorem not_result_eq_newest :
    ¬ NewestStays (fun _ _ => True) ∧
    ¬ NewestStays (fun e ts => ∀ id, (applications id (e.log ts)).Nodup) ∧
    ¬ NewestStays (fun _ ts => ∀ t ∈ ts, ∃ r, t.2 = .request r) := by
  have hdisplaced {P : Engine → List (Stamp × Turn) → Prop} (ts : List (Stamp × Turn))
      (hP : P engine ts)
      (huid : ∀ m ∈ deliveries (engine.log ts), ∀ n ∈ deliveries (engine.log ts),
        m.uid = n.uid → m = n)
      (hfresh : ∀ t ∈ ts, t.2.Fresh) (hidle : (engine.play ts).timers.waiting = [])
      (hnewest : newest? tradeId (engine.log ts) = some forSeller)
      (hresult : ((engine.play ts).disputes.find? tradeId).map Dispute.result =
        some (some forBuyer.result)) : ¬ NewestStays P := by
    intro h
    obtain ⟨d, hd, hforBuyer⟩ := Option.map_eq_some_iff.mp hresult
    have hforSeller := h engine ts hP rfl huid hfresh hidle tradeId d hd
    rw [hforBuyer, hnewest] at hforSeller
    revert hforSeller
    decide
  have honce (id : TradeId) : (applications id (engine.log overtaken)).Nodup := by
    have happlied : (engine.log overtaken).filterMap (fun x => x.1.applied? x.2) =
        [forSeller, forBuyer] := by decide +kernel
    have hnodup : [forSeller, forBuyer].Nodup := by decide +kernel
    rw [applications, about, happlied]
    exact hnodup.filter _
  have hasked : ∀ t ∈ repeated, ∃ r, t.2 = .request r := by
    intro t ht
    simp only [repeated, List.mem_cons, List.not_mem_nil, or_false] at ht
    rcases ht with rfl | rfl | rfl | rfl
    · exact ⟨_, rfl⟩
    · exact ⟨_, rfl⟩
    · exact ⟨_, rfl⟩
    · exact ⟨_, rfl⟩
  refine ⟨?_, ?_, ?_⟩
  · exact hdisplaced overtaken trivial (by decide +kernel) overtaken_fresh (by decide +kernel)
      (by decide +kernel) (by decide +kernel)
  · exact hdisplaced overtaken honce (by decide +kernel) overtaken_fresh (by decide +kernel)
      (by decide +kernel) (by decide +kernel)
  · exact hdisplaced repeated hasked (by decide +kernel) repeated_fresh (by decide +kernel)
      (by decide +kernel) (by decide +kernel)

end Engine

end Mediation
