import Mediation.Proofs.Engine.World
import Mediation.Proofs.Timers

/-!
# Runs of an engine

An engine is taken through turns: it is asked for something, or time passes and
the retries that become due are handed back to it. These are the runs of a world
in which what fires is handled at once. The log of a run lists the requests in
the order in which they were served, each with the engine that served it.
-/

namespace Mediation

namespace Request

def delivered? : Request → Option ResultMessage
  | .event (.support (.disputeResult m)) => some m
  | _ => none

def Fresh (r : Request) : Prop :=
  ∀ d, r.dispute? = some d → d.isClosed = false ∧ d.result = none

theorem fresh_deferred (m : ResultMessage) : Fresh (.event (.deferred m)) := by
  intro d hd
  cases hd

end Request

inductive Turn where
  | request (r : Request)
  | elapse (millis : Nat)

/-- A turn opens no dispute that is closed already or has a result. -/
def Turn.Fresh (t : Turn) : Prop := ∀ r, t = .request r → r.Fresh

namespace Engine

def run (e : Engine) (rs : List (Stamp × Request)) : Engine :=
  rs.foldl (fun e r => (e.serve r.1 r.2).1) e

def clocked (e : Engine) : Turn → Engine
  | .request _ => e
  | .elapse millis => { e with timers := e.timers.advance millis }

/-- The requests of a turn: what is asked for, or the retries that become due. -/
def arising (e : Engine) (t : Stamp × Turn) : List (Stamp × Request) :=
  match t.2 with
  | .request r => [(t.1, r)]
  | .elapse millis =>
    (e.timers.dueAfter millis).map fun w => (t.1, .event (.deferred w.task))

def turn (e : Engine) (t : Stamp × Turn) : Engine := (e.clocked t.2).run (e.arising t)

def play (e : Engine) (ts : List (Stamp × Turn)) : Engine := ts.foldl turn e

def runLog : Engine → List (Stamp × Request) → List (Engine × Request)
  | _, [] => []
  | e, r :: rs => (e, r.2) :: runLog (e.serve r.1 r.2).1 rs

def log : Engine → List (Stamp × Turn) → List (Engine × Request)
  | _, [] => []
  | e, t :: ts => (e.clocked t.2).runLog (e.arising t) ++ log (e.turn t) ts

theorem play_append (e : Engine) (ts us : List (Stamp × Turn)) :
    e.play (ts ++ us) = (e.play ts).play us := List.foldl_append

/-- The acts of a turn: what fires is handled at once, in the order in which it is due. -/
def acts (e : Engine) (t : Stamp × Turn) : List (Stamp × Act) :=
  match t.2 with
  | .request r => [(t.1, .ask r)]
  | .elapse millis =>
    (t.1, .elapse millis) :: (e.timers.dueAfter millis).map fun w => (t.1, .retry w)

def script : Engine → List (Stamp × Turn) → List (Stamp × Act)
  | _, [] => []
  | e, t :: ts => e.acts t ++ script (e.turn t) ts

end Engine

namespace World
open Engine

theorem run_retries (e : Engine) (due : List (Timer ResultMessage)) (taken : List PayoutOutcome)
    (stamp : Stamp) :
    let as := due.map fun t => (stamp, Act.retry t)
    let rs := due.map fun t => (stamp, Request.event (.deferred t.task))
    run ⟨e, due, taken⟩ as = ⟨e.run rs, [], taken⟩ ∧
      servings (trace ⟨e, due, taken⟩ as) = e.runLog rs := by
  induction due generalizing e with
  | nil => exact ⟨rfl, rfl⟩
  | cons t due ih =>
    have hrequest : request? ⟨e, t :: due, taken⟩ (.retry t) = some (.event (.deferred t.task)) :=
      if_pos (List.mem_cons_self ..)
    have hafter : after ⟨e, t :: due, taken⟩ (stamp, .retry t) =
        ⟨(e.serve stamp (.event (.deferred t.task))).1, due, taken⟩ := by
      simp only [after, List.erase_cons_head]
      rw [serving_of_some (a := (stamp, .retry t)) hrequest]
    obtain ⟨hrun, hlog⟩ := ih (e.serve stamp (.event (.deferred t.task))).1
    constructor
    · rw [List.map_cons, run, List.foldl_cons, hafter]
      exact hrun
    · rw [List.map_cons, trace, hafter, ← List.singleton_append, servings_append,
        servings_singleton_of_some hrequest, hlog]
      rfl

theorem run_acts (e : Engine) (t : Stamp × Turn) :
    (start e).run (e.acts t) = start (e.turn t) ∧
      servings ((start e).trace (e.acts t)) = (e.clocked t.2).runLog (e.arising t) := by
  obtain ⟨stamp, turn⟩ := t
  cases turn with
  | request r => exact ⟨rfl, rfl⟩
  | elapse millis =>
    exact run_retries (e.clocked (.elapse millis)) (e.timers.dueAfter millis) [] stamp

theorem run_and_servings_script (e : Engine) (ts : List (Stamp × Turn)) :
    (start e).run (e.script ts) = start (e.play ts) ∧
      servings ((start e).trace (e.script ts)) = e.log ts := by
  induction ts generalizing e with
  | nil => exact ⟨rfl, rfl⟩
  | cons t ts ih =>
    obtain ⟨hturn, hlog⟩ := run_acts e t
    obtain ⟨hrest, hrestLog⟩ := ih (e.turn t)
    constructor
    · rw [script, run_append, hturn, hrest]
      rfl
    · rw [script, trace_append, servings_append, hturn, hlog, hrestLog]
      rfl

/-- An engine that is taken through turns is that of a world. -/
theorem run_script (e : Engine) (ts : List (Stamp × Turn)) :
    (start e).run (e.script ts) = start (e.play ts) := (run_and_servings_script e ts).1

/-- The log of an engine lists what the world has served. -/
theorem servings_script (e : Engine) (ts : List (Stamp × Turn)) :
    servings ((start e).trace (e.script ts)) = e.log ts := (run_and_servings_script e ts).2

end World

namespace Engine

/-- An act that a turn has; what is asked for is of a given kind. -/
inductive Prompt (Q : Request → Prop) : Act → Prop where
  | ask (r : Request) (h : Q r) : Prompt Q (.ask r)
  | elapse (millis : Nat) : Prompt Q (.elapse millis)
  | retry (t : Timer ResultMessage) : Prompt Q (.retry t)

theorem prompt_script {Q : Request → Prop} (ts : List (Stamp × Turn))
    (hts : ∀ t ∈ ts, ∀ r, t.2 = .request r → Q r) (e : Engine) :
    ∀ a ∈ e.script ts, Prompt Q a.2 := by
  induction ts generalizing e with
  | nil =>
    intro a ha
    cases ha
  | cons t ts ih =>
    intro a ha
    rcases List.mem_append.mp ha with hturn | hrest
    · unfold acts at hturn
      split at hturn
      next r ht =>
        cases List.mem_singleton.mp hturn
        exact .ask r (hts t (List.mem_cons_self ..) r ht)
      next millis ht =>
        rcases List.mem_cons.mp hturn with rfl | hdue
        · exact .elapse millis
        · obtain ⟨w, -, rfl⟩ := List.mem_map.mp hdue
          exact .retry w
    · exact ih (fun u hu => hts u (List.mem_cons_of_mem _ hu)) (e.turn t) a hrest

section Induction
variable {R : List (Engine × Request) → Engine → Prop} {Q : Request → Prop}

/-- A property of the log and the engine holds after every run if it is kept by
the clock and by serving what comes from outside or from a timer. -/
theorem play_log_induction
    (hretry : ∀ h e, R h e → ∀ w ∈ e.timers.waiting, Q (.event (.deferred w.task)))
    (hclock : ∀ h (e : Engine) millis, R h e → R h { e with timers := e.timers.advance millis })
    (hserve : ∀ h e stamp r, Q r → R h e → R (h ++ [(e, r)]) (e.serve stamp r).1)
    (ts : List (Stamp × Turn)) (hts : ∀ t ∈ ts, ∀ r, t.2 = .request r → Q r)
    (h : List (Engine × Request)) (e : Engine) (hR : R h e) :
    R (h ++ e.log ts) (e.play ts) := by
  -- what has fired comes from the timers, so it is of the kind that is served
  have hrun := World.run_trace_induction (Q := Prompt Q)
    (R := fun k w => R (h ++ World.servings k) w.engine ∧
      ∀ t ∈ w.fired, Q (.event (.deferred t.task)))
    ?_ (e.script ts) (prompt_script ts hts e) [] (World.start e) ⟨?_, ?_⟩
  · rw [List.nil_append, World.run_script, World.servings_script] at hrun
    exact hrun.1
  · intro k w stamp a ha ⟨hw, hfired⟩
    rw [World.servings_append, ← List.append_assoc]
    cases ha with
    | ask r hr => exact ⟨hserve _ _ stamp r hr hw, hfired⟩
    | elapse millis =>
      rw [World.servings_singleton_of_none rfl, List.append_nil]
      refine ⟨hclock _ _ millis hw, fun t ht => ?_⟩
      rcases List.mem_append.mp ht with hold | hdue
      · exact hfired t hold
      · exact hretry _ _ hw t (Timers.mem_dueAfter.mp hdue).1
    | retry t =>
      refine ⟨?_, fun u hu => hfired u (List.mem_of_mem_erase hu)⟩
      by_cases ht : t ∈ w.fired
      · have hrequest : w.request? (.retry t) = some (.event (.deferred t.task)) := if_pos ht
        simp only [World.after]
        rw [World.servings_singleton_of_some hrequest,
          World.serving_of_some (a := (stamp, .retry t)) hrequest]
        exact hserve _ _ stamp _ (hfired t ht) hw
      · have hrequest : w.request? (.retry t) = none := if_neg ht
        simp only [World.after]
        rw [World.servings_singleton_of_none hrequest, List.append_nil,
          World.serving_of_none (a := (stamp, .retry t)) hrequest]
        exact hw
  · rw [show World.servings [] = [] from rfl, List.append_nil]
    exact hR
  · intro t ht
    cases ht

end Induction

theorem play_induction {P : Engine → Prop} {Q : Request → Prop}
    (hretry : ∀ e, P e → ∀ w ∈ e.timers.waiting, Q (.event (.deferred w.task)))
    (hclock : ∀ (e : Engine) millis, P e → P { e with timers := e.timers.advance millis })
    (hserve : ∀ e stamp r, Q r → P e → P (e.serve stamp r).1)
    (ts : List (Stamp × Turn)) (hts : ∀ t ∈ ts, ∀ r, t.2 = .request r → Q r)
    (e : Engine) (hP : P e) : P (e.play ts) :=
  play_log_induction (R := fun _ e => P e) (fun _ e => hretry e) (fun _ e millis => hclock e millis)
    (fun _ e stamp r => hserve e stamp r) ts hts [] e hP

theorem forall_mem_log {Q : Request → Prop} (hretry : ∀ m, Q (.event (.deferred m)))
    (ts : List (Stamp × Turn)) (hts : ∀ t ∈ ts, ∀ r, t.2 = .request r → Q r) (e : Engine) :
    ∀ x ∈ e.log ts, Q x.2 := by
  refine play_log_induction (R := fun h _ => ∀ x ∈ h, Q x.2) (fun _ _ _ w _ => hretry w.task)
    (fun _ _ _ hh => hh) ?_ ts hts [] e ?_
  · intro h e stamp r hr hh x hx
    rcases List.mem_append.mp hx with hold | hlast
    · exact hh x hold
    · rw [List.mem_singleton.mp hlast]
      exact hr
  · intro x hx
    cases hx

end Engine

/-! ### A sample case

One live trade, the messages about its dispute, and an engine that has handled
nothing: for statements about concrete runs.
-/

namespace Sample

def tradeId : TradeId := ⟨"T1", by decide⟩

def keyRing : PubKeyRing := ⟨"aa", by decide, by decide⟩

def terms : TradeTerms where
  takeOfferDate := .epoch
  isBuyOffer := true
  isMyOffer := true
  amount := ⟨1000000, by decide⟩
  price := ⟨60000, "EUR"⟩
  volume := none
  makerFee := .zero
  isMakerFeeInBtc := true
  makerTxFee := .zero
  takerFee := .zero
  isTakerFeeInBtc := true
  tradeTxFee := .zero

def trade : Trade := .create tradeId terms ⟨.default, keyRing, none⟩

def engine : Engine :=
  .start .default .default ⟨⟨Table.empty.insert tradeId trade, .empty, .empty⟩, 0, []⟩ .empty
    (.ofScript .hold) false

def stamp : Stamp := ⟨⟨0, by decide⟩, .epoch⟩

def dispute (result : Option DisputeResult) : Dispute where
  tradeId := tradeId
  supportType := .mediation
  isBuyer := true
  parties := ⟨keyRing, keyRing, none, .default⟩
  openingDate := .epoch
  chat := []
  isClosed := false
  result := result

def closing : ChatMessage where
  uid := ⟨1, by decide⟩
  tradeId := tradeId
  supportType := .mediation
  senderIsTrader := false
  sender := .default
  text := "closed"
  date := .epoch
  isSystem := false

def result (buyer seller : Coin) : DisputeResult where
  tradeId := tradeId
  chatMessage := some closing
  buyerPayout := buyer
  sellerPayout := seller
  summaryNotes := ""
  closeDate := .epoch

def opening (result : Option DisputeResult) : SupportMessage :=
  .peerOpenedDispute ⟨⟨2, by decide⟩, dispute result, .default⟩

def ruling (uid : MessageUid) (result : DisputeResult) : ResultMessage :=
  ⟨uid, .mediation, result, .default⟩

/-- The ruling that gives all to the buyer. -/
def forBuyer : ResultMessage := ruling ⟨3, by decide⟩ (result ⟨1000000, by decide⟩ .zero)

/-- The ruling that gives all to the seller. -/
def forSeller : ResultMessage := ruling ⟨4, by decide⟩ (result .zero ⟨1000000, by decide⟩)

def deliver (m : SupportMessage) : Stamp × Turn := (stamp, .request (.event (.support m)))

def elapse (millis : Nat) : Stamp × Turn := (stamp, .elapse millis)

/-- The ruling for the buyer comes before the dispute, the one for the seller
after it, and then the retry of the first fires. -/
def overtaken : List (Stamp × Turn) :=
  [deliver (.disputeResult forBuyer), deliver (opening none), deliver (.disputeResult forSeller),
    elapse 2000]

theorem fresh_result (m : ResultMessage) : (deliver (.disputeResult m)).2.Fresh := by
  intro r hr d hd
  cases hr
  cases hd

theorem fresh_opening : (deliver (opening none)).2.Fresh := by
  intro r hr d hd
  cases hr
  cases hd
  exact ⟨rfl, rfl⟩

theorem fresh_elapse (millis : Nat) : (elapse millis).2.Fresh := by
  intro r hr
  cases hr

theorem overtaken_fresh : ∀ t ∈ overtaken, t.2.Fresh := by
  intro t ht
  simp only [overtaken, List.mem_cons, List.not_mem_nil, or_false] at ht
  rcases ht with rfl | rfl | rfl | rfl
  · exact fresh_result forBuyer
  · exact fresh_opening
  · exact fresh_result forSeller
  · exact fresh_elapse 2000

end Sample

end Mediation
