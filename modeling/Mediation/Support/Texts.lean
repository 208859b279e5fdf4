import Mediation.Support.Basic

/-!
# Texts of system messages

What a dispute's chat begins with: the information about the case, and around
it an introduction for the trader who asked for mediation or for the peer.
-/

namespace Mediation.Texts

def version : String := "0.1.0"

def disputeInfo (d : Dispute) : String :=
  "Your mediation case for trade " ++ d.tradeId.text ++ " is handled by "
    ++ (d.parties.agentAddress.map NodeAddress.text).getD "an unassigned mediator"
    ++ ". The mediator proposes a payout; both traders must accept it before it is signed and "
    ++ "published. If you reject the proposal you can escalate to a refund agent."

def introduction (heading info : String) : String :=
  heading ++ "\n\n" ++ info ++ "\n\nVersion " ++ version

def introForPeer (info : String) : String :=
  introduction "Your trading peer has requested mediation." info

def introForCreator (info : String) : String :=
  introduction "You opened a request for mediation." info

end Mediation.Texts
