/-
  Procurement.Protocol.Machine
  ────────────────────────────
  **THE NEGOTIATION PROTOCOL** (`maquina-estados.md`), without rows.

  A request has an owner and is open or closed.  Every pair of a request and a
  supplier has a thread: absent, active with the party on turn and the price on
  the table, or closed by an acceptance or a rejection.  The machine says when
  an action is enabled and what it does; where turn, price and currency are
  kept is left to the implementation.
-/
import Procurement.Model.Schema

namespace Procurement

/-! ## §1. States. -/

inductive Phase where
  | opened
  | closed
  deriving DecidableEq, Repr

structure RequestState where
  owner : Id
  phase : Phase
  deriving DecidableEq, Repr

/-- `turn` is the party that may answer the price on the table. -/
inductive ThreadState where
  | absent
  | active (turn : Role) (price : Amount) (currency : String)
  | accepted (price : Amount)
  | rejected
  deriving DecidableEq, Repr

/-- The other party. -/
def Role.other : Role → Role
  | .client => .supplier
  | .supplier => .client

namespace ThreadState

/-- A new price is on the table, and the other party is on turn. -/
def countered (price : Amount) : ThreadState → ThreadState
  | .active turn _ currency => .active turn.other price currency
  | t => t

/-- The price on the table is agreed. -/
def concluded : ThreadState → ThreadState
  | .active _ price _ => .accepted price
  | t => t

/-- An active thread ends. -/
def ended : ThreadState → ThreadState
  | .active _ _ _ => .rejected
  | t => t

end ThreadState

/-- The state of the protocol.  Threads are indexed by request and supplier. -/
@[ext] structure Protocol where
  request : Id → Option RequestState
  thread : Id → Id → ThreadState

/-! ## §2. Transitions. -/

/-- What a user does. -/
inductive Action where
  | offer (requestId : Id) (price : Amount) (currency : String)
  | counter (requestId supplierId : Id) (price : Amount)
  | accept (requestId supplierId : Id)
  | reject (requestId supplierId : Id)
  deriving DecidableEq, Repr

namespace Protocol

/-- The user who takes a party in a thread. -/
def member (P : Protocol) (requestId supplierId : Id) : Role → Option Id
  | .client => (P.request requestId).map RequestState.owner
  | .supplier => some supplierId

/-- The thread is active and the user is the party on turn. -/
def OnTurn (P : Protocol) (user requestId supplierId : Id) : Prop :=
  ∃ turn price currency, P.thread requestId supplierId = .active turn price currency
    ∧ P.member requestId supplierId turn = some user

/-- The guards. -/
def Enabled (P : Protocol) (user : Id) (role : Role) : Action → Prop
  | .offer requestId _ _ =>
      role = .supplier ∧ (∃ owner, P.request requestId = some ⟨owner, .opened⟩)
        ∧ P.thread requestId user = .absent
  | .counter requestId supplierId _ => P.OnTurn user requestId supplierId
  | .accept requestId supplierId => P.OnTurn user requestId supplierId
  | .reject requestId supplierId => P.OnTurn user requestId supplierId

/-- Change one thread. -/
def setThread (P : Protocol) (requestId supplierId : Id) (f : ThreadState → ThreadState) :
    Protocol where
  request := P.request
  thread r s := if r = requestId ∧ s = supplierId then f (P.thread r s) else P.thread r s

/-- An acceptance concludes its thread, closes the request and ends every other
thread of it. -/
def conclude (P : Protocol) (requestId supplierId : Id) : Protocol where
  request i :=
    if i = requestId then (P.request i).map fun r => { r with phase := .closed }
    else P.request i
  thread r s :=
    if r = requestId then
      if s = supplierId then (P.thread r s).concluded else (P.thread r s).ended
    else P.thread r s

/-- The state behind an action. -/
def next (P : Protocol) (user : Id) : Action → Protocol
  | .offer requestId price currency =>
      P.setThread requestId user fun _ => .active .client price currency
  | .counter requestId supplierId price => P.setThread requestId supplierId (.countered price)
  | .accept requestId supplierId => P.conclude requestId supplierId
  | .reject requestId supplierId => P.setThread requestId supplierId .ended

end Protocol

end Procurement
