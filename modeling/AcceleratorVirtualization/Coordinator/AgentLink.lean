import AcceleratorVirtualization.Status
import Mathlib.Logic.Function.Basic

/-!
# The link to an agent

Requests to an agent are made by several threads over one connection, and answered in any order by
the thread that reads it. A request enters a promise into a table under its identity, sends, and
waits; a response that is delivered takes the promise out of the table and sets it; when the
connection ends, `fail_all` marks the link, empties the table and sets what it found.

Every access to the flag, every critical section over the table, every send and every promise that
is set is one step, and the steps of all calls interleave in any order. What the history keeps is
read by no step.
-/

namespace AcceleratorVirtualization

/-- How a request ends: the link was closed, the send failed, or the promise was set. -/
inductive Reply (ρ : Type)
  | closed
  | unsent (status : Status)
  | got (response : ρ)

/-- How far a call of `request` got. -/
inductive Call (ρ : Type)
  | idle
  /-- The link was alive. -/
  | checked
  | identified (identity : ℕ)
  /-- The promise is in the table. -/
  | registered (identity : ℕ)
  | waiting (identity : ℕ)
  /-- The send failed and the entry is to be erased. -/
  | failed (identity : ℕ) (status : Status)
  /-- The entry was erased and the link is to be marked. -/
  | erased (identity : ℕ) (status : Status)
  | returned (identity : Option ℕ) (reply : Reply ρ)

/-- The identity a call has fetched. -/
def Call.identity {ρ : Type} : Call ρ → Option ℕ
  | .idle | .checked => none
  | .identified n | .registered n | .waiting n | .failed n _ | .erased n _ => some n
  | .returned n _ => n

/-- How far a call of `deliver` got: it has taken a promise out of the table, or it is over. -/
inductive Delivery (ρ : Type)
  | idle
  | holding (identity : ℕ) (response : ρ)
  | finished

/-- How far a call of `fail_all` got: it has marked the link, or it sets what it found; with nothing
left to set it is over. -/
inductive Failing
  | idle
  | marked (status : Status)
  | setting (status : Status) (rest : List ℕ)

/-- What is remembered of the past: which identities were entered, what was delivered for each of
them since, whether a `fail_all` has emptied the table, and which identities were entered after. -/
structure LinkHistory (ρ : Type) where
  entered : ℕ → Bool := fun _ => false
  heard : ℕ → List ρ := fun _ => []
  emptied : Bool := false
  late : ℕ → Bool := fun _ => false

/-- The link, with the calls that run on it. A promise is named by the identity it is made for. -/
structure AgentLink (ρ : Type) where
  alive : Bool := true
  nextRequest : ℕ := 1
  pending : List ℕ := []
  value : ℕ → Option ρ := fun _ => none
  /-- A promise was set that already had a value. -/
  broken : Bool := false
  calls : ℕ → Call ρ := fun _ => .idle
  deliveries : ℕ → Delivery ρ := fun _ => .idle
  failings : ℕ → Failing := fun _ => .idle
  history : LinkHistory ρ := {}

/-- The steps of the calls, each named by its thread. -/
inductive LinkStep (ρ : Type)
  | check (t : ℕ)
  | fetch (t : ℕ)
  | enter (t : ℕ)
  | send (t : ℕ) (sent : Except Status Unit)
  | erase (t : ℕ)
  | mark (t : ℕ)
  | wake (t : ℕ)
  | deliver (d identity : ℕ) (response : ρ)
  | setDelivered (d : ℕ)
  | failAll (f : ℕ) (status : Status)
  | take (f : ℕ)
  | setFailed (f : ℕ)

namespace AgentLink

variable {ρ : Type}

/-- The link with call `c` in the hands of thread `t`. -/
def setCall (l : AgentLink ρ) (t : ℕ) (c : Call ρ) : AgentLink ρ :=
  { l with calls := Function.update l.calls t c }

/-- `promise->set_value`; a promise that has a value already throws. -/
def setValue (l : AgentLink ρ) (n : ℕ) (r : ρ) : AgentLink ρ :=
  match l.value n with
  | none => { l with value := Function.update l.value n (some r) }
  | some _ => { l with broken := true }

/-- The entry of an identity is removed from the table. -/
def remove (l : AgentLink ρ) (n : ℕ) : AgentLink ρ :=
  { l with pending := l.pending.filter (· ≠ n) }

/-- The promise of an identity is entered into the table. -/
def insert (l : AgentLink ρ) (n : ℕ) : AgentLink ρ :=
  { l with
    pending := l.pending.insert n
    history := { l.history with
      entered := Function.update l.history.entered n true
      late := Function.update l.history.late n l.history.emptied } }

/-- A response came in; it is remembered if its identity was entered. -/
def hear (l : AgentLink ρ) (n : ℕ) (r : ρ) : AgentLink ρ :=
  { l with history.heard := if l.history.entered n then
      Function.update l.history.heard n (l.history.heard n ++ [r]) else l.history.heard }

/-- A step of `request`. -/
def stepCall (l : AgentLink ρ) (t : ℕ) : LinkStep ρ → Call ρ → Option (AgentLink ρ)
  | .check _, .idle =>
    some (l.setCall t (if l.alive then .checked else .returned none .closed))
  | .fetch _, .checked =>
    some ({ l with nextRequest := l.nextRequest + 1 }.setCall t (.identified l.nextRequest))
  | .enter _, .identified n => some ((l.insert n).setCall t (.registered n))
  | .send _ (.ok ()), .registered n => some (l.setCall t (.waiting n))
  | .send _ (.error status), .registered n => some (l.setCall t (.failed n status))
  | .erase _, .failed n status => some ((l.remove n).setCall t (.erased n status))
  | .mark _, .erased n status =>
    some ({ l with alive := false }.setCall t (.returned (some n) (.unsent status)))
  | .wake _, .waiting n =>
    (l.value n).map fun r => l.setCall t (.returned (some n) (.got r))
  | _, _ => none

/-- A step of `deliver`: an identity that is not in the table is ignored. -/
def stepDelivery (l : AgentLink ρ) (d : ℕ) : LinkStep ρ → Delivery ρ → Option (AgentLink ρ)
  | .deliver _ n r, .idle =>
    let l := l.hear n r
    some (if n ∈ l.pending then
        { l.remove n with deliveries := Function.update l.deliveries d (.holding n r) }
      else { l with deliveries := Function.update l.deliveries d .finished })
  | .setDelivered _, .holding n r =>
    some { l.setValue n r with deliveries := Function.update l.deliveries d .finished }
  | _, _ => none

/-- A step of `fail_all`. -/
def stepFailing (failure : Status → ρ) (l : AgentLink ρ) (f : ℕ) :
    LinkStep ρ → Failing → Option (AgentLink ρ)
  | .failAll _ status, .idle =>
    some { l with alive := false, failings := Function.update l.failings f (.marked status) }
  | .take _, .marked status =>
    some { l with
      pending := []
      failings := Function.update l.failings f (.setting status l.pending)
      history.emptied := true }
  | .setFailed _, .setting status (n :: rest) =>
    some { l.setValue n (failure status) with
      failings := Function.update l.failings f (.setting status rest) }
  | _, _ => none

/-- One step of one of the calls, if the call is there. -/
def step (failure : Status → ρ) (l : AgentLink ρ) (a : LinkStep ρ) : Option (AgentLink ρ) :=
  match a with
  | .check t | .fetch t | .enter t | .send t _ | .erase t | .mark t | .wake t =>
    l.stepCall t a (l.calls t)
  | .deliver d _ _ | .setDelivered d => l.stepDelivery d a (l.deliveries d)
  | .failAll f _ | .take f | .setFailed f => l.stepFailing failure f a (l.failings f)

end AgentLink

end AcceleratorVirtualization
