import Mathlib.Data.List.Induction
import NostrQ.Core.Event
import NostrQ.Foundation.Broadcast
import NostrQ.Foundation.Schedule

/-!
# The dev relay

Any number of connections, each of which handles one client message or one live
event at a time.  A connection creates its receiver before it reads; an accepted
event is stored and then broadcast; a request copies the matching stored events
and registers its subscription only after it has sent them.  Filters, their
matching and the verification of signatures are taken as given.
-/

namespace NostrQ.Transport

open NostrQ.Foundation NostrQ.Core

structure RelaySetup (F : Type) where
  matchEvent : F → Event → Bool
  verify : Event → Bool

inductive ClientMessage (F : Type) where
  | event (event : Event)
  | req (sub : String) (filters : List F)
  | close (sub : String)
  | unsupported

/-- What is read from a socket; a text is a message or does not parse. -/
inductive WsMessage (F : Type) where
  | text (message : Except String (ClientMessage F))
  | ping
  | close
  | ignored

inductive RelayMessage where
  | event (sub : String) (event : Event)
  | ok (id : EventId) (accepted : Bool) (message : String)
  | eose (sub : String)
  | notice (message : String)
  | pong
  deriving DecidableEq

/--
What happened on a connection.  With each message read goes what the relay had
stored by then.
-/
inductive Entry (F : Type) where
  | read (message : WsMessage F) (stored : List Event)
  | wrote (message : RelayMessage)

inductive ConnectionPhase (F : Type) where
  | idle
  | publishing (event : Event)
  | acknowledging (event : Event)
  | replaying (sub : String) (filters : List F) (stored : List Event)
  | relaying (event : Event) (subs : List (String × List F))
  | closed

structure Connection (F : Type) where
  subs : List (String × List F)
  live : Nat
  phase : ConnectionPhase F
  log : List (Entry F)

structure DevRelay (F : Type) where
  events : List Event
  tx : Broadcast Event
  connections : List (Connection F)

inductive DevRelayAction (F : Type) where
  | connect
  | disconnect (i : Nat)
  | receive (i : Nat) (message : WsMessage F)
  | live (i : Nat)
  | relay (i : Nat) (k : Nat)
  | proceed (i : Nat)

variable {F : Type}

namespace RelaySetup

def matchesAny (R : RelaySetup F) (filters : List F) (event : Event) : Bool :=
  filters.any fun filter => R.matchEvent filter event

end RelaySetup

namespace Connection

def wrote (c : Connection F) (message : RelayMessage) : Connection F :=
  { c with log := c.log ++ [.wrote message] }

def insertSub (c : Connection F) (sub : String) (filters : List F) :
    Connection F :=
  { c with subs := (sub, filters) :: c.subs.filter fun entry => entry.1 ≠ sub }

def removeSub (c : Connection F) (sub : String) : Connection F :=
  { c with subs := c.subs.filter fun entry => entry.1 ≠ sub }

end Connection

namespace DevRelay

def new : DevRelay F where
  events := []
  tx := .new
  connections := []

def place (r : DevRelay F) (i : Nat) (c : Connection F) : DevRelay F :=
  { r with connections := r.connections.set i c }

def connect (r : DevRelay F) : DevRelay F :=
  { r with
    connections := r.connections ++
      [{ subs := [], live := r.tx.subscribe, phase := .idle, log := [] }] }

/-- An event that does not verify is refused; it is not stored. -/
def handleClientText (R : RelaySetup F) (r : DevRelay F) (i : Nat)
    (c : Connection F) : ClientMessage F → DevRelay F
  | .event event =>
      if R.verify event then
        { r with events := r.events ++ [event] }.place i
          { c with phase := .publishing event }
      else
        r.place i (c.wrote
          (.ok event.id false "invalid: signature verification failed"))
  | .req sub filters =>
      r.place i { c with
        phase := .replaying sub filters
          (r.events.filter (R.matchesAny filters)) }
  | .close sub => r.place i (c.removeSub sub)
  | .unsupported => r.place i c

def receive (R : RelaySetup F) (r : DevRelay F) (i : Nat) (c : Connection F)
    (message : WsMessage F) : DevRelay F :=
  let c := { c with log := c.log ++ [.read message r.events] }
  match message with
  | .text (.error e) => r.place i (c.wrote (.notice ("invalid message: " ++ e)))
  | .text (.ok message) => r.handleClientText R i c message
  | .ping => r.place i (c.wrote .pong)
  | .close => r.place i { c with phase := .closed }
  | .ignored => r.place i c

def proceed (r : DevRelay F) (i : Nat) (c : Connection F) :
    Option (DevRelay F) :=
  match c.phase with
  | .publishing event =>
      some ({ r with tx := r.tx.send event }.place i
        { c with phase := .acknowledging event })
  | .acknowledging event =>
      some (r.place i { c.wrote (.ok event.id true "") with phase := .idle })
  | .replaying sub filters (event :: stored) =>
      some (r.place i { c.wrote (.event sub event) with
        phase := .replaying sub filters stored })
  | .replaying sub filters [] =>
      some (r.place i { (c.wrote (.eose sub)).insertSub sub filters with
        phase := .idle })
  | .relaying _ [] => some (r.place i { c with phase := .idle })
  | _ => none

/-- The next live event goes to each subscription in turn, in any order. -/
def live (r : DevRelay F) (i : Nat) (c : Connection F) : Option (DevRelay F) :=
  match c.phase with
  | .idle =>
      (r.tx.recv c.live).map fun (event, live) =>
        r.place i { c with live := live, phase := .relaying event c.subs }
  | _ => none

def relay (R : RelaySetup F) (r : DevRelay F) (i k : Nat) (c : Connection F) :
    Option (DevRelay F) :=
  match c.phase with
  | .relaying event subs =>
      subs[k]?.map fun (sub, filters) =>
        let c := { c with phase := .relaying event (subs.eraseIdx k) }
        r.place i
          (if R.matchesAny filters event then c.wrote (.event sub event) else c)
  | _ => none

/-- A connection reads, or ends, only between the messages it handles. -/
def step (R : RelaySetup F) (r : DevRelay F) :
    DevRelayAction F → Option (DevRelay F)
  | .connect => some r.connect
  | .disconnect i =>
      r.connections[i]?.bind fun c =>
        match c.phase with
        | .idle => some (r.place i { c with phase := .closed })
        | _ => none
  | .receive i message =>
      r.connections[i]?.bind fun c =>
        match c.phase with
        | .idle => some (r.receive R i c message)
        | _ => none
  | .live i => r.connections[i]?.bind fun c => r.live i c
  | .relay i k => r.connections[i]?.bind fun c => r.relay R i k c
  | .proceed i => r.connections[i]?.bind fun c => r.proceed i c

def system (R : RelaySetup F) : System (DevRelay F) (DevRelayAction F) where
  init r := r = new
  step := step R

end DevRelay

/-! ## What a log says -/

structure Request (F : Type) where
  filters : List F
  stored : List Event
  since : List (Entry F)

namespace Request

def log (request : Request F) (entry : Entry F) : Request F :=
  { request with since := request.since ++ [entry] }

def answer (R : RelaySetup F) (request : Request F) : List Event :=
  request.stored.filter (R.matchesAny request.filters)

end Request

namespace Entry

def track (sub : String) (open? : Option (Request F)) (entry : Entry F) :
    Option (Request F) :=
  match entry with
  | .read (.text (.ok (.req name filters))) stored =>
      if name = sub then some ⟨filters, stored, []⟩
      else open?.map fun request => request.log entry
  | .read (.text (.ok (.close name))) _ =>
      if name = sub then none else open?.map fun request => request.log entry
  | _ => open?.map fun request => request.log entry

/--
The last request under an id, unless a close followed it: the request that is
registered, or about to be.
-/
def openRequest (sub : String) (log : List (Entry F)) : Option (Request F) :=
  log.foldl (track sub) none

@[simp] theorem openRequest_concat (sub : String) (log : List (Entry F))
    (entry : Entry F) :
    openRequest sub (log ++ [entry]) = track sub (openRequest sub log) entry := by
  simp [openRequest]

@[simp] theorem track_wrote (sub : String) (open? : Option (Request F))
    (message : RelayMessage) :
    track sub open? (.wrote message) =
      open?.map fun request => request.log (.wrote message) := rfl

end Entry

end NostrQ.Transport
