import NostrQ.Core.Codec
import NostrQ.Foundation.Broadcast
import NostrQ.Sdk.Publish

/-!
# Request and reply

`call` publishes its request, subscribes to the replies, and then looks first at
the answer of one query and after that at its channel.  Responders publish
replies at any moment.  The transport is known only by what it promises: its
query returns every event accepted so far, and its subscription delivers at least
every matching event accepted after it was made.
-/

namespace NostrQ.Sdk

open NostrQ.Foundation NostrQ.Core NostrQ.Database

inductive CallError where
  | publish (error : PublishError)
  | badEventId (text : String)
  | subscribe
  | closed (mid : String)
  | timeout (mid : String)

inductive CallStage where
  | querying
  | examining (rest : List Event)
  | draining
  deriving DecidableEq

/--
A call that waits for its reply.  `channel` is what the subscription has
delivered, of which `received` events are taken; `found` is the answer of the
query, once there is one; `skipped` are the events looked at so far.
-/
structure WaitingCall where
  receipt : PublishReceipt
  request : EventId
  channel : Broadcast Event
  received : Nat
  found : List Event
  skipped : List Event
  stage : CallStage
  deriving DecidableEq

inductive CallPhase (Value : Type) where
  | publishing (phase : PublishPhase (Envelope Value))
  | subscribing (receipt : PublishReceipt) (request : EventId)
  | waiting (call : WaitingCall)
  | returned (result : Except CallError Value)

def CallPhase.waiting? {Value : Type} : CallPhase Value → Option WaitingCall
  | .waiting call => some call
  | _ => none

structure Calling (Value : Type) where
  store : Store
  accepted : List Event
  phase : CallPhase Value

inductive CallAction where
  | publishProceed
  | publishAccepted (id : EventId) (now : Int)
  | publishFailed
  | published
  | subscribed
  | subscribeFailed
  | answer (found : List Event)
  | queryFailed
  | next
  | closed
  | timeout
  | accept (event : Event)
  | deliver (event : Event)

structure RpcRequest (Value : Type) where
  queue : String
  body : Value
  requester : PublicKey
  mid : String
  traceId : String
  now : Int

def RpcRequest.publish {Value : Type} (request : RpcRequest Value) :
    PublishCall (Envelope Value) where
  queue := request.queue
  envelope := .new request.body request.now
  idem := none
  notBefore := none
  expiresAt := none
  replyTo := some request.requester.toHex
  mid := request.mid
  traceId := request.traceId

namespace Calling

variable {Value : Type} (codec : Codec (Envelope Value))

/-- The request is known by the event id of its receipt. -/
def published : PublishPhase (Envelope Value) → Option (CallPhase Value)
  | .returned (.error e) => some (.returned (.error (.publish e)))
  | .returned (.ok receipt) =>
      match Hex32.fromHex receipt.eventId with
      | none => some (.returned (.error (.badEventId receipt.eventId)))
      | some request => some (.subscribing receipt request)
  | _ => none

/-- A reply that parses ends the call; any other is skipped. -/
def look (event : Event) (call : WaitingCall) : CallPhase Value :=
  match parseReplyEvent codec event with
  | .ok info => .returned (.ok info.body)
  | .error _ => .waiting { call with skipped := call.skipped ++ [event] }

/-- What the call does by itself while it waits. -/
def next (call : WaitingCall) : Option (CallPhase Value) :=
  match call.stage with
  | .querying => none
  | .examining (event :: rest) =>
      some (look codec event { call with stage := .examining rest })
  | .examining [] => some (.waiting { call with stage := .draining })
  | .draining =>
      (call.channel.recv call.received).map fun (event, received) =>
        look codec event { call with received := received }

def step (c : Calling Value) : CallAction → Option (Calling Value)
  | .publishProceed =>
      match c.phase with
      | .publishing phase =>
          (phase.proceed codec c.store).map fun (store, phase) =>
            { c with store := store, phase := .publishing phase }
      | _ => none
  | .publishAccepted id now =>
      match c.phase with
      | .publishing phase =>
          (phase.accepted codec id now).map fun phase =>
            { c with phase := .publishing phase }
      | _ => none
  | .publishFailed =>
      match c.phase with
      | .publishing phase =>
          phase.failed.map fun phase => { c with phase := .publishing phase }
      | _ => none
  | .published =>
      match c.phase with
      | .publishing phase =>
          (published phase).map fun phase => { c with phase := phase }
      | _ => none
  | .subscribed =>
      match c.phase with
      | .subscribing receipt request =>
          some { c with
            phase := .waiting {
              receipt := receipt
              request := request
              channel := .new
              received := 0
              found := []
              skipped := []
              stage := .querying } }
      | _ => none
  | .subscribeFailed =>
      match c.phase with
      | .subscribing _ _ =>
          some { c with phase := .returned (.error .subscribe) }
      | _ => none
  | .answer found =>
      match c.phase with
      | .waiting call =>
          if call.stage = .querying then
            some { c with
              phase := .waiting { call with
                found := found
                stage := .examining found } }
          else none
      | _ => none
  | .queryFailed =>
      match c.phase with
      | .waiting call =>
          if call.stage = .querying then
            some { c with phase := .waiting { call with stage := .draining } }
          else none
      | _ => none
  | .next =>
      match c.phase with
      | .waiting call =>
          (next codec call).map fun phase => { c with phase := phase }
      | _ => none
  | .closed =>
      match c.phase with
      | .waiting call =>
          if call.stage = .draining ∧ call.channel.backlog call.received = [] then
            some { c with
              phase := .returned (.error (.closed call.receipt.mid)) }
          else none
      | _ => none
  | .timeout =>
      match c.phase with
      | .waiting call =>
          some { c with phase := .returned (.error (.timeout call.receipt.mid)) }
      | _ => none
  | .accept event =>
      match c.phase with
      | .waiting call =>
          some { c with
            accepted := c.accepted ++ [event]
            phase := .waiting { call with
              channel := if (replyFilter call.request).matchEvent event then
                call.channel.send event else call.channel } }
      | phase => some { c with accepted := c.accepted ++ [event], phase := phase }
  | .deliver event =>
      match c.phase with
      | .waiting call =>
          some { c with
            phase := .waiting { call with channel := call.channel.send event } }
      | _ => none

def Called (c : Calling Value) : Prop :=
  ∃ store accepted, ∃ request : RpcRequest Value, c = {
    store := store
    accepted := accepted
    phase := .publishing (.configuring request.publish) }

def system : System (Calling Value) CallAction where
  init := Called
  step := step codec

/--
What the transport promises: its query succeeds and returns every matching event
accepted so far, and its channel stays open.
-/
def Dependable (c : Calling Value) : CallAction → Prop
  | .answer found => ∀ call ∈ c.phase.waiting?, ∀ event ∈ c.accepted,
      (replyFilter call.request).matchEvent event = true → event ∈ found
  | .queryFailed => False
  | .closed => False
  | _ => True

instance (c : Calling Value) (a : CallAction) : Decidable (Dependable c a) :=
  match a with
  | .answer _ => inferInstanceAs (Decidable (∀ _ ∈ _, ∀ _ ∈ _, _ → _))
  | .queryFailed | .closed => inferInstanceAs (Decidable False)
  | .publishProceed | .publishAccepted _ _ | .publishFailed | .published
  | .subscribed | .subscribeFailed | .next | .timeout | .accept _
  | .deliver _ => inferInstanceAs (Decidable True)

end Calling

def WellFormed {Value : Type} (codec : Codec (Envelope Value)) (event : Event) :
    Prop :=
  ∃ info, parseReplyEvent codec event = .ok info

namespace WaitingCall

def ahead (call : WaitingCall) : List Event :=
  match call.stage with
  | .querying => []
  | .examining rest => rest ++ call.channel.backlog call.received
  | .draining => call.channel.backlog call.received

def Brought (call : WaitingCall) (event : Event) : Prop :=
  event ∈ call.found ∨ event ∈ call.channel.sent

structure Inv {Value : Type} (codec : Codec (Envelope Value))
    (accepted : List Event) (call : WaitingCall) : Prop where
  valid : call.channel.Valid call.received
  skipped : ∀ event ∈ call.skipped, ¬ WellFormed codec event
  fresh : call.stage = .querying → call.received = 0
  covered : call.stage ≠ .querying → ∀ event, call.Brought event →
    event ∈ call.skipped ∨ event ∈ call.ahead
  complete : call.stage ≠ .querying → ∀ event ∈ accepted,
    (replyFilter call.request).matchEvent event = true → call.Brought event

section Steps

variable {Value : Type} {codec : Codec (Envelope Value)}
  {accepted : List Event} {call call' : WaitingCall}

theorem inv_subscribed (receipt : PublishReceipt) (request : EventId) :
    Inv codec accepted ⟨receipt, request, .new, 0, [], [], .querying⟩ where
  valid := Nat.le_refl 0
  skipped := by simp
  fresh := fun _ => rfl
  covered := fun h => absurd rfl h
  complete := fun h => absurd rfl h

theorem Inv.answer (h : call.Inv codec accepted)
    (hstage : call.stage = .querying) {found : List Event}
    (hall : ∀ event ∈ accepted,
      (replyFilter call.request).matchEvent event = true → event ∈ found) :
    Inv codec accepted
      { call with found := found, stage := .examining found } where
  valid := h.valid
  skipped := h.skipped
  fresh := fun hquerying => by cases hquerying
  covered := by
    intro _ event hbrought
    refine Or.inr (List.mem_append.mpr (hbrought.imp_right fun hsent => ?_))
    simpa [Broadcast.backlog, h.fresh hstage] using hsent
  complete := fun _ event hmem hmatch => Or.inl (hall event hmem hmatch)

theorem Inv.deliver (h : call.Inv codec accepted) (event : Event) :
    Inv codec accepted
      { call with channel := call.channel.send event } where
  valid := h.valid.send event
  skipped := h.skipped
  fresh := h.fresh
  covered := by
    intro hstage other hbrought
    have hahead : ahead { call with channel := call.channel.send event } =
        call.ahead ++ [event] := by
      cases hnow : call.stage with
      | querying => exact absurd hnow hstage
      | examining rest => simp [ahead, hnow, h.valid.backlog_send]
      | draining => simp [ahead, hnow, h.valid.backlog_send]
    rw [hahead, List.mem_append, ← or_assoc]
    rcases hbrought with hfound | hsent
    · exact Or.inl (h.covered hstage other (Or.inl hfound))
    · rcases List.mem_append.mp hsent with hsent | hsent
      · exact Or.inl (h.covered hstage other (Or.inr hsent))
      · exact Or.inr hsent
  complete := fun hstage other hmem hmatch =>
    (h.complete hstage other hmem hmatch).imp_right (List.mem_append_left _)

theorem Inv.accept (h : call.Inv codec accepted) {event : Event}
    (hevent : (replyFilter call.request).matchEvent event = true →
      call.Brought event) : Inv codec (accepted ++ [event]) call where
  valid := h.valid
  skipped := h.skipped
  fresh := h.fresh
  covered := h.covered
  complete := by
    intro hstage other hmem hmatch
    rcases List.mem_append.mp hmem with hmem | hmem
    · exact h.complete hstage other hmem hmatch
    · rw [List.mem_singleton.mp hmem] at hmatch ⊢
      exact hevent hmatch

theorem Inv.drain (h : call.Inv codec accepted)
    (hstage : call.stage = .examining []) :
    Inv codec accepted { call with stage := .draining } where
  valid := h.valid
  skipped := h.skipped
  fresh := fun hquerying => by cases hquerying
  covered := by
    intro _ event hbrought
    have := h.covered (by simp [hstage]) event hbrought
    simpa [ahead, hstage] using this
  complete := fun _ => h.complete (by simp [hstage])

theorem Inv.skip (h : call.Inv codec accepted) {event : Event}
    (hstage : call.stage ≠ .querying) (hstage' : call'.stage ≠ .querying)
    (hahead : call.ahead = event :: call'.ahead)
    (hmalformed : ¬ WellFormed codec event)
    (hvalid : call'.channel.Valid call'.received)
    (hskipped : call'.skipped = call.skipped ++ [event])
    (hsame : call'.found = call.found ∧ call'.channel = call.channel ∧
      call'.request = call.request) : call'.Inv codec accepted where
  valid := hvalid
  skipped := by
    intro other hmem
    rw [hskipped] at hmem
    rcases List.mem_append.mp hmem with hmem | hmem
    · exact h.skipped other hmem
    · rw [List.mem_singleton.mp hmem]
      exact hmalformed
  fresh := fun hquerying => absurd hquerying hstage'
  covered := by
    intro _ other hbrought
    simp only [Brought, hsame.1, hsame.2.1] at hbrought
    have := h.covered hstage other hbrought
    rw [hahead, List.mem_cons] at this
    rw [hskipped, List.mem_append, List.mem_singleton]
    tauto
  complete := by
    simp only [Brought, hsame.1, hsame.2.1, hsame.2.2]
    exact fun _ => h.complete hstage

end Steps

end WaitingCall

namespace Calling

section Runs

variable {Value : Type} {codec : Codec (Envelope Value)} {c c' : Calling Value}
  {call call' : WaitingCall}

theorem look_eq_waiting {event : Event}
    (h : look codec event call = .waiting call') :
    ¬ WellFormed codec event ∧
      call' = { call with skipped := call.skipped ++ [event] } := by
  unfold look at h
  split at h
  · cases h
  · next hparse =>
      cases h
      refine ⟨?_, rfl⟩
      rintro ⟨info, hinfo⟩
      rw [hinfo] at hparse
      cases hparse

theorem inv_next (h : call.Inv codec c.accepted)
    (hnext : next codec call = some (.waiting call')) :
    call'.Inv codec c.accepted := by
  unfold next at hnext
  split at hnext
  · contradiction
  · next event rest hstage =>
      obtain ⟨hmalformed, rfl⟩ := look_eq_waiting (Option.some.inj hnext)
      exact h.skip (by simp [hstage]) (by simp)
        (by simp [WaitingCall.ahead, hstage]) hmalformed h.valid rfl
        ⟨rfl, rfl, rfl⟩
  · next hstage =>
      cases hnext
      exact h.drain hstage
  · next hstage =>
      obtain ⟨⟨event, received⟩, hrecv, hlook⟩ :=
        Option.map_eq_some_iff.mp hnext
      obtain ⟨hmalformed, rfl⟩ := look_eq_waiting hlook
      obtain ⟨-, hbacklog⟩ := Broadcast.recv_eq_some hrecv
      exact h.skip (by simp [hstage]) (by simp [hstage])
        (by simp [WaitingCall.ahead, hstage, hbacklog]) hmalformed
        (Broadcast.Valid.recv hrecv) rfl ⟨rfl, rfl, rfl⟩

def Inv (codec : Codec (Envelope Value)) (c : Calling Value) : Prop :=
  ∀ call, c.phase = .waiting call → call.Inv codec c.accepted

theorem inv_of_not_waiting (h : ∀ call, c.phase ≠ .waiting call) :
    c.Inv codec := fun call hphase => absurd hphase (h call)

theorem published_ne_waiting {phase : PublishPhase (Envelope Value)}
    {next : CallPhase Value} (h : published phase = some next) :
    next ≠ .waiting call := by
  unfold published at h
  split at h
  · cases h
    simp
  · split at h <;> cases h <;> simp
  · contradiction

theorem inv_accept (h : c.Inv codec) {event : Event}
    (hstep : step codec c (.accept event) = some c') : c'.Inv codec := by
  simp only [step] at hstep
  split at hstep
  · next call hphase =>
      cases hstep
      rintro _ ⟨⟩
      cases hmatch : (replyFilter call.request).matchEvent event with
      | false =>
          exact (h call hphase).accept (by simp [hmatch])
      | true =>
          exact ((h call hphase).deliver event).accept
            fun _ => Or.inr (by simp)
  · next hphase =>
      cases hstep
      exact inv_of_not_waiting hphase

theorem inv_step {a : CallAction} (h : c.Inv codec) (hp : Dependable c a)
    (hstep : step codec c a = some c') : c'.Inv codec := by
  cases a with
  | publishProceed =>
      simp only [step] at hstep
      split at hstep
      · obtain ⟨_, -, rfl⟩ := Option.map_eq_some_iff.mp hstep
        exact inv_of_not_waiting (by simp)
      · contradiction
  | publishAccepted id now =>
      simp only [step] at hstep
      split at hstep
      · obtain ⟨_, -, rfl⟩ := Option.map_eq_some_iff.mp hstep
        exact inv_of_not_waiting (by simp)
      · contradiction
  | publishFailed =>
      simp only [step] at hstep
      split at hstep
      · obtain ⟨_, -, rfl⟩ := Option.map_eq_some_iff.mp hstep
        exact inv_of_not_waiting (by simp)
      · contradiction
  | published =>
      simp only [step] at hstep
      split at hstep
      · obtain ⟨_, hnext, rfl⟩ := Option.map_eq_some_iff.mp hstep
        exact inv_of_not_waiting fun _ => published_ne_waiting hnext
      · contradiction
  | subscribed =>
      simp only [step] at hstep
      split at hstep
      · cases hstep
        rintro _ ⟨⟩
        exact WaitingCall.inv_subscribed _ _
      · contradiction
  | subscribeFailed =>
      simp only [step] at hstep
      split at hstep
      · cases hstep
        exact inv_of_not_waiting (by simp)
      · contradiction
  | answer found =>
      simp only [step] at hstep
      split at hstep
      · next call hphase =>
          split at hstep
          · next hstage =>
              cases hstep
              rintro _ ⟨⟩
              exact (h call hphase).answer hstage
                (hp call (by simp [CallPhase.waiting?, hphase]))
          · contradiction
      · contradiction
  | queryFailed => exact hp.elim
  | next =>
      simp only [step] at hstep
      split at hstep
      · next call hphase =>
          obtain ⟨phase, hnext, rfl⟩ := Option.map_eq_some_iff.mp hstep
          rintro call' rfl
          exact inv_next (h call hphase) hnext
      · contradiction
  | closed => exact hp.elim
  | timeout =>
      simp only [step] at hstep
      split at hstep
      · cases hstep
        exact inv_of_not_waiting (by simp)
      · contradiction
  | accept event => exact inv_accept h hstep
  | deliver event =>
      simp only [step] at hstep
      split at hstep
      · next call hphase =>
          cases hstep
          rintro _ ⟨⟩
          exact (h call hphase).deliver event
      · contradiction

theorem inv (h : (system codec).Reach Dependable c) : c.Inv codec := by
  refine h.invariant ?_ fun _ _ _ _ hinv hp hstep => inv_step hinv hp hstep
  rintro _ ⟨store, accepted, request, rfl⟩
  exact inv_of_not_waiting (by simp)

/-! ### The call comes to its reply -/

def Takes (codec : Codec (Envelope Value)) (call : WaitingCall)
    (event : Event) : Prop :=
  ∃ steps info, parseReplyEvent codec event = .ok info ∧
    ∀ c : Calling Value, c.phase = .waiting call →
      (system codec).run System.Free c (List.replicate steps .next) =
        some { c with phase := .returned (.ok info.body) }

theorem run_next {phase : CallPhase Value} (hphase : c.phase = .waiting call)
    (hnext : next codec call = some phase) (steps : Nat) :
    (system codec).run System.Free c (List.replicate (steps + 1) .next) =
      (system codec).run System.Free { c with phase := phase }
        (List.replicate steps .next) := by
  rw [List.replicate_succ]
  simp only [System.run, System.Free, if_true, system, step, hphase, hnext,
    Option.map_some, Option.bind_some]

theorem takes_of_next {event : Event}
    (hnext : next codec call = some (.waiting call'))
    (h : Takes codec call' event) : Takes codec call event := by
  obtain ⟨steps, info, hinfo, hrun⟩ := h
  refine ⟨steps + 1, info, hinfo, fun c hphase => ?_⟩
  rw [run_next hphase hnext, hrun _ rfl]

theorem takes_of_look {event : Event} (hwell : WellFormed codec event)
    (hnext : next codec call = some (look codec event call')) :
    Takes codec call event := by
  obtain ⟨info, hinfo⟩ := hwell
  refine ⟨1, info, hinfo, fun c hphase => ?_⟩
  rw [look, hinfo] at hnext
  rw [run_next hphase hnext]
  rfl

theorem look_of_not_wellFormed {event : Event}
    (h : ¬ WellFormed codec event) :
    look codec event call =
      .waiting { call with skipped := call.skipped ++ [event] } := by
  unfold look
  split
  · next info hinfo => exact absurd ⟨info, hinfo⟩ h
  · rfl

theorem rest_wellFormed {first : Event} {rest : List Event}
    (hfirst : ¬ WellFormed codec first)
    (h : ∃ event ∈ first :: rest, WellFormed codec event) :
    ∃ event ∈ rest, WellFormed codec event := by
  obtain ⟨event, hmem, hwell⟩ := h
  rcases List.mem_cons.mp hmem with rfl | hmem
  · exact absurd hwell hfirst
  · exact ⟨event, hmem, hwell⟩

theorem takes_draining (events : List Event) :
    ∀ call : WaitingCall, call.stage = .draining →
      call.channel.backlog call.received = events →
      (∃ event ∈ events, WellFormed codec event) →
      ∃ event ∈ events, Takes codec call event := by
  induction events with
  | nil => simp
  | cons first rest ih =>
      intro call hstage hbacklog h
      cases hrecv : call.channel.recv call.received with
      | none =>
          rw [Broadcast.recv_eq_none.mp hrecv] at hbacklog
          cases hbacklog
      | some taken =>
          obtain ⟨event, received⟩ := taken
          have htaken := (Broadcast.recv_eq_some hrecv).2
          rw [hbacklog, List.cons.injEq] at htaken
          obtain ⟨rfl, hrest⟩ := htaken
          have hnext : next codec call = some
              (look codec first { call with received := received }) := by
            simp [next, hstage, hrecv]
          by_cases hfirst : WellFormed codec first
          · exact ⟨first, by simp, takes_of_look hfirst hnext⟩
          · rw [look_of_not_wellFormed hfirst] at hnext
            obtain ⟨event, hmem, htakes⟩ :=
              ih { call with
                received := received
                skipped := call.skipped ++ [first] } hstage hrest.symm
                (rest_wellFormed hfirst h)
            exact ⟨event, by simp [hmem], takes_of_next hnext htakes⟩

theorem takes_examining (rest : List Event) :
    ∀ call : WaitingCall, call.stage = .examining rest →
      (∃ event ∈ call.ahead, WellFormed codec event) →
      ∃ event ∈ call.ahead, Takes codec call event := by
  induction rest with
  | nil =>
      intro call hstage h
      have hahead : call.ahead = call.channel.backlog call.received := by
        simp [WaitingCall.ahead, hstage]
      have hnext : next codec call =
          some (.waiting { call with stage := .draining }) := by
        simp [next, hstage]
      rw [hahead] at h ⊢
      obtain ⟨event, hmem, htakes⟩ :=
        takes_draining _ { call with stage := .draining } rfl rfl h
      exact ⟨event, hmem, takes_of_next hnext htakes⟩
  | cons first rest ih =>
      intro call hstage h
      have hahead : call.ahead = first ::
          (rest ++ call.channel.backlog call.received) := by
        simp [WaitingCall.ahead, hstage]
      have hnext : next codec call = some
          (look codec first { call with stage := .examining rest }) := by
        simp [next, hstage]
      rw [hahead] at h ⊢
      by_cases hfirst : WellFormed codec first
      · exact ⟨first, by simp, takes_of_look hfirst hnext⟩
      · rw [look_of_not_wellFormed hfirst] at hnext
        obtain ⟨event, hmem, htakes⟩ :=
          ih { call with
            stage := .examining rest
            skipped := call.skipped ++ [first] } rfl (rest_wellFormed hfirst h)
        exact ⟨event, List.mem_cons_of_mem _ hmem, takes_of_next hnext htakes⟩

theorem takes_ahead (hstage : call.stage ≠ .querying)
    (h : ∃ event ∈ call.ahead, WellFormed codec event) :
    ∃ event ∈ call.ahead, Takes codec call event := by
  cases hnow : call.stage with
  | querying => exact absurd hnow hstage
  | examining rest => exact takes_examining rest call hnow h
  | draining =>
      have hahead : call.ahead = call.channel.backlog call.received := by
        simp [WaitingCall.ahead, hnow]
      rw [hahead] at h ⊢
      exact takes_draining _ call hnow rfl h

/--
Once the query has answered, every accepted reply that matches is in the answer
or in the channel, and a well-formed one is still ahead of the call; what the
call has skipped was malformed; and when a well-formed reply has been accepted,
the call by itself comes to one and returns its body.
-/
theorem reply_never_missed (h : (system codec).Reach Dependable c)
    (hphase : c.phase = .waiting call) (hstage : call.stage ≠ .querying) :
    (∀ event ∈ c.accepted,
      (replyFilter call.request).matchEvent event = true →
      (event ∈ call.found ∨ event ∈ call.channel.sent) ∧
        (WellFormed codec event → event ∈ call.ahead)) ∧
    (∀ event ∈ call.skipped, ¬ WellFormed codec event) ∧
    ((∃ event ∈ c.accepted,
        (replyFilter call.request).matchEvent event = true ∧
          WellFormed codec event) →
      ∃ event ∈ call.ahead, Takes codec call event) := by
  have hcall := inv h call hphase
  have havailable : ∀ event ∈ c.accepted,
      (replyFilter call.request).matchEvent event = true →
      WellFormed codec event → event ∈ call.ahead := by
    intro event hmem hmatch hwell
    have hbrought := hcall.complete hstage event hmem hmatch
    exact (hcall.covered hstage event hbrought).resolve_left
      fun hskipped => hcall.skipped event hskipped hwell
  refine ⟨fun event hmem hmatch =>
    ⟨hcall.complete hstage event hmem hmatch, havailable event hmem hmatch⟩,
    hcall.skipped, ?_⟩
  rintro ⟨event, hmem, hmatch, hwell⟩
  exact takes_ahead hstage ⟨event, havailable event hmem hmatch hwell, hwell⟩

/-! ### A run with a malformed and a well-formed reply -/

def bodyCodec : Codec (Envelope String) where
  hashtag := id
  toJson envelope := .ok envelope.body
  fromJson text :=
    if text = "" then .error "EOF while parsing a value" else .ok (.new text 0)

def sampleRequest : RpcRequest String where
  queue := "jobs"
  body := "ping"
  requester := hexOf 'a'
  mid := "m"
  traceId := "trace"
  now := 0

def sampleReply (content : String) : Event where
  id := hexOf 'b'
  pubkey := hexOf 'c'
  createdAt := 0
  kind := KIND_REPLY
  tags := [["e", (hexOf 'e').toHex], ["p", (hexOf 'a').toHex], ["parent", "m"]]
  content := content

def sampleCalling : Calling String where
  store := { Store.empty with queues := [.workQueue "jobs"] }
  accepted := []
  phase := .publishing (.configuring sampleRequest.publish)

/--
A malformed reply comes before the subscription, a well-formed one between the
subscription and the query.
-/
def replyRun : List CallAction :=
  [.publishProceed, .publishProceed, .publishAccepted (hexOf 'e') 0,
    .publishProceed, .published, .accept (sampleReply ""), .subscribed,
    .accept (sampleReply "pong"),
    .answer [sampleReply "", sampleReply "pong"], .next]

theorem reply_never_missed_pong :
    ∃ c : Calling String, ∃ call,
      (system bodyCodec).Reach Dependable c ∧ c.phase = .waiting call ∧
      sampleReply "" ∈ call.skipped ∧
      ∃ event ∈ call.ahead, Takes bodyCodec call event := by
  obtain ⟨c, hreach, htest⟩ :=
    (System.Reach.init (S := system bodyCodec) (P := Dependable)
      (s := sampleCalling) ⟨_, _, sampleRequest, rfl⟩).of_run_check replyRun
      (fun c => match c.phase with
        | .waiting call => decide (call.stage ≠ .querying ∧
            sampleReply "pong" ∈ c.accepted ∧
            (replyFilter call.request).matchEvent (sampleReply "pong") = true ∧
            sampleReply "" ∈ call.skipped)
        | _ => false) (by decide)
  split at htest
  · next call hphase =>
      obtain ⟨hstage, hmem, hmatch, hskipped⟩ := of_decide_eq_true htest
      exact ⟨c, call, hreach, hphase, hskipped,
        (reply_never_missed hreach hphase hstage).2.2
          ⟨sampleReply "pong", hmem, hmatch, _, rfl⟩⟩
  · contradiction

end Runs

end Calling

end NostrQ.Sdk
