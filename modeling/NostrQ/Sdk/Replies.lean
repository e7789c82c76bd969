import NostrQ.Sdk.Call

/-!
# The reply a call returns

The filter of a call matches any of an event's `e` tags, and the parser of
replies reads the first one.  The call returns the first reply that parses,
whatever request the parser attributes it to.
-/

namespace NostrQ.Sdk

open NostrQ.Foundation NostrQ.Core

section Attribution

variable {Value : Type} (codec : Codec (Envelope Value)) (request : EventId)
  (mid : String)

def AttributedTo (event : Event) : Prop :=
  ∃ info, parseReplyEvent codec event = .ok info ∧
    info.requestEventId = request ∧ info.requestMid = mid

/-- No reply to another request comes before the first one to this request. -/
def Unmixed (events : List Event) : Prop :=
  ∀ before event after, events = before ++ event :: after →
    (∀ earlier ∈ before, ¬ AttributedTo codec request mid earlier) →
    WellFormed codec event → AttributedTo codec request mid event

variable {codec request mid} {events : List Event} {event : Event}

theorem AttributedTo.wellFormed (h : AttributedTo codec request mid event) :
    WellFormed codec event := by
  obtain ⟨info, hinfo, -⟩ := h
  exact ⟨info, hinfo⟩

/-- Equivalently, the first reply of all is one to this request. -/
theorem unmixed_iff : Unmixed codec request mid events ↔
    ∀ before event after, events = before ++ event :: after →
      (∀ earlier ∈ before, ¬ WellFormed codec earlier) →
      WellFormed codec event → AttributedTo codec request mid event := by
  constructor
  · intro h before event after hevents hbefore
    exact h before event after hevents fun earlier hmem hattributed =>
      hbefore earlier hmem hattributed.wellFormed
  · intro h before event after hevents hbefore hwell
    refine h before event after hevents ?_ hwell
    -- the first reply before it would be one to this request
    classical
    by_contra hnone
    obtain ⟨first, hfirst⟩ : ∃ first,
        before.find? (fun e => decide (WellFormed codec e)) = some first := by
      simpa [← Option.isSome_iff_exists, List.find?_isSome] using hnone
    obtain ⟨hwellFirst, start, rest, rfl, hstart⟩ :=
      List.find?_eq_some_iff_append.mp hfirst
    refine hbefore first (by simp) (h start first (rest ++ event :: after)
      (by simpa using hevents) ?_ (of_decide_eq_true hwellFirst))
    intro earlier hmem
    simpa using hstart earlier hmem

end Attribution

namespace WaitingCall

def upcoming (call : WaitingCall) : Option Event :=
  match call.stage with
  | .querying => none
  | .examining rest => rest.head?
  | .draining => (call.channel.backlog call.received).head?

structure Takes (call : WaitingCall) (event : Event) (call' : WaitingCall) :
    Prop where
  before : call.stage ≠ .querying
  stage : call'.stage ≠ .querying
  ahead : call.ahead = event :: call'.ahead
  valid : call.channel.Valid call.received →
    call'.channel.Valid call'.received
  receipt : call'.receipt = call.receipt
  request : call'.request = call.request
  channel : call'.channel = call.channel
  skipped : call'.skipped = call.skipped

/--
The answer of the query comes first and then the channel, in their order; what
has been looked at was malformed.
-/
structure Follows {Value : Type} (codec : Codec (Envelope Value))
    (receipt : PublishReceipt) (request : EventId) (stored live : List Event)
    (call : WaitingCall) : Prop where
  receipt : call.receipt = receipt
  request : call.request = request
  valid : call.channel.Valid call.received
  sent : call.channel.sent <+: live
  skipped : ∀ event ∈ call.skipped, ¬ WellFormed codec event
  fresh : call.stage = .querying → call.skipped = [] ∧ call.received = 0
  order : call.stage ≠ .querying →
    call.skipped ++ call.ahead = stored ++ call.channel.sent

section Steps

variable {Value : Type} {codec : Codec (Envelope Value)}
  {receipt : PublishReceipt} {request : EventId} {stored live : List Event}
  {call call' : WaitingCall} {event : Event}

theorem takes_upcoming (codec : Codec (Envelope Value))
    (h : call.upcoming = some event) :
    ∃ call', call.Takes event call' ∧
      Calling.next codec call = some (Calling.look codec event call') := by
  unfold upcoming at h
  split at h
  · contradiction
  · next rest hstage =>
      cases rest with
      | nil => contradiction
      | cons first rest =>
          cases h
          exact ⟨{ call with stage := .examining rest },
            ⟨by simp [hstage], by simp, by simp [WaitingCall.ahead, hstage],
              id, rfl, rfl, rfl, rfl⟩, by simp [Calling.next, hstage]⟩
  · next hstage =>
      cases hrecv : call.channel.recv call.received with
      | none =>
          rw [Broadcast.recv_eq_none.mp hrecv] at h
          contradiction
      | some taken =>
          obtain ⟨first, received⟩ := taken
          have hbacklog := (Broadcast.recv_eq_some hrecv).2
          rw [hbacklog] at h
          cases h
          exact ⟨{ call with received := received },
            ⟨by simp [hstage], by simp [hstage],
              by simp [WaitingCall.ahead, hstage, hbacklog],
              fun _ => Broadcast.Valid.recv hrecv, rfl, rfl, rfl, rfl⟩,
            by simp [Calling.next, hstage, hrecv]⟩

theorem next_cases {phase : CallPhase Value}
    (h : Calling.next codec call = some phase) :
    (call.stage = .examining [] ∧
      phase = .waiting { call with stage := .draining }) ∨
    ∃ event call', call.upcoming = some event ∧ call.Takes event call' ∧
      phase = Calling.look codec event call' := by
  cases hupcoming : call.upcoming with
  | some event =>
      obtain ⟨call', htakes, hnext⟩ := takes_upcoming codec hupcoming
      rw [h] at hnext
      exact Or.inr ⟨event, call', rfl, htakes, Option.some.inj hnext⟩
  | none =>
      left
      cases hstage : call.stage with
      | querying => simp [Calling.next, hstage] at h
      | examining rest =>
          cases rest with
          | nil =>
              simp only [Calling.next, hstage, Option.some.injEq] at h
              exact ⟨rfl, h.symm⟩
          | cons first rest => simp [upcoming, hstage] at hupcoming
      | draining =>
          have hempty : call.channel.backlog call.received = [] := by
            simpa [upcoming, hstage] using hupcoming
          simp [Calling.next, hstage, Broadcast.recv_eq_none.mpr hempty] at h

theorem Follows.subscribed (receipt : PublishReceipt) (request : EventId) :
    Follows codec receipt request stored live
      ⟨receipt, request, .new, 0, [], [], .querying⟩ where
  receipt := rfl
  request := rfl
  valid := Nat.le_refl 0
  sent := List.nil_prefix
  skipped := by simp
  fresh := fun _ => ⟨rfl, rfl⟩
  order := fun h => absurd rfl h

theorem Follows.answer (h : call.Follows codec receipt request stored live)
    (hstage : call.stage = .querying) :
    Follows codec receipt request stored live
      { call with found := stored, stage := .examining stored } :=
  { h with
    fresh := fun hquerying => by cases hquerying
    order := by
      intro _
      obtain ⟨hskipped, hreceived⟩ := h.fresh hstage
      simp [WaitingCall.ahead, Broadcast.backlog, hskipped, hreceived] }

theorem Follows.queryFailed (h : call.Follows codec receipt request [] live)
    (hstage : call.stage = .querying) :
    Follows codec receipt request [] live { call with stage := .draining } :=
  { h with
    fresh := fun hquerying => by cases hquerying
    order := by
      intro _
      obtain ⟨hskipped, hreceived⟩ := h.fresh hstage
      simp [WaitingCall.ahead, Broadcast.backlog, hskipped, hreceived] }

theorem Follows.deliver (h : call.Follows codec receipt request stored live)
    (hlive : call.channel.sent ++ [event] <+: live) :
    Follows codec receipt request stored live
      { call with channel := call.channel.send event } :=
  { h with
    valid := h.valid.send event
    sent := hlive
    order := by
      intro hstage
      have hahead : ahead { call with channel := call.channel.send event } =
          call.ahead ++ [event] := by
        cases hnow : call.stage with
        | querying => exact absurd hnow hstage
        | examining rest =>
            simp [WaitingCall.ahead, hnow, h.valid.backlog_send]
        | draining => simp [WaitingCall.ahead, hnow, h.valid.backlog_send]
      rw [hahead, ← List.append_assoc, h.order hstage, List.append_assoc]
      rfl }

theorem Follows.drain (h : call.Follows codec receipt request stored live)
    (hstage : call.stage = .examining []) :
    Follows codec receipt request stored live
      { call with stage := .draining } :=
  { h with
    fresh := fun hquerying => by cases hquerying
    order := by
      intro _
      have horder := h.order (by simp [hstage])
      simpa [WaitingCall.ahead, hstage] using horder }

theorem Follows.skip (h : call.Follows codec receipt request stored live)
    (htakes : call.Takes event call') (hmalformed : ¬ WellFormed codec event) :
    Follows codec receipt request stored live
      { call' with skipped := call'.skipped ++ [event] } where
  receipt := htakes.receipt.trans h.receipt
  request := htakes.request.trans h.request
  valid := htakes.valid h.valid
  sent := htakes.channel ▸ h.sent
  skipped := by
    intro other hmem
    rw [htakes.skipped] at hmem
    rcases List.mem_append.mp hmem with hmem | hmem
    · exact h.skipped other hmem
    · rw [List.mem_singleton.mp hmem]
      exact hmalformed
  fresh := fun hquerying => absurd hquerying htakes.stage
  order := by
    intro _
    have horder := h.order htakes.before
    rw [htakes.ahead] at horder
    change call'.skipped ++ [event] ++ call'.ahead =
      stored ++ call'.channel.sent
    rw [htakes.skipped, htakes.channel, List.append_assoc]
    exact horder

end Steps

end WaitingCall

namespace Calling

variable {Value : Type} (codec : Codec (Envelope Value))
  (receipt : PublishReceipt) (request : EventId) (stored live : List Event)

/--
The query answers with these events, and the subscription brings those, in their
order; a query that fails has brought none.
-/
def Brings (c : Calling Value) : CallAction → Prop
  | .answer found => found = stored
  | .queryFailed => stored = []
  | .accept event => ∀ call ∈ c.phase.waiting?,
      (replyFilter call.request).matchEvent event = true →
      call.channel.sent ++ [event] <+: live
  | .deliver event => ∀ call ∈ c.phase.waiting?,
      call.channel.sent ++ [event] <+: live
  | _ => True

def replying : System (Calling Value) CallAction :=
  (system codec).startingIn fun c => c.phase = .subscribing receipt request

def Correlated : Prop :=
  ∀ c c' : Calling Value, ∀ action call body,
    (replying codec receipt request).Reach (Brings stored live) c →
    Brings stored live c action → c.phase = .waiting call →
    step codec c action = some c' → c'.phase = .returned (.ok body) →
    ∃ event ∈ stored ++ live, call.upcoming = some event ∧
      ∃ info, parseReplyEvent codec event = .ok info ∧ info.body = body ∧
        info.requestEventId = request ∧ info.requestMid = receipt.mid

variable {codec receipt request stored live} {c c' : Calling Value}
  {call call' : WaitingCall} {event : Event}

def Follows (codec : Codec (Envelope Value)) (receipt : PublishReceipt)
    (request : EventId) (stored live : List Event) :
    CallPhase Value → Prop
  | .publishing _ => False
  | .subscribing found id => found = receipt ∧ id = request
  | .waiting call => call.Follows codec receipt request stored live
  | .returned _ => True

theorem follows_look (h : call.Follows codec receipt request stored live)
    (htakes : call.Takes event call') :
    Follows codec receipt request stored live (look codec event call') := by
  cases hphase : look codec event call' with
  | publishing phase =>
      unfold look at hphase
      split at hphase <;> contradiction
  | subscribing found id =>
      unfold look at hphase
      split at hphase <;> contradiction
  | waiting call'' =>
      obtain ⟨hmalformed, rfl⟩ := look_eq_waiting hphase
      exact h.skip htakes hmalformed
  | returned result => trivial

theorem follows_step {action : CallAction}
    (h : Follows codec receipt request stored live c.phase)
    (hbrings : Brings stored live c action)
    (hstep : step codec c action = some c') :
    Follows codec receipt request stored live c'.phase := by
  obtain ⟨store, accepted, phase⟩ := c
  cases phase with
  | publishing phase => exact h.elim
  | subscribing found id =>
      cases action <;> simp only [step, Option.some.injEq, reduceCtorEq] at hstep
      case subscribed =>
        cases hstep
        obtain ⟨rfl, rfl⟩ := h
        exact .subscribed _ _
      case subscribeFailed =>
        cases hstep
        trivial
      case accept =>
        cases hstep
        exact h
  | returned result =>
      cases action <;> simp only [step, Option.some.injEq, reduceCtorEq] at hstep
      cases hstep
      trivial
  | waiting call =>
      replace h : call.Follows codec receipt request stored live := h
      cases action <;> simp only [step, Option.some.injEq, reduceCtorEq] at hstep
      case answer found =>
        split at hstep
        · next hstage =>
            cases hstep
            cases hbrings
            exact h.answer hstage
        · contradiction
      case queryFailed =>
        split at hstep
        · next hstage =>
            cases hstep
            cases hbrings
            exact h.queryFailed hstage
        · contradiction
      case next =>
        obtain ⟨phase, hnext, rfl⟩ := Option.map_eq_some_iff.mp hstep
        rcases WaitingCall.next_cases hnext with
          ⟨hstage, rfl⟩ | ⟨event, call', -, htakes, rfl⟩
        · exact h.drain hstage
        · exact follows_look h htakes
      case closed =>
        split at hstep
        · cases hstep
          trivial
        · contradiction
      case timeout =>
        cases hstep
        trivial
      case accept event =>
        cases hstep
        cases hmatch : (replyFilter call.request).matchEvent event with
        | false =>
            simp only [Bool.false_eq_true, if_false]
            exact h
        | true =>
            simp only [if_true]
            exact h.deliver (hbrings call rfl hmatch)
      case deliver event =>
        cases hstep
        exact h.deliver (hbrings call rfl)

theorem follows
    (h : (replying codec receipt request).Reach (Brings stored live) c) :
    Follows codec receipt request stored live c.phase := by
  refine h.invariant ?_ fun _ _ _ _ hfollows hbrings hstep =>
    follows_step hfollows hbrings hstep
  rintro c hphase
  rw [hphase]
  exact ⟨rfl, rfl⟩

/-! ### Coming to the first reply -/

def Facing (codec : Codec (Envelope Value)) (receipt : PublishReceipt)
    (request : EventId) (stored live events : List Event) : Prop :=
  ∃ c call, (replying codec receipt request).Reach (Brings stored live) c ∧
    c.phase = .waiting call ∧ call.stage ≠ .querying ∧ call.ahead = events

theorem reach_next {phase : CallPhase Value}
    (h : (replying codec receipt request).Reach (Brings stored live) c)
    (hphase : c.phase = .waiting call) (hnext : next codec call = some phase) :
    (replying codec receipt request).Reach (Brings stored live)
      { c with phase := phase } := by
  refine h.step (a := .next) trivial ?_
  simp only [replying, System.startingIn, system, step, hphase, hnext,
    Option.map_some]

theorem reach_delivered (rest : List Event) :
    ∀ c call, (replying codec receipt request).Reach (Brings stored live) c →
      c.phase = .waiting call → call.stage = .querying → call.received = 0 →
      call.channel.sent ++ rest = live →
      ∃ c' call', (replying codec receipt request).Reach (Brings stored live) c' ∧
        c'.phase = .waiting call' ∧ call'.stage = .querying ∧
        call'.received = 0 ∧ call'.channel.sent = live := by
  induction rest with
  | nil =>
      intro c call h hphase hstage hreceived hsent
      exact ⟨c, call, h, hphase, hstage, hreceived, by simpa using hsent⟩
  | cons event rest ih =>
      intro c call h hphase hstage hreceived hsent
      have hbrings : Brings stored live c (.deliver event) := by
        intro other hother
        rw [hphase] at hother
        cases hother
        exact ⟨rest, by simpa using hsent⟩
      have hdelivered := h.step (a := CallAction.deliver event) hbrings
        (by simp only [replying, System.startingIn, system, step, hphase]; rfl)
      exact ih _ { call with channel := call.channel.send event } hdelivered rfl
        hstage hreceived (by simpa using hsent)

theorem facing_all : Facing codec receipt request stored live
    (stored ++ live) := by
  have hinit : (replying codec receipt request).Reach (Brings stored live)
      (⟨.empty, [], .subscribing receipt request⟩ : Calling Value) := .init rfl
  have hsubscribed := hinit.step (a := CallAction.subscribed) trivial rfl
  obtain ⟨c, call, hreach, hphase, hstage, hreceived, hsent⟩ :=
    reach_delivered live _ _ hsubscribed rfl rfl rfl rfl
  have hanswered := hreach.step (a := CallAction.answer stored) rfl
    (by simp only [replying, System.startingIn, system, step, hphase, hstage,
      if_true]; rfl)
  exact ⟨_, _, hanswered, rfl, by simp,
    by simp [WaitingCall.ahead, Broadcast.backlog, hreceived, hsent]⟩

theorem Facing.upcoming {rest : List Event}
    (h : Facing codec receipt request stored live (event :: rest)) :
    ∃ c call, (replying codec receipt request).Reach (Brings stored live) c ∧
      c.phase = .waiting call ∧ call.ahead = event :: rest ∧
      call.upcoming = some event := by
  obtain ⟨c, call, hreach, hphase, hstage, hahead⟩ := h
  cases hnow : call.stage with
  | querying => exact absurd hnow hstage
  | draining =>
      refine ⟨c, call, hreach, hphase, hahead, ?_⟩
      simp only [WaitingCall.ahead, hnow] at hahead
      simp [WaitingCall.upcoming, hnow, hahead]
  | examining found =>
      cases found with
      | cons first found =>
          refine ⟨c, call, hreach, hphase, hahead, ?_⟩
          simp only [WaitingCall.ahead, hnow, List.cons_append,
            List.cons.injEq] at hahead
          simp [WaitingCall.upcoming, hnow, hahead.1]
      | nil =>
          simp only [WaitingCall.ahead, hnow, List.nil_append] at hahead
          have hnext : next codec call =
              some (.waiting { call with stage := .draining }) := by
            simp only [next, hnow]
          refine ⟨_, _, reach_next hreach hphase hnext, rfl, hahead, ?_⟩
          simp [WaitingCall.upcoming, hahead]

theorem Facing.skip {rest : List Event}
    (h : Facing codec receipt request stored live (event :: rest))
    (hmalformed : ¬ WellFormed codec event) :
    Facing codec receipt request stored live rest := by
  obtain ⟨c, call, hreach, hphase, hahead, hupcoming⟩ := h.upcoming
  obtain ⟨call', htakes, hnext⟩ := WaitingCall.takes_upcoming codec hupcoming
  rw [look_of_not_wellFormed hmalformed] at hnext
  rw [htakes.ahead, List.cons.injEq] at hahead
  exact ⟨_, _, reach_next hreach hphase hnext, rfl, htakes.stage, hahead.2⟩

theorem Facing.drop {rest : List Event} (before : List Event)
    (h : Facing codec receipt request stored live (before ++ rest))
    (hmalformed : ∀ event ∈ before, ¬ WellFormed codec event) :
    Facing codec receipt request stored live rest := by
  induction before with
  | nil => exact h
  | cons first before ih =>
      exact ih (h.skip (hmalformed first (by simp)))
        fun event hmem => hmalformed event (List.mem_cons_of_mem _ hmem)

theorem unmixed_of_correlated
    (h : Correlated codec receipt request stored live) :
    Unmixed codec request receipt.mid (stored ++ live) := by
  refine unmixed_iff.mpr fun before event after hevents hbefore hwell => ?_
  have hall : Facing codec receipt request stored live (stored ++ live) :=
    facing_all
  rw [hevents] at hall
  obtain ⟨c, call, hreach, hphase, -, hupcoming⟩ :=
    (hall.drop before hbefore).upcoming
  obtain ⟨call', -, hnext⟩ := WaitingCall.takes_upcoming codec hupcoming
  obtain ⟨info, hinfo⟩ := hwell
  have hlook : look codec event call' = .returned (.ok info.body) := by
    rw [look, hinfo]
  have hstep : step codec c .next =
      some { c with phase := .returned (.ok info.body) } := by
    simp only [step, hphase, hnext, hlook, Option.map_some]
  obtain ⟨other, -, hother, info', hinfo', -, hids⟩ :=
    h c _ .next call _ hreach trivial hphase hstep rfl
  rw [hupcoming] at hother
  cases hother
  exact ⟨info', hinfo', hids⟩

/-! ### What a call returns -/

theorem returned_ok {action : CallAction} {body : Value}
    (hphase : c.phase = .waiting call) (hstep : step codec c action = some c')
    (hreturned : c'.phase = .returned (.ok body)) :
    ∃ event call', call.upcoming = some event ∧ call.Takes event call' ∧
      ∃ info, parseReplyEvent codec event = .ok info ∧ info.body = body := by
  cases action <;> simp only [step, hphase, Option.some.injEq, reduceCtorEq]
    at hstep
  case next =>
    obtain ⟨phase, hnext, rfl⟩ := Option.map_eq_some_iff.mp hstep
    rcases WaitingCall.next_cases hnext with
      ⟨-, rfl⟩ | ⟨event, call', hupcoming, htakes, rfl⟩
    · contradiction
    · refine ⟨event, call', hupcoming, htakes, ?_⟩
      simp only [look] at hreturned
      split at hreturned
      · next info hinfo =>
          cases hreturned
          exact ⟨info, hinfo, rfl⟩
      · contradiction
  case answer | queryFailed | closed =>
    split at hstep
    · cases hstep
      cases hreturned
    · contradiction
  all_goals
    cases hstep
    cases hreturned

/--
Every body that a call returns is that of a reply to its own request exactly
when, of all that the query and then the subscription bring, no reply to another
request comes before the first one to this.
-/
theorem replies_correlated_iff {Value : Type} (codec : Codec (Envelope Value))
    (receipt : PublishReceipt) (request : EventId) (stored live : List Event) :
    Correlated codec receipt request stored live ↔
      Unmixed codec request receipt.mid (stored ++ live) := by
  refine ⟨unmixed_of_correlated, fun h => ?_⟩
  intro c c' action call body hreach _ hphase hstep hreturned
  obtain ⟨event, call', hupcoming, htakes, info, hinfo, hbody⟩ :=
    returned_ok hphase hstep hreturned
  have hcall : call.Follows codec receipt request stored live := by
    have hfollows := follows hreach
    rwa [hphase] at hfollows
  obtain ⟨later, hlater⟩ := hcall.sent
  have hsequence : stored ++ live =
      call.skipped ++ event :: (call'.ahead ++ later) := by
    have horder := hcall.order htakes.before
    rw [htakes.ahead] at horder
    rw [← hlater, ← List.append_assoc, ← horder, List.append_assoc,
      List.cons_append]
  obtain ⟨info', hinfo', hids⟩ := unmixed_iff.mp h _ _ _ hsequence
    hcall.skipped ⟨info, hinfo⟩
  rw [hinfo] at hinfo'
  cases hinfo'
  exact ⟨event, by simp [hsequence], hupcoming, info, hinfo, hbody, hids⟩

def strayReply : Event :=
  { sampleReply "stray" with
    tags := [["e", (hexOf 'd').toHex], ["e", (hexOf 'e').toHex],
      ["p", (hexOf 'a').toHex], ["parent", "other"]] }

/-- It matches the filter of the call, which returns its body. -/
theorem stray_reply_returned :
    (replyFilter (hexOf 'e')).matchEvent strayReply = true ∧
      (replyFilter (hexOf 'e')).matchEvent (sampleReply "pong") = true ∧
      ¬ Correlated bodyCodec ⟨"m", "trace", (hexOf 'e').toHex⟩
        (hexOf 'e') [strayReply, sampleReply "pong"] [] := by
  refine ⟨by decide, by decide, fun h => ?_⟩
  obtain ⟨info, hinfo, hid, -⟩ := unmixed_of_correlated h [] strayReply
    [sampleReply "pong"] rfl (by simp) ⟨_, rfl⟩
  have hother : info.requestEventId = hexOf 'd' := by
    cases hinfo
    rfl
  rw [hother] at hid
  exact absurd hid (by decide)

end Calling

end NostrQ.Sdk
