import NostrQ.Sdk.Replies
import NostrQ.Worker.Responder

/-!
# A call and its responders

One node calls, and any number of nodes, the caller's own among them, run jobs
that may answer.  The relay keeps what it accepts and hands out nothing else;
whatever else the nodes and the relay do, nobody but a responder publishes a
reply.
-/

namespace NostrQ.Worker

open NostrQ.Foundation NostrQ.Core NostrQ.Database NostrQ.Sdk

/-- The nodes are the caller, `none`, and the others. -/
structure RpcSetup (ι Value : Type) where
  codec : Codec (Envelope Value)
  null : Value
  key : Option ι → PublicKey
  request : RpcRequest Value

/-- `asked` is the event of the request, and `handled` what handlers returned. -/
structure Rpc (ι Value : Type) where
  calling : Calling Value
  stores : ι → Store
  responders : List (Option ι × Responder)
  asked : Option Event
  handled : List (JobContext Value × Value)

inductive RpcAction (ι Value : Type) where
  | request (createdAt : U64) (id : EventId) (now : Int)
  | call (action : CallAction)
  | post (event : Event)
  | ingest (w : Option ι) (event : Event)
  | sweep (w : Option ι) (queue : String) (now : Int)
  | dlqRetry (w : Option ι) (mid : String)
  | spawn (w : Option ι) (record : MessageRecord) (leaseSeconds settleMs : U64)
  | respond (i : Nat) (input : ResponderInput Value)
  | reply (i : Nat) (createdAt : U64) (id : EventId) (input : Input)

/-- The JSON text of the envelope reads back as that envelope. -/
def Reads {Value : Type} (codec : Codec (Envelope Value))
    (envelope : Envelope Value) : Prop :=
  ∀ text ∈ (codec.toJson envelope).toOption, codec.fromJson text = .ok envelope

namespace Rpc

variable {ι Value : Type} [DecidableEq ι]

def store (c : Rpc ι Value) : Option ι → Store
  | none => c.calling.store
  | some w => c.stores w

def setStore (c : Rpc ι Value) (s : Store) : Option ι → Rpc ι Value
  | none => { c with calling := { c.calling with store := s } }
  | some w => { c with stores := Function.update c.stores w s }

def accepted (c : Rpc ι Value) : List Event := c.calling.accepted

def answers (S : RpcSetup ι Value) (r : Responder) :
    ResponderInput Value → List (JobContext Value × Value)
  | .returned (.success (some body)) _ =>
      match r.job.phase with
      | .handling current _ => [(.fromRecord S.codec S.null current, body)]
      | _ => []
  | _ => []

end Rpc

namespace RpcSetup

variable {ι Value : Type} [DecidableEq ι] (S : RpcSetup ι Value)

def ask (c : Rpc ι Value) (createdAt : U64) (id : EventId) (now : Int) :
    Option (Rpc ι Value) :=
  match c.calling.phase with
  | .publishing (.publishing _ _ draft) =>
      (Calling.step S.codec c.calling (.publishAccepted id now)).map
        fun calling =>
          let event := draft.sign (S.key none) createdAt id
          { c with
            calling := { calling with accepted := calling.accepted ++ [event] }
            asked := some event }
  | _ => none

def respond (c : Rpc ι Value) (i : Nat) (input : ResponderInput Value) :
    Option (Rpc ι Value) :=
  c.responders[i]?.bind fun (w, r) =>
    (r.step S.codec S.null (S.key w) (c.store w) input).map fun (s, next) =>
      { c.setStore s w with
        responders := c.responders.set i (w, next)
        handled := c.handled ++ Rpc.answers S r input }

/-- The transport accepts the reply; the responder learns of it, or does not. -/
def reply (c : Rpc ι Value) (i : Nat) (createdAt : U64) (id : EventId)
    (input : Input) : Option (Rpc ι Value) :=
  c.responders[i]?.bind fun (w, r) =>
    r.sending.bind fun draft =>
      (S.respond c i (.io input)).bind fun next =>
        (Calling.step S.codec next.calling
          (.accept (draft.sign (S.key w) createdAt id))).map fun calling =>
            { next with calling := calling }

def step (c : Rpc ι Value) : RpcAction ι Value → Option (Rpc ι Value)
  | .request createdAt id now => S.ask c createdAt id now
  | .call action =>
      (Calling.step S.codec c.calling action).map fun calling =>
        { c with calling := calling }
  | .post event =>
      (Calling.step S.codec c.calling (.accept event)).map fun calling =>
        { c with calling := calling }
  | .ingest w event => some (c.setStore (ingest S.codec (c.store w) event) w)
  | .sweep w queue now =>
      some (c.setStore ((c.store w).expireDue queue now).2 w)
  | .dlqRetry w mid => some (c.setStore ((c.store w).dlqRetry mid).2 w)
  | .spawn w record leaseSeconds settleMs =>
      some { c with
        responders := c.responders ++ [(w, .spawn record leaseSeconds settleMs)] }
  | .respond i input => S.respond c i input
  | .reply i createdAt id input => S.reply c i createdAt id input

def Unstarted (c : Rpc ι Value) : Prop :=
  ∃ queues : Option ι → List QueueConfig, c = {
    calling := {
      store := { Store.empty with queues := queues none }
      accepted := []
      phase := .publishing (.configuring S.request.publish) }
    stores := fun w => { Store.empty with queues := queues (some w) }
    responders := []
    asked := none
    handled := [] }

def system : System (Rpc ι Value) (RpcAction ι Value) where
  init := S.Unstarted
  step := S.step

def New (c : Rpc ι Value) (id : EventId) : Prop :=
  ∀ event ∈ c.accepted, event.id ≠ id

instance (c : Rpc ι Value) (id : EventId) : Decidable (New c id) :=
  inferInstanceAs (Decidable (∀ _ ∈ _, _))

def Brings (c : Rpc ι Value) (event : Event) : Prop :=
  event ∈ c.accepted ∧ ∀ call ∈ c.calling.phase.waiting?,
    (replyFilter call.request).matchEvent event = true

instance (c : Rpc ι Value) (event : Event) : Decidable (Brings c event) :=
  inferInstanceAs (Decidable (_ ∧ ∀ _ ∈ _, _))

/--
Ids are not used twice, what is received was accepted, jobs work on records of
their own store, and envelopes read back as they were written.
-/
def Honest (c : Rpc ι Value) : RpcAction ι Value → Prop
  | .request _ id _ => New c id ∧ Reads S.codec (.new S.request.body S.request.now)
  | .call (.answer found) => ∀ event ∈ found, Brings c event
  | .call (.deliver event) => Brings c event
  | .call (.accept _) => False
  | .call (.publishAccepted _ _) => False
  | .post event => New c event.id ∧ event.kind ≠ KIND_REPLY
  | .ingest _ event => event ∈ c.accepted
  | .spawn w record _ _ =>
      ∃ row ∈ (c.store w).row? record.mid, row.toMessage = some record
  | .respond _ (.returned (.success (some body)) now) =>
      Reads S.codec (.new body now)
  | .reply _ _ id _ => New c id
  | _ => True

instance [DecidableEq Value] (codec : Codec (Envelope Value))
    (envelope : Envelope Value) : Decidable (Reads codec envelope) :=
  inferInstanceAs (Decidable (∀ _ ∈ _, _))

instance [DecidableEq Value] (c : Rpc ι Value) (a : RpcAction ι Value) :
    Decidable (S.Honest c a) :=
  match a with
  | .request _ _ _ => inferInstanceAs (Decidable (_ ∧ _))
  | .call (.answer _) => inferInstanceAs (Decidable (∀ _ ∈ _, _))
  | .call (.deliver _) => inferInstanceAs (Decidable (Brings _ _))
  | .call (.accept _) | .call (.publishAccepted _ _) =>
      inferInstanceAs (Decidable False)
  | .post _ => inferInstanceAs (Decidable (_ ∧ _))
  | .ingest _ _ => inferInstanceAs (Decidable (_ ∈ _))
  | .spawn _ _ _ _ => inferInstanceAs (Decidable (∃ _ ∈ _, _))
  | .respond _ (.returned (.success (some _)) _) =>
      inferInstanceAs (Decidable (Reads _ _))
  | .reply _ _ _ _ => inferInstanceAs (Decidable (New _ _))
  | .call .publishProceed | .call .publishFailed | .call .published
  | .call .subscribed | .call .subscribeFailed | .call .queryFailed
  | .call .next | .call .closed | .call .timeout | .sweep _ _ _
  | .dlqRetry _ _ | .respond _ (.io _)
  | .respond _ (.returned (.success none) _)
  | .respond _ (.returned (.failure _) _) => inferInstanceAs (Decidable True)

end RpcSetup

/-! ## What is known of the request -/

namespace RpcSetup

section Known

variable {ι Value : Type} (S : RpcSetup ι Value)

def Asks (json : String) : Prop :=
  ∃ envelope, S.codec.fromJson json = .ok envelope ∧
    envelope.body = S.request.body

/--
Columns of a row or fields of a record.  They are those of an accepted event,
and where that is the request, they are what the call put into it.
-/
structure Known (accepted : List Event) (asked : Option Event)
    (eventId mid : String) (replyTo : Option String) (json : String) : Prop where
  source : ∃ event ∈ accepted, eventId = event.id.toHex
  asks : ∀ event ∈ asked, eventId = event.id.toHex →
    mid = S.request.mid ∧ replyTo = some S.request.requester.toHex ∧ S.Asks json

def KnownRow (accepted : List Event) (asked : Option Event) (row : Row) : Prop :=
  S.Known accepted asked row.eventId row.mid row.replyTo row.envelopeJson

def KnownRecord (accepted : List Event) (asked : Option Event)
    (rec : MessageRecord) : Prop :=
  S.Known accepted asked rec.eventId rec.mid rec.replyTo rec.envelopeJson

def KnownStore (accepted : List Event) (asked : Option Event) (s : Store) :
    Prop :=
  ∀ mid row, s.row? mid = some row → S.KnownRow accepted asked row

variable {S} {accepted accepted' : List Event} {asked : Option Event}
  {s s' : Store}

theorem Known.grow {eventId mid json : String} {replyTo : Option String}
    (h : S.Known accepted asked eventId mid replyTo json)
    (hsub : accepted ⊆ accepted') :
    S.Known accepted' asked eventId mid replyTo json where
  source := h.source.imp fun _ hevent => ⟨hsub hevent.1, hevent.2⟩
  asks := h.asks

theorem Known.ask {eventId mid json : String} {replyTo : Option String}
    {event : Event} (h : S.Known accepted none eventId mid replyTo json)
    (hnew : ∀ other ∈ accepted, other.id ≠ event.id) :
    S.Known (accepted ++ [event]) (some event) eventId mid replyTo json where
  source := h.source.imp fun _ hother =>
    ⟨List.mem_append_left _ hother.1, hother.2⟩
  asks := by
    intro req hreq heq
    rw [Option.mem_some_iff] at hreq
    subst hreq
    obtain ⟨other, hother, hid⟩ := h.source
    exact absurd (Hex32.ext_toHex (hid.symm.trans heq)) (hnew other hother)

theorem KnownStore.rewrites (h : S.KnownStore accepted asked s)
    (hrewrites : s.Rewrites s') : S.KnownStore accepted asked s' := by
  intro mid row' hrow'
  obtain ⟨row, progress, hrow, rfl⟩ := hrewrites.row hrow'
  exact h mid row hrow

theorem KnownStore.insert {rec : MessageRecord}
    (h : S.KnownStore accepted asked s)
    (hrec : S.KnownRecord accepted asked rec) :
    S.KnownStore accepted asked (s.insertMessage rec).2 := by
  intro mid row hrow
  rcases Store.insertMessage_row? hrow with hold | rfl
  · exact h mid row hold
  · exact hrec

theorem knownRecord_of_toMessage {row : Row} {rec : MessageRecord}
    (h : S.KnownRow accepted asked row) (hrec : row.toMessage = some rec) :
    S.KnownRecord accepted asked rec := by
  unfold Row.toMessage at hrec
  split at hrec
  · cases hrec
    exact h
  · contradiction

theorem KnownStore.getMessage {mid : String} {rec : MessageRecord}
    (h : S.KnownStore accepted asked s)
    (hget : s.getMessage mid = .ok (some rec)) :
    S.KnownRecord accepted asked rec := by
  unfold Store.getMessage at hget
  split at hget
  · simp at hget
  · next row hrow =>
      unfold Store.decode at hget
      split at hget
      · next found hfound =>
          cases hget
          exact knownRecord_of_toMessage (h mid row hrow) hfound
      · contradiction

theorem KnownStore.refetch {rec : MessageRecord}
    (h : S.KnownStore accepted asked s)
    (hrec : S.KnownRecord accepted asked rec) :
    S.KnownRecord accepted asked (Job.refetch s rec) := by
  unfold Job.refetch
  split
  · next current hget => exact h.getMessage hget
  · exact hrec

def Requests (S : RpcSetup ι Value) (event : Event) : Prop :=
  Reads S.codec (.new S.request.body S.request.now) ∧
    ∃ mode draft key createdAt id,
      buildMessageEvent S.codec mode S.request.publish.toMessage = .ok draft ∧
      event = draft.sign key createdAt id

theorem buildMessageEvent_content {codec : Codec (Envelope Value)}
    {mode : QueueMode} {msg : NqMessage (Envelope Value)} {draft : Draft}
    (h : buildMessageEvent codec mode msg = .ok draft) :
    codec.toJson msg.envelope = .ok draft.content := by
  unfold buildMessageEvent at h
  split at h
  · contradiction
  · next content hcontent =>
      cases h
      exact hcontent

theorem asks_of_toJson {json : String}
    (hreads : Reads S.codec (.new S.request.body S.request.now))
    (h : S.codec.toJson (.new S.request.body S.request.now) = .ok json) :
    S.Asks json :=
  ⟨_, hreads json (by rw [h]; rfl), rfl⟩

theorem Requests.ingestRecord {event : Event} {rec : MessageRecord}
    (h : S.Requests event) (hrec : ingestRecord S.codec event = .ok rec) :
    rec.mid = S.request.mid ∧ rec.replyTo = some S.request.requester.toHex ∧
      S.Asks rec.envelopeJson := by
  obtain ⟨hreads, mode, draft, key, createdAt, id, hdraft, rfl⟩ := h
  have hcontent : S.codec.toJson (.new S.request.body S.request.now) =
      .ok draft.content := buildMessageEvent_content hdraft
  have hread : S.codec.fromJson draft.content =
      .ok (.new S.request.body S.request.now) :=
    hreads _ (by rw [hcontent]; rfl)
  unfold Sdk.ingestRecord at hrec
  rw [parseMessageEvent_build hdraft, hread] at hrec
  cases hrec
  refine ⟨rfl, rfl, ?_⟩
  simp only [hcontent]
  exact asks_of_toJson hreads hcontent

theorem ingestRecord_eventId {codec : Codec (Envelope Value)} {event : Event}
    {rec : MessageRecord} (h : ingestRecord codec event = .ok rec) :
    rec.eventId = event.id.toHex := by
  unfold Sdk.ingestRecord at h
  cases hparse : parseMessageEvent codec event with
  | error e =>
      rw [hparse] at h
      contradiction
  | ok msg =>
      rw [hparse] at h
      cases h
      rfl

theorem KnownStore.ingest {event : Event} (h : S.KnownStore accepted asked s)
    (hids : ∀ a ∈ accepted, ∀ b ∈ accepted, a.id = b.id → a = b)
    (hasked : ∀ req ∈ asked, req ∈ accepted ∧ S.Requests req)
    (hevent : event ∈ accepted) :
    S.KnownStore accepted asked (ingest S.codec s event) := by
  unfold Sdk.ingest
  cases hrec : Sdk.ingestRecord S.codec event with
  | error e => exact h
  | ok rec =>
      have hid := ingestRecord_eventId hrec
      refine h.insert ⟨⟨event, hevent, hid⟩, ?_⟩
      intro req hreq heq
      obtain ⟨hmem, hrequests⟩ := hasked req hreq
      have hsame : event = req := hids event hevent req hmem
        (Hex32.ext_toHex (hid.symm.trans heq))
      subst hsame
      exact hrequests.ingestRecord hrec

end Known

/-! ## Where replies come from -/

section Replies

variable {ι Value : Type} (S : RpcSetup ι Value)

def Replies (handled : List (JobContext Value × Value)) (draft : Draft) : Prop :=
  ∃ entry ∈ handled, ∃ now,
    publishRpcReplyIfRequested S.codec entry.1 entry.2 now = some draft ∧
      Reads S.codec (.new entry.2 now)

/-- The body was returned for the request, by a handler that was given it. -/
def Answered (handled : List (JobContext Value × Value)) (body : Value) : Prop :=
  ∃ job, (job, body) ∈ handled ∧ job.mid = S.request.mid ∧
    job.replyTo = some S.request.requester.toHex ∧
    job.payload = S.request.body

variable {S} {handled handled' : List (JobContext Value × Value)}
  {accepted : List Event} {asked : Option Event}

theorem Replies.grow {draft : Draft} (h : S.Replies handled draft)
    (hsub : handled ⊆ handled') : S.Replies handled' draft :=
  h.imp fun _ hentry => ⟨hsub hentry.1, hentry.2⟩

theorem Answered.grow {body : Value} (h : S.Answered handled body)
    (hsub : handled ⊆ handled') : S.Answered handled' body :=
  h.imp fun _ hentry => ⟨hsub hentry.1, hentry.2⟩

theorem publishRpcReply_cases {codec : Codec (Envelope Value)}
    {job : JobContext Value} {body : Value} {now : Int} {draft : Draft}
    (h : publishRpcReplyIfRequested codec job body now = some draft) :
    ∃ request requester, Hex32.fromHex job.eventId = some request ∧
      buildReplyEvent codec request job.mid requester body now = .ok draft := by
  obtain ⟨text, -, h⟩ := Option.bind_eq_some_iff.mp h
  obtain ⟨request, hrequest, h⟩ := Option.bind_eq_some_iff.mp h
  obtain ⟨requester, -, h⟩ := Option.bind_eq_some_iff.mp h
  refine ⟨request, requester, hrequest, ?_⟩
  cases hbuild : buildReplyEvent codec request job.mid requester body now with
  | error e => simp [hbuild, Except.toOption] at h
  | ok built =>
      simp only [hbuild, Except.toOption, Option.some.injEq] at h
      rw [h]

theorem replyFilter_built {codec : Codec (Envelope Value)} {request : EventId}
    {mid : String} {requester : PublicKey} {body : Value} {now : Int}
    {draft : Draft} {other : EventId}
    (hdraft : buildReplyEvent codec request mid requester body now = .ok draft)
    (key : PublicKey) (createdAt : U64) (id : EventId)
    (hmatch : (replyFilter other).matchEvent (draft.sign key createdAt id) =
      true) : other = request := by
  unfold buildReplyEvent at hdraft
  split at hdraft
  · contradiction
  · cases hdraft
    simp [Filter.matchEvent, replyFilter, matchTag, Draft.sign] at hmatch
    exact (Hex32.ext_toHex hmatch).symm

theorem replyFilter_kind {request : EventId} {event : Event}
    (h : (replyFilter request).matchEvent event = true) :
    event.kind = KIND_REPLY := by
  simp [Filter.matchEvent, replyFilter] at h
  exact h.1.1

/-- A reply to the request was returned by a handler that was given it. -/
theorem answered_of_reply {draft : Draft} {event req : Event}
    {key : PublicKey} {createdAt : U64} {id : EventId} {info : ReplyInfo Value}
    (hreplies : S.Replies handled draft)
    (hevent : event = draft.sign key createdAt id)
    (hhandled : ∀ entry ∈ handled, ∃ record,
      S.KnownRecord accepted asked record ∧
        entry.1 = .fromRecord S.codec S.null record)
    (hasked : req ∈ asked)
    (hmatch : (replyFilter req.id).matchEvent event = true)
    (hparse : parseReplyEvent S.codec event = .ok info) :
    S.Answered handled info.body := by
  obtain ⟨⟨job, body⟩, hentry, now, hpublish, hreads⟩ := hreplies
  obtain ⟨request, requester, hid, hdraft⟩ := publishRpcReply_cases hpublish
  subst hevent
  have hrequest : req.id = request :=
    replyFilter_built hdraft key createdAt id hmatch
  have hbody : info.body = body := by
    have hcontent : S.codec.toJson (.new body now) = .ok draft.content := by
      unfold buildReplyEvent at hdraft
      split at hdraft
      · contradiction
      · next content hcontent =>
          cases hdraft
          exact hcontent
    rw [parseReplyEvent_build hdraft (hreads _ (by rw [hcontent]; rfl))] at hparse
    cases hparse
    rfl
  obtain ⟨record, hknown, hjob⟩ := hhandled _ hentry
  dsimp only at hjob hid
  obtain ⟨source, -, hsource⟩ := hknown.source
  -- the job's event id is that of an accepted event, and parses to it
  have hsame : record.eventId = req.id.toHex := by
    rw [hjob] at hid
    rw [show (JobContext.fromRecord S.codec S.null record).eventId =
      record.eventId from rfl, hsource, Hex32.fromHex_toHex,
      Option.some.injEq] at hid
    rw [hsource, hid, hrequest]
  obtain ⟨hmid, hreplyTo, envelope, henvelope, hpayload⟩ :=
    hknown.asks req hasked hsame
  refine ⟨job, hbody ▸ hentry, ?_, ?_, ?_⟩
  · rw [hjob]
    exact hmid
  · rw [hjob]
    exact hreplyTo
  · rw [hjob]
    simp only [JobContext.fromRecord, henvelope]
    exact hpayload

end Replies

/-! ## The phases of the call -/

section Phases

variable {ι Value : Type} (S : RpcSetup ι Value)

structure WaitingKnown (accepted : List Event) (call : WaitingCall) : Prop where
  sent : ∀ event ∈ call.channel.sent, event ∈ accepted ∧
    (replyFilter call.request).matchEvent event = true
  ahead : call.stage ≠ .querying → ∀ event ∈ call.ahead, event ∈ accepted ∧
    (replyFilter call.request).matchEvent event = true

def PhaseKnown (accepted : List Event) (asked : Option Event)
    (handled : List (JobContext Value × Value)) : CallPhase Value → Prop
  | .publishing (.configuring call) => asked = none ∧ call = S.request.publish
  | .publishing (.checking call _) => asked = none ∧ call = S.request.publish
  | .publishing (.publishing call mode draft) =>
      asked = none ∧ call = S.request.publish ∧
        buildMessageEvent S.codec mode call.toMessage = .ok draft
  | .publishing (.inserting rec) =>
      S.KnownRecord accepted asked rec ∧ rec.idemKey = none ∧
        ∃ req ∈ asked, rec.eventId = req.id.toHex
  | .publishing (.rereading _ _) => False
  | .publishing (.returned (.ok receipt)) =>
      ∃ req ∈ asked, receipt.eventId = req.id.toHex
  | .publishing (.returned (.error _)) => True
  | .subscribing _ request => ∃ req ∈ asked, req.id = request
  | .waiting call =>
      (∃ req ∈ asked, req.id = call.request) ∧ WaitingKnown accepted call
  | .returned (.ok body) => S.Answered handled body
  | .returned (.error _) => True

variable {S} {accepted accepted' : List Event} {asked : Option Event}
  {handled handled' : List (JobContext Value × Value)} {call : WaitingCall}
  {event : Event}

theorem WaitingKnown.grow (h : WaitingKnown accepted call)
    (hsub : accepted ⊆ accepted') : WaitingKnown accepted' call where
  sent := fun event hevent => (h.sent event hevent).imp_left (hsub ·)
  ahead := fun hstage event hevent =>
    (h.ahead hstage event hevent).imp_left (hsub ·)

theorem PhaseKnown.grow {phase : CallPhase Value}
    (h : S.PhaseKnown accepted asked handled phase)
    (haccepted : accepted ⊆ accepted') (hhandled : handled ⊆ handled') :
    S.PhaseKnown accepted' asked handled' phase := by
  unfold PhaseKnown at h ⊢
  split
  · exact h
  · exact h
  · exact h
  · exact ⟨h.1.grow haccepted, h.2⟩
  · exact h
  · exact h
  · trivial
  · exact h
  · exact ⟨h.1, h.2.grow haccepted⟩
  · exact h.grow hhandled
  · trivial

theorem WaitingKnown.send (h : WaitingKnown accepted call)
    (hevent : event ∈ accepted ∧
      (replyFilter call.request).matchEvent event = true) :
    WaitingKnown accepted { call with channel := call.channel.send event } := by
  have hsent : ∀ other ∈ (call.channel.send event).sent, other ∈ accepted ∧
      (replyFilter call.request).matchEvent other = true := by
    intro other hother
    rw [Broadcast.sent_send, List.mem_append, List.mem_singleton] at hother
    rcases hother with hold | rfl
    · exact h.sent other hold
    · exact hevent
  refine ⟨hsent, ?_⟩
  intro hstage other hother
  cases hnow : call.stage with
  | querying => exact absurd hnow hstage
  | examining rest =>
      simp only [WaitingCall.ahead, hnow, List.mem_append] at hother
      rcases hother with hrest | hbacklog
      · exact h.ahead hstage other (by simp [WaitingCall.ahead, hnow, hrest])
      · exact hsent other (Broadcast.mem_sent_of_mem_backlog _ hbacklog)
  | draining =>
      simp only [WaitingCall.ahead, hnow] at hother
      exact hsent other (Broadcast.mem_sent_of_mem_backlog _ hother)

theorem WaitingKnown.answer {found : List Event}
    (h : WaitingKnown accepted call)
    (hfound : ∀ event ∈ found, event ∈ accepted ∧
      (replyFilter call.request).matchEvent event = true) :
    WaitingKnown accepted
      { call with found := found, stage := .examining found } where
  sent := h.sent
  ahead := by
    intro _ event hevent
    rcases List.mem_append.mp hevent with hmem | hbacklog
    · exact hfound event hmem
    · exact h.sent event (Broadcast.mem_sent_of_mem_backlog _ hbacklog)

theorem WaitingKnown.drain (h : WaitingKnown accepted call) :
    WaitingKnown accepted { call with stage := .draining } where
  sent := h.sent
  ahead := fun _ event hevent =>
    h.sent event (Broadcast.mem_sent_of_mem_backlog _ hevent)

theorem phaseKnown_look {call' : WaitingCall}
    (hasked : ∃ req ∈ asked, req.id = call.request)
    (h : WaitingKnown accepted call) (htakes : call.Takes event call')
    (hanswered : ∀ info, parseReplyEvent S.codec event = .ok info →
      S.Answered handled info.body) :
    S.PhaseKnown accepted asked handled (Calling.look S.codec event call') := by
  unfold Calling.look
  split
  · next info hinfo => exact hanswered info hinfo
  · refine ⟨?_, ?_, ?_⟩
    · obtain ⟨req, hreq, hid⟩ := hasked
      exact ⟨req, hreq, hid.trans htakes.request.symm⟩
    · intro other hother
      have hmem : other ∈ call.channel.sent := htakes.channel ▸ hother
      rw [htakes.request]
      exact h.sent other hmem
    · intro _ other hother
      have hmem : other ∈ call.ahead := by
        rw [htakes.ahead]
        exact List.mem_cons_of_mem _ hother
      rw [htakes.request]
      exact h.ahead htakes.before other hmem

theorem phaseKnown_proceed {s s' : Store}
    {phase next : PublishPhase (Envelope Value)}
    (h : S.PhaseKnown accepted asked handled (.publishing phase))
    (hstore : S.KnownStore accepted asked s)
    (hstep : phase.proceed S.codec s = some (s', next)) :
    S.PhaseKnown accepted asked handled (.publishing next) ∧
      S.KnownStore accepted asked s' := by
  unfold PublishPhase.proceed at hstep
  split at hstep
  · split at hstep <;> cases hstep
    · exact ⟨trivial, hstore⟩
    · exact ⟨h, hstore⟩
  · next call config =>
      cases hstep
      obtain ⟨hasked, rfl⟩ := h
      refine ⟨?_, hstore⟩
      simp only [PublishPhase.check, RpcRequest.publish, PublishPhase.build]
      split
      · trivial
      · next draft hdraft => exact ⟨hasked, rfl, hdraft⟩
  · next rec =>
      cases hstep
      obtain ⟨hknown, hkey, req, hreq, hid⟩ := h
      refine ⟨?_, hstore.insert hknown⟩
      unfold PublishPhase.insert
      split
      · exact ⟨req, hreq, hid⟩
      · rw [hkey]
        trivial
  · exact h.elim
  · contradiction

theorem phaseKnown_ask {call : PublishCall (Envelope Value)} {mode : QueueMode}
    {draft : Draft} {id : EventId} {now : Int} {k : PublicKey} {t : U64}
    {next : PublishPhase (Envelope Value)}
    (h : S.PhaseKnown accepted asked handled
      (.publishing (.publishing call mode draft)))
    (hreads : Reads S.codec (.new S.request.body S.request.now))
    (hnext : (PublishPhase.publishing call mode draft).accepted S.codec id now =
      some next) :
    asked = none ∧ S.Requests (draft.sign k t id) ∧
      S.PhaseKnown (accepted ++ [draft.sign k t id])
        (some (draft.sign k t id)) handled (.publishing next) := by
  obtain ⟨hasked, rfl, hdraft⟩ := h
  refine ⟨hasked, ⟨hreads, mode, draft, k, t, id, hdraft, rfl⟩, ?_⟩
  have hcontent : S.codec.toJson (.new S.request.body S.request.now) =
      .ok draft.content := buildMessageEvent_content hdraft
  have hjson : S.codec.toJson S.request.publish.envelope = .ok draft.content :=
    hcontent
  simp only [PublishPhase.accepted, hjson, Option.some.injEq] at hnext
  subst hnext
  refine ⟨⟨⟨draft.sign k t id, by simp, rfl⟩, ?_⟩, rfl, _, rfl, rfl⟩
  intro _ _ _
  exact ⟨rfl, rfl, asks_of_toJson hreads hcontent⟩

end Phases

/-! ## Any order of steps -/

section Runs

variable {ι Value : Type} (S : RpcSetup ι Value)

structure Inv (c : Rpc ι Value) : Prop where
  ids : ∀ a ∈ c.accepted, ∀ b ∈ c.accepted, a.id = b.id → a = b
  asked : ∀ req ∈ c.asked, req ∈ c.accepted ∧ S.Requests req
  stores : ∀ w, S.KnownStore c.accepted c.asked (c.store w)
  records : ∀ w r, (w, r) ∈ c.responders →
    S.KnownRecord c.accepted c.asked r.job.record ∧
    ∀ current deadline, r.job.phase = .handling current deadline →
      S.KnownRecord c.accepted c.asked current
  sending : ∀ w r, (w, r) ∈ c.responders → ∀ draft ∈ r.sending,
    S.Replies c.handled draft
  handled : ∀ entry ∈ c.handled, ∃ record,
    S.KnownRecord c.accepted c.asked record ∧
      entry.1 = .fromRecord S.codec S.null record
  replies : ∀ event ∈ c.accepted, event.kind = KIND_REPLY →
    ∃ draft key createdAt id, S.Replies c.handled draft ∧
      event = draft.sign key createdAt id
  phase : S.PhaseKnown c.accepted c.asked c.handled c.calling.phase

variable {S} {c c' : Rpc ι Value}

theorem accept_cases {calling calling' : Calling Value} {event : Event}
    (h : Calling.step S.codec calling (.accept event) = some calling') :
    calling'.accepted = calling.accepted ++ [event] ∧
      calling'.store = calling.store ∧
      (calling'.phase = calling.phase ∨
        ∃ call, calling.phase = .waiting call ∧
          (replyFilter call.request).matchEvent event = true ∧
          calling'.phase = .waiting
            { call with channel := call.channel.send event }) := by
  simp only [Calling.step] at h
  split at h
  · next call hphase =>
      cases h
      refine ⟨rfl, rfl, ?_⟩
      cases hmatch : (replyFilter call.request).matchEvent event with
      | true =>
          refine Or.inr ⟨call, hphase, hmatch, ?_⟩
          simp only [if_true]
      | false =>
          refine Or.inl ?_
          simp only [hphase, Bool.false_eq_true, if_false]
  · cases h
    exact ⟨rfl, rfl, Or.inl rfl⟩

theorem Inv.accept {event : Event} {calling : Calling Value} (h : S.Inv c)
    (hnew : New c event.id)
    (hreply : event.kind = KIND_REPLY → ∃ draft key createdAt id,
      S.Replies c.handled draft ∧ event = draft.sign key createdAt id)
    (hstep : Calling.step S.codec c.calling (.accept event) = some calling) :
    S.Inv { c with calling := calling } := by
  obtain ⟨haccepted, hstore, hphase⟩ := accept_cases hstep
  have hsub : c.accepted ⊆ calling.accepted := by
    rw [haccepted]
    exact List.subset_append_left _ _
  have hmem : ∀ other ∈ calling.accepted, other ∈ c.accepted ∨ other = event := by
    intro other hother
    rwa [haccepted, List.mem_append, List.mem_singleton] at hother
  refine ⟨?_, ?_, ?_, ?_, h.sending, ?_, ?_, ?_⟩
  · intro a ha b hb hid
    rcases hmem a ha with hold | rfl <;> rcases hmem b hb with hold' | rfl
    · exact h.ids a hold b hold' hid
    · exact absurd hid (hnew a hold)
    · exact absurd hid.symm (hnew b hold')
    · rfl
  · intro req hreq
    exact (h.asked req hreq).imp_left (hsub ·)
  · intro w mid row hrow
    have hold : (c.store w).row? mid = some row := by
      cases w with
      | none => exact (congrArg (fun s : Store => s.row? mid) hstore).symm.trans hrow
      | some w => exact hrow
    exact (h.stores w mid row hold).grow hsub
  · intro w r hr
    obtain ⟨hrecord, hcurrent⟩ := h.records w r hr
    exact ⟨hrecord.grow hsub,
      fun current deadline hphase => (hcurrent current deadline hphase).grow hsub⟩
  · intro entry hentry
    obtain ⟨record, hknown, heq⟩ := h.handled entry hentry
    exact ⟨record, hknown.grow hsub, heq⟩
  · intro other hother hkind
    rcases hmem other hother with hold | rfl
    · exact h.replies other hold hkind
    · exact hreply hkind
  · have hgrown := h.phase.grow hsub (List.Subset.refl _)
    rcases hphase with heq | ⟨call, hwaiting, hmatch, heq⟩
    · rw [heq]
      exact hgrown
    · rw [hwaiting] at hgrown
      rw [heq]
      refine ⟨hgrown.1, hgrown.2.send ⟨?_, hmatch⟩⟩
      rw [haccepted]
      simp

private theorem Inv.responder {w : Option ι} {r next : Responder} {s : Store}
    {input : ResponderInput Value} (h : S.Inv c) (hmem : (w, r) ∈ c.responders)
    (hreads : ∀ body now, input = .returned (.success (some body)) now →
      Reads S.codec (.new body now))
    (hsteps : Responder.Steps S.codec S.null (S.key w) (c.store w) r input s
      next) :
    (S.KnownRecord c.accepted c.asked next.job.record ∧
      ∀ current deadline, next.job.phase = .handling current deadline →
        S.KnownRecord c.accepted c.asked current) ∧
    (∀ draft ∈ next.sending,
      S.Replies (c.handled ++ Rpc.answers S r input) draft) ∧
    ∀ entry ∈ Rpc.answers S r input, ∃ record,
      S.KnownRecord c.accepted c.asked record ∧
        entry.1 = .fromRecord S.codec S.null record := by
  obtain ⟨hrecord, hcurrent⟩ := h.records w r hmem
  have hjob : ∀ {s' : Store} {job : Job} {input : JobInput},
      r.job.step (S.key w) (c.store w) input = some (s', job) →
      S.KnownRecord c.accepted c.asked job.record ∧
      ∀ current deadline, job.phase = .handling current deadline →
        S.KnownRecord c.accepted c.asked current := by
    intro s' job input hstep
    refine ⟨(Job.step_fields hstep).1 ▸ hrecord, ?_⟩
    intro current deadline hphase
    rw [(Job.step_handling hstep hphase).2]
    exact (h.stores w).refetch hrecord
  have hanswers : ∀ entry ∈ Rpc.answers S r input, ∃ record,
      S.KnownRecord c.accepted c.asked record ∧
        entry.1 = .fromRecord S.codec S.null record := by
    intro entry hentry
    unfold Rpc.answers at hentry
    split at hentry
    · split at hentry
      · next current deadline hphase =>
          rw [List.mem_singleton.mp hentry]
          exact ⟨current, hcurrent current deadline hphase, rfl⟩
      · contradiction
    · contradiction
  cases hsteps with
  | job _ hstep => exact ⟨hjob hstep, by simp, hanswers⟩
  | handled _ _ hstep => exact ⟨hjob hstep, by simp, hanswers⟩
  | @answering body now current deadline draft _ hphase hpublish =>
      refine ⟨⟨hrecord, hcurrent⟩, ?_, hanswers⟩
      intro other hother
      rw [Option.mem_some_iff] at hother
      subst hother
      refine ⟨(.fromRecord S.codec S.null current, body), ?_, now, hpublish,
        hreads body now rfl⟩
      simp [Rpc.answers, hphase]
  | answered _ _ hstep => exact ⟨hjob hstep, by simp, hanswers⟩

private theorem Inv.ask {createdAt : U64} {id : EventId} {now : Int}
    (h : S.Inv c) (hnew : New c id)
    (hreads : Reads S.codec (.new S.request.body S.request.now))
    (hstep : S.ask c createdAt id now = some c') : S.Inv c' := by
  unfold RpcSetup.ask at hstep
  split at hstep
  · next call mode draft hnow =>
      have hphase := h.phase
      rw [hnow] at hphase
      obtain ⟨calling, haccepted, rfl⟩ := Option.map_eq_some_iff.mp hstep
      simp only [Calling.step, hnow] at haccepted
      obtain ⟨next, hnext, rfl⟩ := Option.map_eq_some_iff.mp haccepted
      obtain ⟨hasked, hrequests, hknown⟩ :=
        phaseKnown_ask (k := S.key none) (t := createdAt) hphase hreads hnext
      generalize hevent : draft.sign (S.key none) createdAt id = event at *
      have hid : event.id = id := by
        rw [← hevent]
        rfl
      have hfresh : ∀ other ∈ c.accepted, other.id ≠ event.id := by
        intro other hother
        rw [hid]
        exact hnew other hother
      have hold : ∀ {eventId mid json : String} {replyTo : Option String},
          S.Known c.accepted c.asked eventId mid replyTo json →
          S.Known (c.accepted ++ [event]) (some event) eventId mid replyTo json := by
        intro eventId mid json replyTo hbefore
        rw [hasked] at hbefore
        exact hbefore.ask hfresh
      have hmem : ∀ other ∈ c.accepted ++ [event],
          other ∈ c.accepted ∨ other = event := by
        simp
      refine ⟨?_, ?_, ?_, ?_, h.sending, ?_, ?_, hknown⟩
      · intro a ha b hb heq
        rcases hmem a ha with hpast | rfl <;> rcases hmem b hb with hpast' | rfl
        · exact h.ids a hpast b hpast' heq
        · exact absurd heq (hfresh a hpast)
        · exact absurd heq.symm (hfresh b hpast')
        · rfl
      · intro req hreq
        cases hreq
        exact ⟨by simp [Rpc.accepted], hrequests⟩
      · intro w mid row hrow
        refine hold (h.stores w mid row ?_)
        cases w <;> exact hrow
      · intro w r hr
        obtain ⟨hrecord, hcurrent⟩ := h.records w r hr
        exact ⟨hold hrecord, fun current deadline hphase =>
          hold (hcurrent current deadline hphase)⟩
      · intro entry hentry
        obtain ⟨record, hrecord, heq⟩ := h.handled entry hentry
        exact ⟨record, hold hrecord, heq⟩
      · intro other hother hkind
        rcases hmem other hother with hpast | rfl
        · exact h.replies other hpast hkind
        · obtain ⟨-, _, _, _, _, _, hdraft, rfl⟩ := hrequests
          unfold buildMessageEvent at hdraft
          split at hdraft
          · contradiction
          · cases hdraft
            simp [Draft.sign, KIND_MESSAGE, KIND_REPLY] at hkind
  · contradiction

variable [DecidableEq ι]

@[simp] theorem setStore_accepted (s : Store) (w : Option ι) :
    (c.setStore s w).accepted = c.accepted := by
  cases w <;> rfl

@[simp] theorem setStore_phase (s : Store) (w : Option ι) :
    (c.setStore s w).calling.phase = c.calling.phase := by
  cases w <;> rfl

@[simp] theorem setStore_asked (s : Store) (w : Option ι) :
    (c.setStore s w).asked = c.asked := by
  cases w <;> rfl

@[simp] theorem setStore_responders (s : Store) (w : Option ι) :
    (c.setStore s w).responders = c.responders := by
  cases w <;> rfl

@[simp] theorem setStore_handled (s : Store) (w : Option ι) :
    (c.setStore s w).handled = c.handled := by
  cases w <;> rfl

theorem store_setStore (s : Store) (w other : Option ι) :
    (c.setStore s w).store other = s ∨
      (c.setStore s w).store other = c.store other := by
  cases w with
  | none =>
      cases other with
      | none => exact Or.inl rfl
      | some _ => exact Or.inr rfl
  | some w =>
      cases other with
      | none => exact Or.inr rfl
      | some other =>
          by_cases heq : other = w
          · subst heq
            exact Or.inl (Function.update_self ..)
          · exact Or.inr (Function.update_of_ne heq ..)

theorem Inv.setStore {s : Store} {w : Option ι} (h : S.Inv c)
    (hs : S.KnownStore c.accepted c.asked s) : S.Inv (c.setStore s w) where
  ids := by simpa using h.ids
  asked := by simpa using h.asked
  stores := by
    intro other
    rw [setStore_accepted, setStore_asked]
    rcases store_setStore (c := c) s w other with heq | heq
    · rw [heq]
      exact hs
    · rw [heq]
      exact h.stores other
  records := by simpa using h.records
  sending := by simpa using h.sending
  handled := by simpa using h.handled
  replies := by simpa using h.replies
  phase := by simpa using h.phase

theorem respond_cases {i : Nat} {input : ResponderInput Value}
    (h : S.respond c i input = some c') :
    ∃ w r s next, c.responders[i]? = some (w, r) ∧
      r.step S.codec S.null (S.key w) (c.store w) input = some (s, next) ∧
      c' = { c.setStore s w with
        responders := c.responders.set i (w, next)
        handled := c.handled ++ Rpc.answers S r input } := by
  obtain ⟨⟨w, r⟩, hr, hbind⟩ := Option.bind_eq_some_iff.mp h
  obtain ⟨⟨s, next⟩, hnext, heq⟩ := Option.map_eq_some_iff.mp hbind
  exact ⟨w, r, s, next, hr, hnext, heq.symm⟩

theorem Inv.respond {i : Nat} {input : ResponderInput Value} (h : S.Inv c)
    (hreads : ∀ body now, input = .returned (.success (some body)) now →
      Reads S.codec (.new body now))
    (hstep : S.respond c i input = some c') :
    S.Inv c' ∧ c'.accepted = c.accepted ∧ c.handled ⊆ c'.handled := by
  obtain ⟨w, r, s, next, hr, hnext, rfl⟩ := respond_cases hstep
  have hsteps := Responder.steps hnext
  have hset := h.setStore (w := w) ((h.stores w).rewrites hsteps.rewrites)
  have hsub : c.handled ⊆ c.handled ++ Rpc.answers S r input :=
    List.subset_append_left _ _
  obtain ⟨hknown, hsending, hanswers⟩ :=
    h.responder (List.mem_of_getElem? hr) hreads hsteps
  rw [← setStore_accepted (c := c) s w, ← setStore_asked (c := c) s w]
    at hknown hanswers
  refine ⟨⟨hset.ids, hset.asked, hset.stores, ?_, ?_, ?_, ?_, ?_⟩,
    setStore_accepted s w, hsub⟩
  · intro w' r' hr'
    rcases List.mem_or_eq_of_mem_set hr' with hold | heq
    · exact hset.records w' r' (by simpa using hold)
    · cases heq
      exact hknown
  · intro w' r' hr' draft hdraft
    rcases List.mem_or_eq_of_mem_set hr' with hold | heq
    · exact (h.sending w' r' hold draft hdraft).grow hsub
    · cases heq
      exact hsending draft hdraft
  · intro entry hentry
    rcases List.mem_append.mp hentry with hold | hnew
    · exact hset.handled entry (by simpa using hold)
    · exact hanswers entry hnew
  · intro event hevent hkind
    obtain ⟨draft, key, createdAt, id, hreplies, heq⟩ :=
      hset.replies event hevent hkind
    rw [setStore_handled] at hreplies
    exact ⟨draft, key, createdAt, id, hreplies.grow hsub, heq⟩
  · have hphase := hset.phase
    rw [setStore_handled] at hphase
    exact hphase.grow (List.Subset.refl _) hsub

private theorem Inv.call {action : CallAction} {calling : Calling Value}
    (h : S.Inv c) (hhonest : S.Honest c (.call action))
    (hstep : Calling.step S.codec c.calling action = some calling) :
    S.Inv { c with calling := calling } := by
  -- a step that leaves the store and the accepted events alone
  have hquiet : ∀ {phase : CallPhase Value},
      S.PhaseKnown c.accepted c.asked c.handled phase →
      S.Inv { c with calling := { c.calling with phase := phase } } :=
    fun hphase => ⟨h.ids, h.asked, h.stores, h.records, h.sending, h.handled,
      h.replies, hphase⟩
  have hphase := h.phase
  cases action with
  | publishProceed =>
      simp only [Calling.step] at hstep
      split at hstep
      · next phase hnow =>
          obtain ⟨⟨s, next⟩, hnext, rfl⟩ := Option.map_eq_some_iff.mp hstep
          rw [hnow] at hphase
          obtain ⟨hknown, hs⟩ := phaseKnown_proceed hphase (h.stores none) hnext
          have hset := h.setStore (w := none) hs
          exact ⟨hset.ids, hset.asked, hset.stores, hset.records, hset.sending,
            hset.handled, hset.replies, hknown⟩
      · contradiction
  | publishAccepted id now => exact hhonest.elim
  | publishFailed =>
      simp only [Calling.step] at hstep
      split at hstep
      · next phase hnow =>
          obtain ⟨next, hfailed, rfl⟩ := Option.map_eq_some_iff.mp hstep
          unfold PublishPhase.failed at hfailed
          split at hfailed
          · cases hfailed
            exact hquiet trivial
          · contradiction
      · contradiction
  | published =>
      simp only [Calling.step] at hstep
      split at hstep
      · next phase hnow =>
          obtain ⟨next, hpublished, rfl⟩ := Option.map_eq_some_iff.mp hstep
          rw [hnow] at hphase
          unfold Calling.published at hpublished
          split at hpublished
          · cases hpublished
            exact hquiet trivial
          · next receipt =>
              obtain ⟨req, hreq, hid⟩ := hphase
              rw [hid, Hex32.fromHex_toHex] at hpublished
              cases hpublished
              exact hquiet ⟨req, hreq, rfl⟩
          · contradiction
      · contradiction
  | subscribed =>
      simp only [Calling.step] at hstep
      split at hstep
      · next receipt request hnow =>
          cases hstep
          rw [hnow] at hphase
          exact hquiet ⟨hphase, by simp, by simp⟩
      · contradiction
  | subscribeFailed =>
      simp only [Calling.step] at hstep
      split at hstep
      · cases hstep
        exact hquiet trivial
      · contradiction
  | answer found =>
      simp only [Calling.step] at hstep
      split at hstep
      · next call hnow =>
          split at hstep
          · cases hstep
            rw [hnow] at hphase
            refine hquiet ⟨hphase.1, hphase.2.answer fun event hevent => ?_⟩
            obtain ⟨hmem, hmatch⟩ := hhonest event hevent
            exact ⟨hmem, hmatch call (by rw [hnow]; rfl)⟩
          · contradiction
      · contradiction
  | queryFailed =>
      simp only [Calling.step] at hstep
      split at hstep
      · next call hnow =>
          split at hstep
          · cases hstep
            rw [hnow] at hphase
            exact hquiet ⟨hphase.1, hphase.2.drain⟩
          · contradiction
      · contradiction
  | next =>
      simp only [Calling.step] at hstep
      split at hstep
      · next call hnow =>
          obtain ⟨phase, hnext, rfl⟩ := Option.map_eq_some_iff.mp hstep
          rw [hnow] at hphase
          rcases WaitingCall.next_cases hnext with
            ⟨-, rfl⟩ | ⟨event, call', -, htakes, rfl⟩
          · exact hquiet ⟨hphase.1, hphase.2.drain⟩
          · obtain ⟨req, hreq, hid⟩ := hphase.1
            refine hquiet (phaseKnown_look hphase.1 hphase.2 htakes ?_)
            intro info hinfo
            obtain ⟨hmem, hmatch⟩ := hphase.2.ahead htakes.before event
              (by rw [htakes.ahead]; exact List.mem_cons_self)
            obtain ⟨draft, key, createdAt, id, hreplies, hevent⟩ :=
              h.replies event hmem (replyFilter_kind hmatch)
            exact answered_of_reply hreplies hevent h.handled hreq
              (hid ▸ hmatch) hinfo
      · contradiction
  | closed =>
      simp only [Calling.step] at hstep
      split at hstep
      · split at hstep
        · cases hstep
          exact hquiet trivial
        · contradiction
      · contradiction
  | timeout =>
      simp only [Calling.step] at hstep
      split at hstep
      · cases hstep
        exact hquiet trivial
      · contradiction
  | accept event => exact hhonest.elim
  | deliver event =>
      simp only [Calling.step] at hstep
      split at hstep
      · next call hnow =>
          cases hstep
          rw [hnow] at hphase
          obtain ⟨hmem, hmatch⟩ := hhonest
          exact hquiet ⟨hphase.1,
            hphase.2.send ⟨hmem, hmatch call (by rw [hnow]; rfl)⟩⟩
      · contradiction

private theorem Inv.reply {i : Nat} {createdAt : U64} {id : EventId}
    {input : Input} (h : S.Inv c) (hnew : New c id)
    (hstep : S.reply c i createdAt id input = some c') : S.Inv c' := by
  obtain ⟨⟨w, r⟩, hr, hstep⟩ := Option.bind_eq_some_iff.mp hstep
  obtain ⟨draft, hdraft, hstep⟩ := Option.bind_eq_some_iff.mp hstep
  obtain ⟨next, hnext, hstep⟩ := Option.bind_eq_some_iff.mp hstep
  obtain ⟨calling, hcalling, rfl⟩ := Option.map_eq_some_iff.mp hstep
  obtain ⟨hinv, haccepted, hhandled⟩ := h.respond (fun _ _ heq => by cases heq) hnext
  refine hinv.accept ?_ ?_ hcalling
  · intro other hother
    rw [haccepted] at hother
    exact hnew other hother
  · intro _
    exact ⟨draft, S.key w, createdAt, id,
      (h.sending w r (List.mem_of_getElem? hr) draft hdraft).grow hhandled, rfl⟩

theorem Inv.step {a : RpcAction ι Value} (h : S.Inv c) (hhonest : S.Honest c a)
    (hstep : S.step c a = some c') : S.Inv c' := by
  cases a with
  | request createdAt id now => exact h.ask hhonest.1 hhonest.2 hstep
  | call action =>
      obtain ⟨calling, hcalling, rfl⟩ := Option.map_eq_some_iff.mp hstep
      exact h.call hhonest hcalling
  | post event =>
      obtain ⟨calling, hcalling, rfl⟩ := Option.map_eq_some_iff.mp hstep
      exact h.accept hhonest.1 (fun hkind => absurd hkind hhonest.2) hcalling
  | ingest w event =>
      cases hstep
      exact h.setStore ((h.stores w).ingest h.ids h.asked hhonest)
  | sweep w queue now =>
      cases hstep
      exact h.setStore ((h.stores w).rewrites (Store.expireDue_rewrites _ _))
  | dlqRetry w mid =>
      cases hstep
      exact h.setStore ((h.stores w).rewrites Store.dlqRetry_moves.rewrites)
  | spawn w record leaseSeconds settleMs =>
      cases hstep
      obtain ⟨row, hrow, hrecord⟩ := hhonest
      refine ⟨h.ids, h.asked, h.stores, ?_, ?_, h.handled, h.replies, h.phase⟩
      · intro w' r hr
        rcases List.mem_append.mp hr with hold | hspawned
        · exact h.records w' r hold
        · cases List.mem_singleton.mp hspawned
          exact ⟨knownRecord_of_toMessage (h.stores w _ row hrow) hrecord,
            by simp [Responder.spawn, Job.spawn]⟩
      · intro w' r hr draft hdraft
        rcases List.mem_append.mp hr with hold | hspawned
        · exact h.sending w' r hold draft hdraft
        · cases List.mem_singleton.mp hspawned
          contradiction
  | respond i input =>
      refine (h.respond ?_ hstep).1
      rintro body now rfl
      exact hhonest
  | reply i createdAt id input => exact h.reply hhonest hstep

theorem inv (h : S.system.Reach S.Honest c) : S.Inv c :=
  h.invariant (I := S.Inv)
    (fun c h₀ => by
      obtain ⟨queues, rfl⟩ := h₀
      refine ⟨by simp [Rpc.accepted], by simp, ?_, by simp, by simp, by simp,
        by simp [Rpc.accepted], rfl, rfl⟩
      intro w mid row hrow
      cases w <;> contradiction)
    fun _ _ _ _ hi hhonest hs => hi.step hhonest hs

/--
Whatever the order of the steps, however many nodes take the request and answer
it, and whatever events come twice or never: a call returns what some handler
returned that was given the body of this request.
-/
theorem rpc_round_trip (h : S.system.Reach S.Honest c) {body : Value}
    (hreturned : c.calling.phase = .returned (.ok body)) :
    ∃ job, (job, body) ∈ c.handled ∧ job.mid = S.request.mid ∧
      job.replyTo = some S.request.requester.toHex ∧
      job.payload = S.request.body := by
  have hphase := (inv h).phase
  rw [hreturned] at hphase
  exact hphase

/-! ### A request that is answered -/

def pingSetup : RpcSetup Unit String where
  codec := Calling.bodyCodec
  null := "null"
  key w := if w = none then hexOf 'a' else hexOf 'b'
  request := Calling.sampleRequest

def pingStart : Rpc Unit String where
  calling := {
    store := { Store.empty with queues := [.workQueue "jobs"] }
    accepted := []
    phase := .publishing (.configuring Calling.sampleRequest.publish) }
  stores := fun _ => { Store.empty with queues := [.workQueue "jobs"] }
  responders := []
  asked := none
  handled := []

def pingEvent : Event where
  id := hexOf 'e'
  pubkey := hexOf 'a'
  createdAt := 0
  kind := KIND_MESSAGE
  tags := [["t", "jobs"], ["q", "jobs"], ["mode", "work_queue"], ["mid", "m"],
    ["trace", "trace"], ["attempt", "0"], ["reply", (hexOf 'a').toHex]]
  content := "ping"

def pingRecord : MessageRecord :=
  { sampleRecord with
    envelopeJson := "ping", replyTo := some (hexOf 'a').toHex }

def pingClaim : Event :=
  (buildClaimEvent id ⟨hexOf 'e', "jobs", "m", "trace"⟩ 60 0).sign
    (hexOf 'b') 0 (hexOf 'c')

def pingRun : List (RpcAction Unit String) :=
  [.call .publishProceed, .call .publishProceed, .request 0 (hexOf 'e') 0,
    .call .publishProceed, .call .published, .call .subscribed,
    .ingest (some ()) pingEvent, .spawn (some ()) pingRecord 60 0,
    .respond 0 (.io (.proceed 0)), .respond 0 (.io (.answer [])),
    .respond 0 (.io (.answer [])), .respond 0 (.io (.answer [pingClaim])),
    .respond 0 (.io (.proceed 0)), .respond 0 (.io (.proceed 0)),
    .respond 0 (.returned (.success (some "pong")) 0),
    .reply 0 0 (hexOf 'd') (.accepted 0), .call (.answer []), .call .next,
    .call .next]

def heardPong (c : Rpc Unit String) : Bool :=
  match c.calling.phase with
  | .returned (.ok body) => decide (body = "pong")
  | _ => false

theorem rpc_round_trip_pong :
    ∃ c : Rpc Unit String, c.calling.phase = .returned (.ok "pong") ∧
      ∃ job, (job, "pong") ∈ c.handled ∧ job.mid = "m" ∧
        job.replyTo = some (hexOf 'a').toHex ∧ job.payload = "ping" := by
  obtain ⟨c, hreach, htest⟩ :=
    (System.Reach.init (S := pingSetup.system) (P := pingSetup.Honest)
      (s := pingStart) ⟨fun _ => [.workQueue "jobs"], rfl⟩).of_run_check pingRun
      heardPong (by decide)
  unfold heardPong at htest
  split at htest
  · next body hphase =>
      obtain rfl := of_decide_eq_true htest
      exact ⟨c, hphase, rpc_round_trip hreach hphase⟩
  · contradiction

end Runs

end RpcSetup

end NostrQ.Worker
