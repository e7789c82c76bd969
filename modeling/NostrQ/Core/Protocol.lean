import Mathlib.Data.List.MinMax
import Mathlib.Data.Prod.Lex
import Mathlib.Data.String.Basic
import NostrQ.Core.Event
import NostrQ.Core.Queue

/-!
# The wire protocol

Message events and the lifecycle events that refer to them by event id.  All
state of a lifecycle event is in its tags; numbers travel as decimal text.
-/

namespace NostrQ.Core

open NostrQ.Foundation

def KIND_MESSAGE : Nat := 4620
def KIND_CLAIM : Nat := 4621
def KIND_ACK : Nat := 4622
def KIND_NACK : Nat := 4623
def KIND_DLQ : Nat := 4624

inductive ProtocolError where
  | missingTag (name : String)
  | badPayload (reason : String)
  deriving DecidableEq, Repr

/--
What the model takes from outside: how a hashtag tag writes its argument, and
the JSON text of an envelope.
-/
structure Codec (Envelope : Type) where
  hashtag : String → String
  toJson : Envelope → Except String String
  fromJson : String → Except String Envelope

structure NqMessage (Envelope : Type) where
  mid : String
  queue : String
  traceId : String
  attempt : U32
  idem : Option String
  envelope : Envelope
  notBefore : Option Int
  expiresAt : Option Int
  replyTo : Option String

/-- First value of the first tag whose name matches. -/
def tagValue (event : Event) (name : String) : Option String :=
  event.tags.findSome? fun tag =>
    match tag with
    | found :: value :: _ => if found = name then some value else none
    | _ => none

def requireTag (event : Event) (name : String) : Except ProtocolError String :=
  match tagValue event name with
  | some value => .ok value
  | none => .error (.missingTag name)

/-- An event before signing fixes its key, time and id. -/
structure Draft where
  kind : Nat
  tags : List (List String)
  content : String
  deriving DecidableEq

def Draft.sign (draft : Draft) (pubkey : PublicKey) (createdAt : U64)
    (id : EventId) : Event where
  id := id
  pubkey := pubkey
  createdAt := createdAt
  kind := draft.kind
  tags := draft.tags
  content := draft.content

section Messages

variable {Envelope : Type} (codec : Codec Envelope)

def buildMessageEvent (mode : QueueMode) (msg : NqMessage Envelope) :
    Except ProtocolError Draft :=
  match codec.toJson msg.envelope with
  | .error e => .error (.badPayload e)
  | .ok content =>
      .ok {
        kind := KIND_MESSAGE
        content := content
        tags :=
          [["t", codec.hashtag msg.queue], ["q", msg.queue],
            ["mode", mode.asStr], ["mid", msg.mid], ["trace", msg.traceId],
            ["attempt", msg.attempt.val.repr]] ++
          (msg.idem.map fun idem => ["idem", idem]).toList ++
          (msg.notBefore.map fun nbf => ["nbf", showInt nbf]).toList ++
          (msg.expiresAt.map fun exp => ["exp", showInt exp]).toList ++
          (msg.replyTo.map fun reply => ["reply", reply]).toList }

def parseMessageEvent (event : Event) :
    Except ProtocolError (NqMessage Envelope) :=
  match codec.fromJson event.content with
  | .error e => .error (.badPayload e)
  | .ok envelope => do
      let mid ← requireTag event "mid"
      let queue ← requireTag event "t"
      let traceId ← requireTag event "trace"
      .ok {
        mid := mid
        queue := queue
        traceId := traceId
        attempt := ((tagValue event "attempt").bind parseU32).getD 0
        idem := tagValue event "idem"
        envelope := envelope
        notBefore := (tagValue event "nbf").bind parseI64
        expiresAt := (tagValue event "exp").bind parseI64
        replyTo := tagValue event "reply" }

end Messages

/-! ## Lifecycle events -/

/-- The message a lifecycle event refers to. -/
structure MessageRef where
  eventId : EventId
  queue : String
  mid : String
  traceId : String
  deriving DecidableEq

def lifecycleTags (hashtag : String → String) (ref : MessageRef) :
    List (List String) :=
  [["e", ref.eventId.toHex], ["t", hashtag ref.queue], ["mid", ref.mid],
    ["trace", ref.traceId]]

def buildClaimEvent (hashtag : String → String) (ref : MessageRef)
    (leaseExpiresAt : Int) (attempt : U32) : Draft where
  kind := KIND_CLAIM
  tags := lifecycleTags hashtag ref ++
    [["lease_exp", showInt leaseExpiresAt], ["attempt", attempt.val.repr]]
  content := ""

def buildAckEvent (hashtag : String → String) (ref : MessageRef) : Draft where
  kind := KIND_ACK
  tags := lifecycleTags hashtag ref
  content := ""

def buildNackEvent (hashtag : String → String) (ref : MessageRef)
    (attempt : U32) (reason : String) : Draft where
  kind := KIND_NACK
  tags := lifecycleTags hashtag ref ++
    [["attempt", attempt.val.repr], ["reason", reason]]
  content := ""

def buildDlqEvent (hashtag : String → String) (ref : MessageRef)
    (attempt : U32) (reason : String) : Draft where
  kind := KIND_DLQ
  tags := lifecycleTags hashtag ref ++
    [["attempt", attempt.val.repr], ["reason", reason]]
  content := ""

structure ClaimInfo where
  claimer : PublicKey
  claimEventId : EventId
  createdAt : Int
  leaseExpiresAt : Int
  attempt : U32
  deriving DecidableEq

/-- Attempt number carried by an event, 0 when absent or malformed. -/
def eventAttempt (event : Event) : U32 :=
  ((tagValue event "attempt").bind parseU32).getD 0

def parseClaimEvent (event : Event) : Except ProtocolError ClaimInfo := do
  let text ← requireTag event "lease_exp"
  match parseI64 text with
  | none => .error (.badPayload "lease_exp not an integer")
  | some leaseExpiresAt =>
      .ok {
        claimer := event.pubkey
        claimEventId := event.id
        createdAt := toI64 event.createdAt.val
        leaseExpiresAt := leaseExpiresAt
        attempt := eventAttempt event }

/-- The order in which claims win: creation second, then event id text. -/
def Rank := Int ×ₗ String

instance : LinearOrder Rank :=
  @Prod.Lex.instLinearOrder Int String Int.instLinearOrder inferInstance

def ClaimInfo.rank (c : ClaimInfo) : Rank :=
  toLex (c.createdAt, c.claimEventId.toHex)

/--
The first claim in `rank` order among those whose lease is unexpired and whose
attempt is not below `minAttempt`.
-/
def claimWinner (claims : List ClaimInfo) (minAttempt : U32) (now : Int) :
    Option ClaimInfo :=
  (claims.filter fun c =>
    decide (c.leaseExpiresAt > now) && decide (c.attempt ≥ minAttempt)).argmin
      ClaimInfo.rank

def claimFilter (message : EventId) : Filter :=
  { kinds := [KIND_CLAIM], events := [message] }

def nackFilter (message : EventId) : Filter :=
  { kinds := [KIND_NACK], events := [message] }

def terminalFilter (message : EventId) : Filter :=
  { kinds := [KIND_ACK, KIND_DLQ], events := [message] }

/-- None of the queries for the message returns the event. -/
def Unrelated (message : EventId) (event : Event) : Prop :=
  (claimFilter message).matchEvent event = false ∧
    (nackFilter message).matchEvent event = false ∧
    (terminalFilter message).matchEvent event = false

instance (message : EventId) (event : Event) :
    Decidable (Unrelated message event) :=
  inferInstanceAs (Decidable (_ ∧ _ ∧ _))

/-- The claims that parse; the others are skipped. -/
def parseClaims (events : List Event) : List ClaimInfo :=
  events.filterMap fun event => (parseClaimEvent event).toOption

/-- The highest attempt among some events, 0 when there is none. -/
def maxAttempt (events : List Event) : U32 :=
  (events.map eventAttempt).foldr max 0

/-! ## What is built is what is parsed -/

section Parsing

variable {Envelope : Type} {codec : Codec Envelope} {mode : QueueMode}
  {msg : NqMessage Envelope} {draft : Draft}

structure Event.Carries (event : Event) (hashtag : String → String)
    (msg : NqMessage Envelope) : Prop where
  t : tagValue event "t" = some (hashtag msg.queue)
  mid : tagValue event "mid" = some msg.mid
  trace : tagValue event "trace" = some msg.traceId
  attempt : tagValue event "attempt" = some msg.attempt.val.repr
  idem : tagValue event "idem" = msg.idem
  nbf : tagValue event "nbf" = msg.notBefore.map showInt
  exp : tagValue event "exp" = msg.expiresAt.map showInt
  reply : tagValue event "reply" = msg.replyTo

theorem carries_of_build
    (hdraft : buildMessageEvent codec mode msg = .ok draft) (key : PublicKey)
    (createdAt : U64) (id : EventId) :
    (draft.sign key createdAt id).Carries codec.hashtag msg := by
  unfold buildMessageEvent at hdraft
  split at hdraft
  · contradiction
  · cases hdraft
    obtain ⟨mid, queue, traceId, attempt, idem, envelope, nbf, exp, reply⟩ := msg
    constructor <;> cases idem <;> cases nbf <;> cases exp <;> cases reply <;>
      rfl

/--
A message is read back as it was written, but for its queue: that is the text of
the hashtag tag.
-/
theorem parseMessageEvent_build
    (hdraft : buildMessageEvent codec mode msg = .ok draft) (key : PublicKey)
    (createdAt : U64) (id : EventId) :
    parseMessageEvent codec (draft.sign key createdAt id) =
      match codec.fromJson draft.content with
      | .error e => .error (.badPayload e)
      | .ok envelope =>
          .ok { msg with
            queue := codec.hashtag msg.queue
            envelope := envelope
            notBefore := msg.notBefore.filter fun n => decide (InI64 n)
            expiresAt := msg.expiresAt.filter fun n => decide (InI64 n) } := by
  have htags := carries_of_build hdraft key createdAt id
  have htime : ∀ n : Option Int, (n.map showInt).bind parseI64 =
      n.filter fun n => decide (InI64 n) := by
    intro n
    cases n <;> simp [parseI64, Option.filter]
  unfold parseMessageEvent
  rw [show (draft.sign key createdAt id).content = draft.content from rfl]
  cases codec.fromJson draft.content with
  | error e => rfl
  | ok envelope =>
      simp only [requireTag, htags.mid, htags.t, htags.trace, htags.attempt,
        htags.idem, htags.nbf, htags.exp, htags.reply, htime, Option.bind_some,
        parseU32_repr, Option.getD_some]
      rfl

end Parsing

@[simp] theorem eventAttempt_claim (hashtag : String → String)
    (ref : MessageRef) (lease : Int) (attempt : U32) (key : PublicKey)
    (createdAt : U64) (id : EventId) :
    eventAttempt ((buildClaimEvent hashtag ref lease attempt).sign key
      createdAt id) = attempt := by
  simp [eventAttempt, tagValue, buildClaimEvent, lifecycleTags, Draft.sign]

@[simp] theorem eventAttempt_nack (hashtag : String → String)
    (ref : MessageRef) (attempt : U32) (reason : String) (key : PublicKey)
    (createdAt : U64) (id : EventId) :
    eventAttempt ((buildNackEvent hashtag ref attempt reason).sign key
      createdAt id) = attempt := by
  simp [eventAttempt, tagValue, buildNackEvent, lifecycleTags, Draft.sign]

@[simp] theorem eventAttempt_dlq (hashtag : String → String)
    (ref : MessageRef) (attempt : U32) (reason : String) (key : PublicKey)
    (createdAt : U64) (id : EventId) :
    eventAttempt ((buildDlqEvent hashtag ref attempt reason).sign key
      createdAt id) = attempt := by
  simp [eventAttempt, tagValue, buildDlqEvent, lifecycleTags, Draft.sign]

theorem parseClaimEvent_build (hashtag : String → String) (ref : MessageRef)
    {lease : Int} (hlease : InI64 lease) (attempt : U32) (key : PublicKey)
    (createdAt : U64) (id : EventId) :
    parseClaimEvent ((buildClaimEvent hashtag ref lease attempt).sign key
      createdAt id) =
      .ok ⟨key, id, toI64 createdAt.val, lease, attempt⟩ := by
  have htag : tagValue ((buildClaimEvent hashtag ref lease attempt).sign key
      createdAt id) "lease_exp" = some (showInt lease) := by
    simp [tagValue, buildClaimEvent, lifecycleTags, Draft.sign]
  simp only [parseClaimEvent, requireTag, htag, eventAttempt_claim]
  change (match parseI64 (showInt lease) with
    | none => _
    | some leaseExpiresAt => _) = _
  rw [parseI64_showInt hlease]
  rfl

private theorem matchTag_ref (hashtag : String → String) (ref : MessageRef)
    (tags : List (List String)) :
    matchTag "e" [ref.eventId.toHex] (lifecycleTags hashtag ref ++ tags) =
      true := by
  simp [matchTag, lifecycleTags]

theorem claimFilter_build (hashtag : String → String) (ref : MessageRef)
    (lease : Int) (attempt : U32) (key : PublicKey) (createdAt : U64)
    (id : EventId) :
    (claimFilter ref.eventId).matchEvent
      ((buildClaimEvent hashtag ref lease attempt).sign key createdAt id) =
      true := by
  have := matchTag_ref hashtag ref
    [["lease_exp", showInt lease], ["attempt", attempt.val.repr]]
  simpa [Filter.matchEvent, claimFilter, Draft.sign, buildClaimEvent,
    matchTag] using this

theorem nackFilter_build (hashtag : String → String) (ref : MessageRef)
    (attempt : U32) (reason : String) (key : PublicKey) (createdAt : U64)
    (id : EventId) :
    (nackFilter ref.eventId).matchEvent
      ((buildNackEvent hashtag ref attempt reason).sign key createdAt id) =
      true := by
  have := matchTag_ref hashtag ref
    [["attempt", attempt.val.repr], ["reason", reason]]
  simpa [Filter.matchEvent, nackFilter, Draft.sign, buildNackEvent,
    matchTag] using this

theorem terminalFilter_ack (hashtag : String → String) (ref : MessageRef)
    (key : PublicKey) (createdAt : U64) (id : EventId) :
    (terminalFilter ref.eventId).matchEvent
      ((buildAckEvent hashtag ref).sign key createdAt id) = true := by
  have := matchTag_ref hashtag ref []
  simpa [Filter.matchEvent, terminalFilter, Draft.sign, buildAckEvent,
    matchTag] using this

theorem terminalFilter_dlq (hashtag : String → String) (ref : MessageRef)
    (attempt : U32) (reason : String) (key : PublicKey) (createdAt : U64)
    (id : EventId) :
    (terminalFilter ref.eventId).matchEvent
      ((buildDlqEvent hashtag ref attempt reason).sign key createdAt id) =
      true := by
  have := matchTag_ref hashtag ref
    [["attempt", attempt.val.repr], ["reason", reason]]
  simpa [Filter.matchEvent, terminalFilter, Draft.sign, buildDlqEvent,
    matchTag] using this

theorem claimFilter_kind {message : EventId} {event : Event}
    (h : (claimFilter message).matchEvent event = true) :
    event.kind = KIND_CLAIM := by
  simp only [Filter.matchEvent, claimFilter, Bool.and_eq_true] at h
  simpa using h.1.1

theorem nackFilter_kind {message : EventId} {event : Event}
    (h : (nackFilter message).matchEvent event = true) :
    event.kind = KIND_NACK := by
  simp only [Filter.matchEvent, nackFilter, Bool.and_eq_true] at h
  simpa using h.1.1

theorem parseClaimEvent_fields {event : Event} {c : ClaimInfo}
    (h : parseClaimEvent event = .ok c) :
    ∃ leaseExpiresAt, c = {
      claimer := event.pubkey
      claimEventId := event.id
      createdAt := toI64 event.createdAt.val
      leaseExpiresAt := leaseExpiresAt
      attempt := eventAttempt event } := by
  unfold parseClaimEvent at h
  cases htag : requireTag event "lease_exp" with
  | error e =>
      rw [htag] at h
      contradiction
  | ok text =>
      rw [htag] at h
      change (match parseI64 text with
        | none => _
        | some _ => _) = _ at h
      split at h
      · contradiction
      · next leaseExpiresAt _ =>
          cases h
          exact ⟨leaseExpiresAt, rfl⟩

theorem parseClaimEvent_ok {event : Event} {c : ClaimInfo}
    (h : parseClaimEvent event = .ok c) :
    c.claimer = event.pubkey ∧ c.claimEventId = event.id ∧
      c.attempt = eventAttempt event := by
  obtain ⟨leaseExpiresAt, rfl⟩ := parseClaimEvent_fields h
  exact ⟨rfl, rfl, rfl⟩

theorem parseClaimEvent_createdAt {event : Event} {c : ClaimInfo}
    (h : parseClaimEvent event = .ok c) :
    c.createdAt = toI64 event.createdAt.val := by
  obtain ⟨leaseExpiresAt, rfl⟩ := parseClaimEvent_fields h
  rfl

theorem mem_parseClaims {events : List Event} {c : ClaimInfo} :
    c ∈ parseClaims events ↔
      ∃ event ∈ events, parseClaimEvent event = .ok c := by
  simp only [parseClaims, List.mem_filterMap]
  refine exists_congr fun event => and_congr_right fun _ => ?_
  cases parseClaimEvent event <;> simp [Except.toOption]

theorem claimWinner_mem {claims : List ClaimInfo} {minAttempt : U32}
    {now : Int} {c : ClaimInfo}
    (h : claimWinner claims minAttempt now = some c) :
    c ∈ claims ∧ now < c.leaseExpiresAt ∧ minAttempt ≤ c.attempt := by
  have hmem := List.argmin_mem h
  simpa using hmem

theorem claimWinner_eq_none {claims : List ClaimInfo} {minAttempt : U32}
    {now : Int} :
    claimWinner claims minAttempt now = none ↔
      ∀ c ∈ claims, now < c.leaseExpiresAt → c.attempt < minAttempt := by
  rw [claimWinner, List.argmin_eq_none, List.filter_eq_nil_iff]
  simp

@[simp] theorem parseClaims_append (first last : List Event) :
    parseClaims (first ++ last) = parseClaims first ++ parseClaims last :=
  List.filterMap_append

@[simp] theorem maxAttempt_nil : maxAttempt [] = 0 := rfl

@[simp] theorem maxAttempt_cons (event : Event) (events : List Event) :
    maxAttempt (event :: events) =
      max (eventAttempt event) (maxAttempt events) := rfl

theorem le_maxAttempt {events : List Event} {event : Event}
    (h : event ∈ events) : eventAttempt event ≤ maxAttempt events := by
  induction events with
  | nil => simp at h
  | cons first rest ih =>
      rw [maxAttempt_cons]
      rcases List.mem_cons.mp h with rfl | h
      · exact le_max_left _ _
      · exact le_trans (ih h) (le_max_right _ _)

theorem maxAttempt_attained {events : List Event} (h : 0 < maxAttempt events) :
    ∃ event ∈ events, eventAttempt event = maxAttempt events := by
  induction events with
  | nil => exact absurd h (lt_irrefl _)
  | cons first rest ih =>
      rw [maxAttempt_cons] at h ⊢
      rcases max_choice (eventAttempt first) (maxAttempt rest) with hmax | hmax
      · exact ⟨first, by simp, hmax.symm⟩
      · rw [hmax] at h ⊢
        obtain ⟨event, hmem, hevent⟩ := ih h
        exact ⟨event, by simp [hmem], hevent⟩

theorem maxAttempt_le {events : List Event} {bound : U32} :
    maxAttempt events ≤ bound ↔ ∀ event ∈ events, eventAttempt event ≤ bound := by
  constructor
  · exact fun h event hmem => le_trans (le_maxAttempt hmem) h
  · intro h
    induction events with
    | nil => exact Fin.zero_le _
    | cons first rest ih =>
        rw [maxAttempt_cons]
        exact max_le (h first (by simp))
          (ih fun event hmem => h event (by simp [hmem]))

theorem maxAttempt_append_le (first last : List Event) :
    maxAttempt first ≤ maxAttempt (first ++ last) :=
  maxAttempt_le.mpr fun _ hmem => le_maxAttempt (List.mem_append_left _ hmem)

/--
What the relay holds does not keep `key` from claiming the message at `now`: no
ack, no dead-letter event above the attempt floor, and no claim of another key
that is unexpired and of the highest nacked attempt.
-/
structure Relay.Open (relay : Relay) (key : PublicKey) (now : Int)
    (message : EventId) (floor : U32) : Prop where
  unacked : ∀ event ∈ relay.query (terminalFilter message),
    event.kind ≠ KIND_ACK
  undead : ∀ event ∈ relay.query (terminalFilter message),
    event.kind = KIND_DLQ → eventAttempt event ≤ floor
  unheld : ∀ c ∈ parseClaims (relay.query (claimFilter message)),
    now < c.leaseExpiresAt →
    maxAttempt (relay.query (nackFilter message)) ≤ c.attempt → c.claimer = key

end NostrQ.Core
