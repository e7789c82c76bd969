import NostrQ.Core.Protocol

/-!
# Round trips of the codec

A message event and a reply event are read back as they were built, when the
outside parts of the codec keep what they are given.
-/

namespace NostrQ.Core

open NostrQ.Foundation

section Messages

variable {Envelope : Type}

/--
The hashtag keeps the queue name as it is, and the JSON text of the envelope
reads back as that envelope.
-/
structure Codec.Keeps (codec : Codec Envelope) (msg : NqMessage Envelope) :
    Prop where
  hashtag : codec.hashtag msg.queue = msg.queue
  json : ∃ text, codec.toJson msg.envelope = .ok text ∧
    codec.fromJson text = .ok msg.envelope

structure NqMessage.Timed (msg : NqMessage Envelope) : Prop where
  notBefore : ∀ n ∈ msg.notBefore, InI64 n
  expiresAt : ∀ n ∈ msg.expiresAt, InI64 n

private theorem filter_eq_self {times : Option Int}
    (h : ∀ n ∈ times, InI64 n) :
    (times.filter fun n => decide (InI64 n)) = times := by
  cases times with
  | none => rfl
  | some n => simp [Option.filter, h n rfl]

theorem build_then_parse {codec : Codec Envelope} {msg : NqMessage Envelope}
    (mode : QueueMode) (hkeeps : codec.Keeps msg) (htimed : msg.Timed) :
    ∃ draft, buildMessageEvent codec mode msg = .ok draft ∧
      ∀ (key : PublicKey) (createdAt : U64) (id : EventId),
        parseMessageEvent codec (draft.sign key createdAt id) = .ok msg := by
  obtain ⟨text, hto, hfrom⟩ := hkeeps.json
  have hbuilds : ∃ draft, buildMessageEvent codec mode msg = .ok draft ∧
      draft.content = text := by
    unfold buildMessageEvent
    rw [hto]
    exact ⟨_, rfl, rfl⟩
  obtain ⟨draft, hdraft, hcontent⟩ := hbuilds
  refine ⟨draft, hdraft, fun key createdAt id => ?_⟩
  rw [parseMessageEvent_build hdraft, hcontent, hfrom]
  simp only [hkeeps.hashtag, filter_eq_self htimed.notBefore,
    filter_eq_self htimed.expiresAt]

theorem build_then_parse_extremes :
    let codec : Codec String := ⟨id, .ok, .ok⟩
    let msg : NqMessage String :=
      ⟨"", "jobs", "nbf", 4294967295, some "", "{}",
        some (-9223372036854775808), some 9223372036854775807, none⟩
    codec.Keeps msg ∧ msg.Timed ∧
      ∃ draft, buildMessageEvent codec .pubsub msg = .ok draft ∧
        ∀ (key : PublicKey) (createdAt : U64) (id : EventId),
          parseMessageEvent codec (draft.sign key createdAt id) = .ok msg := by
  intro codec msg
  have hkeeps : codec.Keeps msg := ⟨rfl, "{}", rfl, rfl⟩
  have htimed : msg.Timed := by
    constructor <;> intro n hn <;> cases hn <;> decide
  exact ⟨hkeeps, htimed, build_then_parse .pubsub hkeeps htimed⟩

end Messages

/-! ## Replies -/

def KIND_REPLY : Nat := 4625

/-- The payload envelope; `createdAt` is in nanoseconds. -/
structure Envelope (Value : Type) where
  version : String
  contentType : String
  body : Value
  headers : List (String × String)
  createdAt : Int
  deriving DecidableEq

variable {Value : Type}

def Envelope.new (body : Value) (now : Int) : Envelope Value where
  version := "0.1"
  contentType := "application/json"
  body := body
  headers := []
  createdAt := now

def buildReplyEvent (codec : Codec (Envelope Value)) (requestEventId : EventId)
    (requestMid : String) (requester : PublicKey) (body : Value) (now : Int) :
    Except ProtocolError Draft :=
  match codec.toJson (.new body now) with
  | .error e => .error (.badPayload e)
  | .ok content =>
      .ok {
        kind := KIND_REPLY
        content := content
        tags := [["e", requestEventId.toHex], ["p", requester.toHex],
          ["parent", requestMid]] }

structure ReplyInfo (Value : Type) where
  requestEventId : EventId
  requestMid : String
  body : Value
  deriving DecidableEq

/-- The reason a text is no event id is left out of the error. -/
def parseReplyEvent (codec : Codec (Envelope Value)) (event : Event) :
    Except ProtocolError (ReplyInfo Value) := do
  let text ← requireTag event "e"
  match Hex32.fromHex text with
  | none => .error (.badPayload "bad 'e' tag")
  | some requestEventId =>
      let requestMid ← requireTag event "parent"
      match codec.fromJson event.content with
      | .error e => .error (.badPayload e)
      | .ok envelope =>
          .ok {
            requestEventId := requestEventId
            requestMid := requestMid
            body := envelope.body }

/-- The replies to one request. -/
def replyFilter (request : EventId) : Filter :=
  { kinds := [KIND_REPLY], events := [request] }

section Replies

variable {codec : Codec (Envelope Value)} {request : EventId} {mid : String}
  {requester : PublicKey} {body : Value} {now : Int} {draft : Draft}

theorem parseReplyEvent_build
    (hdraft : buildReplyEvent codec request mid requester body now = .ok draft)
    (hjson : codec.fromJson draft.content = .ok (.new body now))
    (key : PublicKey) (createdAt : U64) (id : EventId) :
    parseReplyEvent codec (draft.sign key createdAt id) =
      .ok ⟨request, mid, body⟩ := by
  unfold buildReplyEvent at hdraft
  split at hdraft
  · contradiction
  · next content _ =>
      cases hdraft
      have htags : ∀ event : Event,
          event.tags = [["e", request.toHex], ["p", requester.toHex],
            ["parent", mid]] →
          requireTag event "e" = .ok request.toHex ∧
            requireTag event "parent" = .ok mid := by
        intro event htags
        constructor <;> simp [requireTag, tagValue, htags]
      obtain ⟨hrequest, hparent⟩ := htags
        (Draft.sign ⟨KIND_REPLY, _, content⟩ key createdAt id) rfl
      simp only [parseReplyEvent, hrequest, hparent, bind, Except.bind,
        Hex32.fromHex_toHex]
      simp only [Draft.sign] at hjson ⊢
      rw [hjson]
      rfl

end Replies

end NostrQ.Core
