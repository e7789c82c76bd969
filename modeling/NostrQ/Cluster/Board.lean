import NostrQ.Core.Protocol
import NostrQ.Foundation.LeaseElection

/-!
# The relay as a lease board

Of all events on the relay, the claim and nack events of one message form the
board of a lease election: a claim posts itself, a nack releases the attempts
below its own.  The queries and the winner computed by a call are the
election's own notions on that board.
-/

namespace NostrQ.Cluster

open NostrQ.Foundation NostrQ.Core

/-- Claims as lease claims: the attempt is the generation. -/
def claimElection : Election ClaimInfo PublicKey Rank where
  owner := ClaimInfo.claimer
  rank := ClaimInfo.rank
  lease := ClaimInfo.leaseExpiresAt
  generation c := c.attempt.val

theorem claimWinner_eq (claims : List ClaimInfo) (minAttempt : U32)
    (now : Int) :
    claimWinner claims minAttempt now =
      claimElection.winner claims minAttempt.val now := by
  unfold claimWinner Election.winner
  refine congrArg (List.argmin ClaimInfo.rank) ?_
  refine List.filter_congr fun c _ => ?_
  rw [Bool.eq_iff_iff]
  simp only [Bool.and_eq_true, decide_eq_true_eq]
  exact Iff.rfl

def post? (message : EventId) (event : Event) :
    Option (Post ClaimInfo PublicKey) :=
  if (claimFilter message).matchEvent event then
    (parseClaimEvent event).toOption.map .claim
  else if (nackFilter message).matchEvent event then
    some (.release event.pubkey (eventAttempt event).val)
  else none

def stampedPost? (message : EventId) (accepted : Accepted) :
    Option (Stamped ClaimInfo PublicKey) :=
  (post? message accepted.event).map fun post => ⟨accepted.acceptedAt, post⟩

def board (message : EventId) (relay : Relay) : Board ClaimInfo PublicKey :=
  relay.filterMap (stampedPost? message)

variable {message : EventId}

@[simp] theorem board_nil : board message [] = [] := rfl

@[simp] theorem board_append (first last : Relay) :
    board message (first ++ last) = board message first ++ board message last :=
  List.filterMap_append

theorem board_singleton (accepted : Accepted) :
    board message [accepted] = (stampedPost? message accepted).toList := by
  cases h : stampedPost? message accepted <;> simp [board, h]

theorem mem_board {relay : Relay} {entry : Stamped ClaimInfo PublicKey} :
    entry ∈ board message relay ↔
      ∃ accepted ∈ relay, accepted.acceptedAt = entry.time ∧
        post? message accepted.event = some entry.post := by
  simp only [board, stampedPost?, List.mem_filterMap, Option.map_eq_some_iff]
  constructor
  · rintro ⟨accepted, hmem, post, hpost, rfl⟩
    exact ⟨accepted, hmem, rfl, hpost⟩
  · rintro ⟨accepted, hmem, htime, hpost⟩
    exact ⟨accepted, hmem, entry.post, hpost, by rw [htime]⟩

private theorem nack_of_claim {event : Event}
    (h : (claimFilter message).matchEvent event = true) :
    (nackFilter message).matchEvent event = false := by
  simp [Filter.matchEvent, nackFilter, claimFilter_kind h, KIND_CLAIM,
    KIND_NACK]

theorem post?_author {event : Event} {post : Post ClaimInfo PublicKey}
    (h : post? message event = some post) :
    claimElection.author post = event.pubkey := by
  unfold post? at h
  split at h
  · obtain ⟨c, hc, rfl⟩ := Option.map_eq_some_iff.mp h
    cases hparse : parseClaimEvent event with
    | error e => simp [hparse, Except.toOption] at hc
    | ok c' =>
        simp only [hparse, Except.toOption, Option.some.injEq] at hc
        exact hc ▸ (parseClaimEvent_ok hparse).1
  · split at h
    · cases h
      rfl
    · contradiction

theorem post?_claim_iff {event : Event} {c : ClaimInfo} :
    post? message event = some (.claim c) ↔
      (claimFilter message).matchEvent event = true ∧
        parseClaimEvent event = .ok c := by
  unfold post?
  split
  · next hmatch =>
      cases parseClaimEvent event <;> simp [hmatch, Except.toOption]
  · next hmatch =>
      simp only [hmatch, Bool.false_eq_true, false_and, iff_false]
      split <;> simp

theorem claims_board (relay : Relay) :
    Board.claims (board message relay) =
      parseClaims (relay.query (claimFilter message)) := by
  induction relay with
  | nil => rfl
  | cons accepted relay ih =>
      rw [← List.singleton_append, board_append, Board.claims_append,
        Relay.query_append, ih, board_singleton, parseClaims_append]
      refine congrArg (· ++ _) ?_
      unfold stampedPost? post? parseClaims
      simp only [Relay.query, List.map_cons, List.map_nil, List.filter_cons,
        List.filter_nil]
      split
      · cases hparse : (parseClaimEvent accepted.event).toOption <;>
          simp [hparse, Board.claims]
      · split <;> simp [Board.claims]

theorem released_board (relay : Relay) :
    Board.released (board message relay) =
      (relay.query (nackFilter message)).map fun event =>
        (eventAttempt event).val := by
  induction relay with
  | nil => rfl
  | cons accepted relay ih =>
      rw [← List.singleton_append, board_append, Board.released_append,
        Relay.query_append, ih, board_singleton, List.map_append]
      refine congrArg (· ++ _) ?_
      unfold stampedPost? post?
      simp only [Relay.query, List.map_cons, List.map_nil, List.filter_cons,
        List.filter_nil]
      split
      · next hclaim =>
          rw [nack_of_claim hclaim]
          cases hparse : (parseClaimEvent accepted.event).toOption <;>
            simp [Board.released]
      · split <;> simp [Board.released]

theorem generation_board (relay : Relay) :
    Board.generation (board message relay) =
      (maxAttempt (relay.query (nackFilter message))).val := by
  rw [Board.generation, released_board]
  generalize relay.query (nackFilter message) = events
  induction events with
  | nil => rfl
  | cons event events ih =>
      rw [List.map_cons, List.foldr_cons, ih, maxAttempt_cons]
      exact (Monotone.map_max (f := Fin.val) fun _ _ h => h).symm

theorem post?_unrelated {event : Event} (h : Unrelated message event) :
    post? message event = none := by
  simp [post?, h.1, h.2.1]

/-! ## What the workers publish -/

section Drafts

variable (hashtag : String → String) {ref : MessageRef} (key : PublicKey)
  (createdAt : U64) (id : EventId)

theorem post?_claim (h : ref.eventId = message) {lease : Int}
    (hlease : InI64 lease) (attempt : U32) :
    post? message ((buildClaimEvent hashtag ref lease attempt).sign key
      createdAt id) =
      some (.claim ⟨key, id, toI64 createdAt.val, lease, attempt⟩) := by
  have hmatch : (claimFilter message).matchEvent
      ((buildClaimEvent hashtag ref lease attempt).sign key createdAt id) =
      true := by
    subst h
    exact claimFilter_build hashtag ref lease attempt key createdAt id
  rw [post?, if_pos hmatch, parseClaimEvent_build hashtag ref hlease]
  rfl

theorem post?_nack (h : ref.eventId = message) (attempt : U32)
    (reason : String) :
    post? message ((buildNackEvent hashtag ref attempt reason).sign key
      createdAt id) = some (.release key attempt.val) := by
  have hclaim : (claimFilter message).matchEvent
      ((buildNackEvent hashtag ref attempt reason).sign key createdAt id) =
      false := by
    simp [Filter.matchEvent, claimFilter, Draft.sign, buildNackEvent,
      KIND_NACK, KIND_CLAIM]
  have hmatch : (nackFilter message).matchEvent
      ((buildNackEvent hashtag ref attempt reason).sign key createdAt id) =
      true := by
    subst h
    exact nackFilter_build hashtag ref attempt reason key createdAt id
  rw [post?, hclaim, if_neg (by simp), if_pos hmatch, eventAttempt_nack]
  rfl

private theorem post?_of_kind {event : Event} (hclaim : event.kind ≠ KIND_CLAIM)
    (hnack : event.kind ≠ KIND_NACK) : post? message event = none := by
  simp [post?, Filter.matchEvent, claimFilter, nackFilter, hclaim, hnack]

theorem post?_ack :
    post? message ((buildAckEvent hashtag ref).sign key createdAt id) = none :=
  post?_of_kind (by simp [Draft.sign, buildAckEvent, KIND_ACK, KIND_CLAIM])
    (by simp [Draft.sign, buildAckEvent, KIND_ACK, KIND_NACK])

theorem post?_dlq (attempt : U32) (reason : String) :
    post? message ((buildDlqEvent hashtag ref attempt reason).sign key
      createdAt id) = none :=
  post?_of_kind (by simp [Draft.sign, buildDlqEvent, KIND_DLQ, KIND_CLAIM])
    (by simp [Draft.sign, buildDlqEvent, KIND_DLQ, KIND_NACK])

end Drafts

end NostrQ.Cluster
