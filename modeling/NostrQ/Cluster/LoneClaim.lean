import NostrQ.Cluster.Winner
import NostrQ.Sdk.TryClaim

/-!
# A claim that nobody contests

A claiming call whose relay answers at once and whose message nobody else posts
about.  Whatever the worker has posted about the message earlier, the call wins
with the claim it makes if and only if the lease of that claim is not over.
-/

namespace NostrQ.Cluster

open NostrQ.Foundation NostrQ.Core NostrQ.Database NostrQ.Sdk

structure LoneSetup where
  key : PublicKey
  hashtag : String → String
  claimId : EventId
  claimCreatedAt : U64

structure Lone where
  store : Store
  relay : Relay
  phase : ClaimPhase

namespace Lone

variable (setup : LoneSetup) (time : Nat)

/-- When the call can go on: at once, except that it sleeps until it wakes. -/
def readyAt : ClaimPhase → Nat
  | .during _ (.settling _ wakeAt) => wakeAt
  | _ => time

def withInput (c : Lone) (relay : Relay) (input : Input) : Option Lone :=
  (c.phase.step setup.key c.store input).map fun (store, phase) =>
    ⟨store, relay, phase⟩

def next (c : Lone) : Option Lone :=
  match c.phase.query? with
  | some filter => c.withInput setup c.relay (.answer (c.relay.query filter))
  | none =>
      match c.phase.publish? setup.hashtag with
      | some draft =>
          let event := draft.sign setup.key setup.claimCreatedAt setup.claimId
          c.withInput setup (c.relay ++ [⟨time, event⟩]) (.accepted time)
      | none => c.withInput setup c.relay (.proceed (readyAt time c.phase))

def run : Nat → Lone → Lone
  | 0, c => c
  | fuel + 1, c =>
      match c.next setup time with
      | none => c
      | some c' => run fuel c'

end Lone

def leaseExpiry (now : Int) (leaseSeconds : U64) : Int :=
  toI64 (now + toI64 leaseSeconds.val)

/--
The message is stored, unexpired and unsettled, and a survey finds no claim that
is still alive.
-/
structure Uncontested (s : Store) (relay : Relay) (record : MessageRecord)
    (message : EventId) (now : Int) : Prop where
  stored : ∃ row, s.row? record.mid = some row
  eventId : Hex32.fromHex record.eventId = some message
  unexpired : ∀ expiry ∈ record.expiresAt, now < expiry
  unsettled : relay.query (terminalFilter message) = []
  unclaimed : claimWinner (parseClaims (relay.query (claimFilter message)))
    (maxAttempt (relay.query (nackFilter message))) now = none

section Lone

variable {setup : LoneSetup} {time : Nat} {s : Store} {relay : Relay}
  {record : MessageRecord} {message : EventId} {settleMs : U64}

theorem enter_uncontested {now : Int}
    (h : Uncontested s relay record message now)
    (leaseSeconds settleMs : U64) :
    ClaimPhase.enter record leaseSeconds settleMs now =
      .during ⟨record, message, now, leaseExpiry now leaseSeconds, settleMs⟩
        .terminalCheck := by
  have hlive : ¬ record.expiresAt.any (fun expiry => expiry ≤ now) = true := by
    intro hany
    cases hexpiry : record.expiresAt with
    | none => simp [hexpiry] at hany
    | some expiry =>
        have hlt := h.unexpired expiry hexpiry
        simp [hexpiry] at hany
        omega
  unfold ClaimPhase.enter
  rw [if_neg hlive, h.eventId]
  rfl

theorem recheck_uncontested {claims : List ClaimInfo} {own : ClaimInfo}
    {minAttempt : U32} {now : Int}
    (hnone : claimWinner claims minAttempt now = none)
    (hattempt : minAttempt ≤ own.attempt) :
    claimWinner (claims ++ [own]) minAttempt now =
      if now < own.leaseExpiresAt then some own else none := by
  have hdead := claimWinner_eq_none.mp hnone
  split
  · next hlease =>
      rw [claimWinner_eq]
      apply Election.Leads.winner
      apply least_iff_leads.mp
      refine ⟨by simp, ⟨hlease, hattempt⟩, fun claim hmem hel hne => ?_⟩
      rcases List.mem_append.mp hmem with hold | hown
      · exact absurd hel.2 (not_le.mpr (hdead claim hold hel.1))
      · exact absurd (List.mem_singleton.mp hown) hne
  · next hlease =>
      rw [claimWinner_eq_none]
      intro claim hmem hlive
      rcases List.mem_append.mp hmem with hold | hown
      · exact hdead claim hold hlive
      · rw [List.mem_singleton.mp hown] at hlive
        exact absurd hlive hlease

def ownClaim (setup : LoneSetup) (call : ClaimCall) (observed : U32) : Event :=
  (buildClaimEvent setup.hashtag call.messageRef call.leaseExpiresAt
    (call.claimAttempt observed)).sign setup.key setup.claimCreatedAt
    setup.claimId

section Steps

variable {phase phase' : ClaimPhase}

private theorem next_query {filter : Filter}
    (hquery : phase.query? = some filter)
    (h : phase.answer setup.key (relay.query filter) = some phase') :
    Lone.next setup time ⟨s, relay, phase⟩ = some ⟨s, relay, phase'⟩ := by
  simp only [Lone.next, hquery, Lone.withInput, ClaimPhase.step, h,
    Option.map_some]

private theorem next_publish {draft : Draft} (hquery : phase.query? = none)
    (hpublish : phase.publish? setup.hashtag = some draft)
    (h : phase.accepted time = some phase') :
    Lone.next setup time ⟨s, relay, phase⟩ = some ⟨s, relay ++
      [⟨time, draft.sign setup.key setup.claimCreatedAt setup.claimId⟩],
      phase'⟩ := by
  simp only [Lone.next, hquery, hpublish, Lone.withInput, ClaimPhase.step, h,
    Option.map_some]

private theorem next_proceed {s' : Store} (hquery : phase.query? = none)
    (hpublish : phase.publish? setup.hashtag = none)
    (h : phase.proceed setup.key s (Lone.readyAt time phase) =
      some (s', phase')) :
    Lone.next setup time ⟨s, relay, phase⟩ = some ⟨s', relay, phase'⟩ := by
  simp only [Lone.next, hquery, hpublish, Lone.withInput, ClaimPhase.step, h,
    Option.map_some]

private theorem run_next {c c' : Lone} {fuel : Nat}
    (h : c.next setup time = some c') :
    Lone.run setup time (fuel + 1) c = Lone.run setup time fuel c' := by
  rw [Lone.run, h]

private theorem run_returned {c : Lone} {result : Except SdkError Bool}
    (h : c.phase = .returned result) (fuel : Nat) :
    Lone.run setup time fuel c = c := by
  cases fuel with
  | zero => rfl
  | succ fuel =>
      have hnone : c.next setup time = none := by
        unfold Lone.next
        rw [h]
        simp [ClaimPhase.query?, ClaimPhase.publish?, Lone.withInput, h,
          ClaimPhase.step, ClaimPhase.proceed]
      rw [Lone.run, hnone]

end Steps

def loneCall (record : MessageRecord) (message : EventId) (now : Int)
    (leaseSeconds settleMs : U64) : ClaimCall :=
  ⟨record, message, now, leaseExpiry now leaseSeconds, settleMs⟩

private theorem run_contending {leaseSeconds : U64} {fuel : Nat}
    (h : Uncontested s relay record message (timestamp time)) :
    Lone.run setup time (fuel + 4)
      ⟨s, relay, .entering record leaseSeconds settleMs⟩ =
    Lone.run setup time fuel ⟨s, relay, .during
      (loneCall record message (timestamp time) leaseSeconds settleMs)
      (.contending (maxAttempt (relay.query (nackFilter message))))⟩ := by
  generalize hcall : loneCall record message (timestamp time) leaseSeconds
    settleMs = call
  have hmessage : call.message = message := by rw [← hcall]; rfl
  have hnow : call.now = timestamp time := by rw [← hcall]; rfl
  have henter : Lone.next setup time
      ⟨s, relay, .entering record leaseSeconds settleMs⟩ =
      some ⟨s, relay, .during call .terminalCheck⟩ := by
    apply next_proceed rfl rfl
    have hphase := enter_uncontested h leaseSeconds settleMs
    simp only [ClaimPhase.proceed, Lone.readyAt, hphase, ← hcall, loneCall]
  have hterminal : Lone.next setup time
      ⟨s, relay, .during call .terminalCheck⟩ =
      some ⟨s, relay, .during call .surveyNacks⟩ := by
    apply next_query rfl
    rw [hmessage, h.unsettled]
    simp [ClaimPhase.answer, ClaimCall.afterTerminal, ClaimCall.dlqAttempt]
  have hnacks : Lone.next setup time ⟨s, relay, .during call .surveyNacks⟩ =
      some ⟨s, relay, .during call
        (.surveyClaims (maxAttempt (relay.query (nackFilter message))))⟩ := by
    apply next_query rfl
    rw [hmessage]
    rfl
  have hclaims : Lone.next setup time ⟨s, relay, .during call
        (.surveyClaims (maxAttempt (relay.query (nackFilter message))))⟩ =
      some ⟨s, relay, .during call
        (.contending (maxAttempt (relay.query (nackFilter message))))⟩ := by
    apply next_query rfl
    rw [hmessage]
    simp only [ClaimPhase.answer, ClaimCall.afterSurvey, hnow, h.unclaimed]
  rw [run_next henter, run_next hterminal, run_next hnacks, run_next hclaims]

theorem query_ownClaim (setup : LoneSetup) (time : Nat)
    (relay : Relay) (call : ClaimCall) (observed : U32) :
    Relay.query (relay ++ [⟨time, ownClaim setup call observed⟩])
        (claimFilter call.message) =
      relay.query (claimFilter call.message) ++ [ownClaim setup call observed] ∧
    Relay.query (relay ++ [⟨time, ownClaim setup call observed⟩])
        (nackFilter call.message) = relay.query (nackFilter call.message) := by
  constructor
  · rw [Relay.query_concat]
    have hmatch : (claimFilter call.message).matchEvent
        (ownClaim setup call observed) = true :=
      claimFilter_build _ call.messageRef _ _ _ _ _
    rw [if_pos hmatch]
  · apply Relay.query_concat_of_not
    cases hmatch : (nackFilter call.message).matchEvent
      (ownClaim setup call observed) with
    | false => rfl
    | true =>
        have hkind := nackFilter_kind hmatch
        simp [ownClaim, buildClaimEvent, Draft.sign, KIND_CLAIM, KIND_NACK]
          at hkind

private theorem run_contended {call : ClaimCall} {observed : U32} {fuel : Nat}
    {row : Row} (hrow : s.row? call.record.mid = some row)
    (hexpiry : InI64 call.leaseExpiresAt)
    (hobserved : maxAttempt (relay.query (nackFilter call.message)) = observed)
    (hnone : claimWinner (parseClaims (relay.query (claimFilter call.message)))
      observed call.now = none) :
    (Lone.run setup time (fuel + 5)
      ⟨s, relay, .during call (.contending observed)⟩).phase =
      .returned (.ok (decide (call.now < call.leaseExpiresAt))) := by
  obtain ⟨hclaims, hnacks⟩ := query_ownClaim setup time relay call observed
  generalize hseen : relay ++ [⟨time, ownClaim setup call observed⟩] = seen
    at hclaims hnacks
  have hparse : parseClaims [ownClaim setup call observed] =
      [⟨setup.key, setup.claimId, toI64 setup.claimCreatedAt.val,
        call.leaseExpiresAt, call.claimAttempt observed⟩] := by
    unfold parseClaims ownClaim
    rw [List.filterMap_cons, parseClaimEvent_build _ _ hexpiry]
    rfl
  have hpublish : Lone.next setup time
      ⟨s, relay, .during call (.contending observed)⟩ = some ⟨s, seen,
        .during call (.settling observed (time + call.settleMs.val))⟩ := by
    rw [← hseen]
    exact next_publish rfl rfl rfl
  have hwake : Lone.next setup time ⟨s, seen,
        .during call (.settling observed (time + call.settleMs.val))⟩ =
      some ⟨s, seen, .during call (.recheckClaims observed)⟩ := by
    apply next_proceed rfl rfl
    simp [ClaimPhase.proceed, Lone.readyAt]
  have hrecheck : Lone.next setup time
      ⟨s, seen, .during call (.recheckClaims observed)⟩ =
      some ⟨s, seen, .during call (.recheckNacks observed
        (parseClaims (seen.query (claimFilter call.message))))⟩ :=
    next_query rfl rfl
  have hdecide : Lone.next setup time
      ⟨s, seen, .during call (.recheckNacks observed
        (parseClaims (seen.query (claimFilter call.message))))⟩ =
      some ⟨s, seen, if call.now < call.leaseExpiresAt then
        .during call (.contendWon observed) else .returned (.ok false)⟩ := by
    apply next_query rfl
    have hattempt : observed ≤ call.claimAttempt observed := le_max_right _ _
    simp only [ClaimPhase.answer, ClaimCall.afterRecheck, hnacks, hobserved,
      max_self, hclaims, parseClaims_append, hparse]
    rw [recheck_uncontested hnone hattempt]
    by_cases hlease : call.now < call.leaseExpiresAt <;> simp [hlease]
  rw [run_next hpublish, run_next hwake, run_next hrecheck, run_next hdecide]
  by_cases hlease : call.now < call.leaseExpiresAt
  · have hfinish : Lone.next setup time
        ⟨s, seen, .during call (.contendWon observed)⟩ =
        some ⟨(s.markClaimed call.record.mid setup.key.toHex
          call.leaseExpiresAt (call.claimAttempt observed)).2, seen,
          .returned (.ok true)⟩ := by
      have hmarked : (s.markClaimed call.record.mid setup.key.toHex
          call.leaseExpiresAt (call.claimAttempt observed)).1 = .ok () :=
        Store.update_ok hrow _
      apply next_proceed rfl rfl
      simp only [ClaimPhase.proceed, ClaimPhase.finish, Option.map_some,
        returning_fst, returning_of_ok hmarked]
    simp only [hlease, if_true, decide_true]
    rw [run_next hfinish, run_returned rfl]
  · simp only [hlease, if_false, decide_false]
    rw [run_returned rfl]

/-- An uncontested call wins exactly if its own lease is not over. -/
theorem lone_claim {leaseSeconds : U64} {fuel : Nat}
    (h : Uncontested s relay record message (timestamp time))
    (hfuel : 9 ≤ fuel) :
    (Lone.run setup time fuel
      ⟨s, relay, .entering record leaseSeconds settleMs⟩).phase =
      .returned (.ok (decide
        (timestamp time < leaseExpiry (timestamp time) leaseSeconds))) := by
  obtain ⟨extra, rfl⟩ := Nat.exists_eq_add_of_le hfuel
  obtain ⟨row, hrow⟩ := h.stored
  rw [show 9 + extra = extra + 5 + 4 by omega, run_contending h]
  exact run_contended hrow (inI64_toI64 _) rfl h.unclaimed

end Lone

end NostrQ.Cluster
