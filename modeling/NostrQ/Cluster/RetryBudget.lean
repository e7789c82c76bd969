import Mathlib.Data.Fintype.Basic
import NostrQ.Cluster.Finality
import NostrQ.Cluster.LastNack
import NostrQ.Cluster.MutualExclusion

/-!
# The retry budget

No node counts the attempts of a message for all others.  What keeps the nacks
within a budget is that every nack but one's own raises the generation beyond
the claims posted before it, and that the last one is followed by a dead letter.
The budget holds in the runs in which no call waits for its nack survey between
these two publishes; the gap lets another worker contend once more.
-/

namespace NostrQ.Cluster

open NostrQ.Foundation NostrQ.Core NostrQ.Database NostrQ.Sdk NostrQ.Worker

variable {W : Type}

def nacks (D : Deployment W) (relay : Relay) : Nat :=
  (relay.query (nackFilter D.message)).length

/-- At most `limit` nacks, and no win after as many. -/
def BudgetKept (D : Deployment W) (limit : Nat) (net : Net W) : Prop :=
  nacks D net.relay ≤ limit ∧
    ∀ win ∈ net.wins, nacks D (net.relay.take win.seen) < limit

instance (D : Deployment W) (limit : Nat) (net : Net W) :
    Decidable (BudgetKept D limit net) :=
  inferInstanceAs (Decidable (_ ∧ ∀ _ ∈ _, _))

/-! ## The assumptions -/

/-- Nothing is counted yet, and every worker allows `limit` attempts. -/
structure Unspent [DecidableEq W] (D : Deployment W) (limit : U32)
    (net : Net W) : Prop extends D.Initial net where
  attempts : ∀ w row, (net.nodes w).store.row? D.mid = some row →
    row.attempts = 0
  allows : ∀ w, Allows D limit (net.nodes w).store

/-- A counted attempt whose nack has not been accepted yet. -/
def outstanding : JobPhase → Nat
  | .settling (.during _ (.nackPublishing _ _ _)) => 1
  | _ => 0

/-- The nack of a counted attempt, or its dead letter, is not accepted yet. -/
def Pending (phase : JobPhase) : Prop :=
  outstanding phase ≠ 0 ∨ Burying phase

instance : DecidablePred Pending :=
  fun _ => inferInstanceAs (Decidable (_ ∨ _))

/-- No dlq retry, and a nack that has been counted is completed. -/
def Committed (net : Net W) : Action W → Prop
  | .retry _ => False
  | .fail w => ∀ job ∈ (net.nodes w).job, ¬ Pending job.phase
  | .drop w => ∀ job ∈ (net.nodes w).job, ¬ Pending job.phase
  | _ => True

instance (net : Net W) (a : Action W) : Decidable (Committed net a) :=
  match a with
  | .retry _ => instDecidableFalse
  | .fail _ | .drop _ => inferInstanceAs (Decidable (∀ _ ∈ _, _))
  | .advance _ | .other _ | .fetch _ _ | .proceed _ | .query _
  | .publish _ _ _ | .handle _ _ | .lose _ _ _ | .sweep _ _ =>
      instDecidableTrue

def Diligent (D : Deployment W) (net : Net W) (a : Action W) : Prop :=
  Orderly D net a ∧ Committed net a

instance (D : Deployment W) (net : Net W) (a : Action W) :
    Decidable (Diligent D net a) :=
  inferInstanceAs (Decidable (_ ∧ _))

/--
A call's wait for its nack survey and a nack call's way from its last nack to
its dead letter do not overlap: neither ends while the other goes on.
-/
def Apart (net : Net W) : Action W → Prop
  | .query w => Surveys net w → ∀ v, ¬ Buries net v
  | .publish w _ _ => Buries net w → ∀ v, ¬ Surveys net v
  | _ => True

instance [Fintype W] (net : Net W) (a : Action W) : Decidable (Apart net a) :=
  match a with
  | .query _ | .publish _ _ _ => inferInstanceAs (Decidable (_ → ∀ _, ¬ _))
  | .advance _ | .other _ | .fetch _ _ | .proceed _ | .handle _ _ | .fail _
  | .lose _ _ _ | .drop _ | .sweep _ _ | .retry _ => instDecidableTrue

/--
Once `limit` nacks are accepted, a claim survey elects no own claim whose lease
has run out since the call read its clock.
-/
def RecognisesLive (D : Deployment W) (limit : U32) (net : Net W) (w : W) :
    JobPhase → Prop
  | .claiming (.during call (.surveyClaims observed)) =>
      nacks D net.relay < limit.val ∨
        ∀ c ∈ claimWinner
          (parseClaims (net.relay.query (claimFilter D.message))) observed
          call.now,
          c.claimer = D.key w → timestamp net.time < c.leaseExpiresAt
  | _ => True

instance (D : Deployment W) (limit : U32) (net : Net W) (w : W)
    (phase : JobPhase) : Decidable (RecognisesLive D limit net w phase) := by
  unfold RecognisesLive
  split <;> infer_instance

/-- Diligent runs without a survey in the gap. -/
def Budgeted (D : Deployment W) (limit : U32) (net : Net W)
    (a : Action W) : Prop :=
  Diligent D net a ∧ Apart net a ∧
    match a with
    | .query w => ∀ job ∈ (net.nodes w).job,
        RecognisesLive D limit net w job.phase
    | _ => True

instance [Fintype W] (D : Deployment W) (limit : U32) (net : Net W)
    (a : Action W) : Decidable (Budgeted D limit net a) :=
  match a with
  | .query _ => inferInstanceAs (Decidable (_ ∧ _ ∧ ∀ _ ∈ _, _))
  | .advance _ | .other _ | .fetch _ _ | .proceed _ | .publish _ _ _
  | .handle _ _ | .fail _ | .lose _ _ _ | .drop _ | .sweep _ _ | .retry _ =>
      inferInstanceAs (Decidable (_ ∧ _ ∧ True))

/-! ## The relay -/

section Relay

variable (D : Deployment W) (limit : Nat)

structure RelayBudget (relay : Relay) : Prop where
  generation : Board.generation (board D.message relay) = nacks D relay
  within : nacks D relay ≤ limit
  claims : ∀ c ∈ Board.claims (board D.message relay),
    c.attempt.val < limit ∧ c.attempt.val ≤ nacks D relay
  dlqs : ∀ accepted ∈ relay,
    (terminalFilter D.message).matchEvent accepted.event = true →
    accepted.event.kind = KIND_DLQ →
    1 ≤ (eventAttempt accepted.event).val ∧
      (eventAttempt accepted.event).val ≤ nacks D relay

variable {D limit} {relay : Relay} {accepted : Accepted}

theorem nacks_eq (relay : Relay) :
    nacks D relay = (Board.released (board D.message relay)).length := by
  rw [released_board, List.length_map]
  rfl

theorem nacks_push :
    nacks D (relay ++ [accepted]) = nacks D relay +
      (Board.released (stampedPost? D.message accepted).toList).length := by
  rw [nacks_eq, nacks_eq, board_append, Board.released_append,
    List.length_append, board_singleton]

def DlqSpent (D : Deployment W) (spent : Nat) (event : Event) : Prop :=
  (terminalFilter D.message).matchEvent event = true →
    event.kind = KIND_DLQ →
    1 ≤ (eventAttempt event).val ∧ (eventAttempt event).val ≤ spent

private theorem RelayBudget.dlqs_push (h : RelayBudget D limit relay)
    (hdlq : DlqSpent D (nacks D relay) accepted.event) :
    ∀ x ∈ relay ++ [accepted],
      DlqSpent D (nacks D (relay ++ [accepted])) x.event := by
  have hle : nacks D relay ≤ nacks D (relay ++ [accepted]) := by
    rw [nacks_push]
    exact Nat.le_add_right _ _
  intro x hx hmatch hkind
  rcases List.mem_append.mp hx with hold | hnew
  · exact ⟨(h.dlqs x hold hmatch hkind).1,
      (h.dlqs x hold hmatch hkind).2.trans hle⟩
  · rw [List.mem_singleton.mp hnew] at hmatch hkind ⊢
    exact ⟨(hdlq hmatch hkind).1, (hdlq hmatch hkind).2.trans hle⟩

private theorem RelayBudget.pushSilent (h : RelayBudget D limit relay)
    (hentry : stampedPost? D.message accepted = none)
    (hdlq : DlqSpent D (nacks D relay) accepted.event) :
    RelayBudget D limit (relay ++ [accepted]) := by
  have hboard : board D.message (relay ++ [accepted]) =
      board D.message relay := by
    rw [board_append, board_singleton, hentry]
    simp
  have hnacks : nacks D (relay ++ [accepted]) = nacks D relay := by
    rw [nacks_eq, nacks_eq, hboard]
  exact ⟨by rw [hboard, hnacks, h.generation], hnacks ▸ h.within,
    by rw [hboard, hnacks]; exact h.claims, h.dlqs_push hdlq⟩

private theorem RelayBudget.pushClaim {time : Nat} {c : ClaimInfo}
    (h : RelayBudget D limit relay)
    (hentry : stampedPost? D.message accepted = some ⟨time, .claim c⟩)
    (hlimit : c.attempt.val < limit) (hspent : c.attempt.val ≤ nacks D relay)
    (hdlq : DlqSpent D (nacks D relay) accepted.event) :
    RelayBudget D limit (relay ++ [accepted]) := by
  have hnacks : nacks D (relay ++ [accepted]) = nacks D relay := by
    rw [nacks_push, hentry]
    rfl
  refine ⟨?_, hnacks ▸ h.within, ?_, h.dlqs_push hdlq⟩
  · rw [board_append, board_singleton, hentry, Board.generation_append,
      h.generation, hnacks]
    exact Nat.max_zero _
  · rw [board_append, board_singleton, hentry, Board.claims_append, hnacks]
    intro c' hc'
    rcases List.mem_append.mp hc' with hold | hnew
    · exact h.claims c' hold
    · have heq : c' = c := by simpa [Board.claims] using hnew
      exact heq ▸ ⟨hlimit, hspent⟩

private theorem RelayBudget.pushNack {time : Nat} {who : PublicKey}
    (h : RelayBudget D limit relay)
    (hentry : stampedPost? D.message accepted =
      some ⟨time, .release who (nacks D relay + 1)⟩)
    (hlimit : nacks D relay < limit)
    (hdlq : DlqSpent D (nacks D relay) accepted.event) :
    RelayBudget D limit (relay ++ [accepted]) := by
  have hnacks : nacks D (relay ++ [accepted]) = nacks D relay + 1 := by
    rw [nacks_push, hentry]
    rfl
  refine ⟨?_, hnacks ▸ hlimit, ?_, h.dlqs_push hdlq⟩
  · rw [board_append, board_singleton, hentry, Board.generation_append,
      h.generation, hnacks]
    simp [Board.generation, Board.released]
  · rw [board_append, board_singleton, hentry, Board.claims_append, hnacks]
    intro c hc
    have hold : c ∈ Board.claims (board D.message relay) := by
      simpa [Board.claims] using hc
    exact ⟨(h.claims c hold).1, (h.claims c hold).2.trans (Nat.le_succ _)⟩

theorem RelayBudget.maxAttempt_eq (h : RelayBudget D limit relay) :
    (maxAttempt (relay.query (nackFilter D.message))).val = nacks D relay := by
  rw [← generation_board, h.generation]

theorem RelayBudget.dlqAttempt_le (h : RelayBudget D limit relay) :
    (ClaimCall.dlqAttempt (relay.query (terminalFilter D.message))).val ≤
      nacks D relay := by
  rw [← h.maxAttempt_eq, ← Fin.le_def]
  refine maxAttempt_le.mpr fun event hevent => ?_
  obtain ⟨hmem, hkind⟩ := List.mem_filter.mp hevent
  obtain ⟨hmatch, accepted, haccepted, rfl⟩ := Relay.mem_query.mp hmem
  rw [Fin.le_def, h.maxAttempt_eq]
  exact (h.dlqs accepted haccepted hmatch (by simpa using hkind)).2

theorem nacks_mono (relay more : Relay) :
    nacks D relay ≤ nacks D (relay ++ more) := by
  simp [nacks, Relay.query_append]

end Relay

/-! ## The nodes -/

section Nodes

variable (D : Deployment W) (limit spent : Nat)

def RowSpent (s : Store) (bound : Nat) : Prop :=
  ∀ row, s.row? D.mid = some row → row.attemptFloor = 0 ∧
    (row.attempts < 4294967296 → row.attempts ≤ bound)

def HeldAt (held : Option (Win W)) (attempt : Nat) : Prop :=
  ∀ win ∈ held, win.claim.attempt.val ≤ attempt

def StageSpent (call : ClaimCall) (held : Option (Win W)) :
    ClaimStage → Prop
  | .dlqObserved attempt => attempt.val ≤ spent
  | .surveyClaims observed | .contending observed | .settling observed _
  | .recheckClaims observed | .recheckNacks observed _ =>
      (call.claimAttempt observed).val < limit ∧
        (call.claimAttempt observed).val ≤ spent
  | .recognised winner =>
      winner.attempt.val ≤ spent ∧ HeldAt held winner.attempt.val
  | .contendWon observed =>
      (call.claimAttempt observed).val ≤ spent ∧
        HeldAt held (call.claimAttempt observed).val
  | _ => True

def Marked (s : Store) (held : Option (Win W)) : Prop :=
  ∀ row, s.row? D.mid = some row → HeldAt held row.attempts

def PhaseSpent (s : Store) (held : Option (Win W)) : JobPhase → Prop
  | .claiming (.during call stage) => StageSpent limit spent call held stage
  | .settling (.during _ (.nackPublishing _ _ attempts)) =>
      attempts.val ≤ spent + 1 ∧
        ∀ win ∈ held, win.claim.attempt.val < attempts.val
  | .settling (.during _ (.dlqPublishing _ attempts)) =>
      1 ≤ attempts.val ∧ attempts.val ≤ spent
  | phase => Holding phase → Marked D s held

structure JobSpent (s : Store) (held : Option (Win W)) (job : Job) :
    Prop where
  row : RowSpent D s (spent + outstanding job.phase)
  attempts : job.record.attempts.val ≤ spent
  floor : job.record.attemptFloor = 0
  phase : PhaseSpent D limit spent s held job.phase

structure NodeSpent (node : Node W) : Prop where
  idle : node.job = none → RowSpent D node.store spent
  job : ∀ job, node.job = some job →
    JobSpent D limit spent node.store node.history.held job

variable {D limit spent} {s s' : Store} {held : Option (Win W)} {job : Job}

theorem RowSpent.mono {bound bound' : Nat} (h : RowSpent D s bound)
    (hle : bound ≤ bound') : RowSpent D s bound' := fun row hrow =>
  ⟨(h row hrow).1, fun hdecodes => ((h row hrow).2 hdecodes).trans hle⟩

theorem RowSpent.moves {bound bound' : Nat} {mid : String}
    {change : Progress → Progress} (h : RowSpent D s bound)
    (hmoves : s.Moves s' mid change) (hle : bound ≤ bound')
    (hfloor : ∀ p, (change p).attemptFloor = p.attemptFloor)
    (hattempts : ∀ p, (p.attempts < 4294967296 → p.attempts ≤ bound) →
      (change p).attempts < 4294967296 → (change p).attempts ≤ bound') :
    RowSpent D s' bound' := by
  intro row' hrow'
  rw [hmoves D.mid] at hrow'
  split at hrow'
  · obtain ⟨row, hrow, rfl⟩ := Option.map_eq_some_iff.mp hrow'
    exact ⟨(hfloor _).trans (h row hrow).1, hattempts _ (h row hrow).2⟩
  · exact h.mono hle row' hrow'

private theorem RowSpent.still {bound : Nat} {mid : String}
    {change : Progress → Progress} (h : RowSpent D s bound)
    (hmoves : s.Moves s' mid change)
    (hfloor : ∀ p, (change p).attemptFloor = p.attemptFloor)
    (hattempts : ∀ p, (change p).attempts = p.attempts) :
    RowSpent D s' bound :=
  h.moves hmoves le_rfl hfloor fun p hp => by rwa [hattempts p]

private theorem RowSpent.raise {bound : Nat} {mid : String} {attempt : U32}
    {change : Progress → Progress} (h : RowSpent D s bound)
    (hmoves : s.Moves s' mid change) (hle : attempt.val ≤ bound)
    (hfloor : ∀ p, (change p).attemptFloor = p.attemptFloor)
    (hattempts : ∀ p, (change p).attempts = max p.attempts attempt.val) :
    RowSpent D s' bound := by
  refine h.moves hmoves le_rfl hfloor fun p hp hlt => ?_
  rw [hattempts p] at hlt ⊢
  exact max_le (hp (lt_of_le_of_lt (le_max_left _ _) hlt)) hle

theorem RowSpent.expireDue {bound : Nat} (h : RowSpent D s bound)
    (queue : String) (now : Int) : RowSpent D (s.expireDue queue now).2 bound := by
  intro row' hrow'
  rw [Store.expireDue_row?] at hrow'
  obtain ⟨row, hrow, rfl⟩ := Option.map_eq_some_iff.mp hrow'
  split <;> exact h row hrow

theorem Marked.expireDue (h : Marked D s held) (queue : String) (now : Int) :
    Marked D (s.expireDue queue now).2 held := by
  intro row' hrow'
  rw [Store.expireDue_row?] at hrow'
  obtain ⟨row, hrow, rfl⟩ := Option.map_eq_some_iff.mp hrow'
  split <;> exact h row hrow

theorem Marked.claim {consumer : String} {lease : Int} {attempt : U32}
    (hheld : HeldAt held attempt.val)
    (hmoves : s.Moves s' D.mid fun p => p.claim consumer lease attempt) :
    Marked D s' held := by
  intro row' hrow'
  obtain ⟨row, -, rfl⟩ := hmoves.moved hrow'
  exact fun win hwin => (hheld win hwin).trans (le_max_right _ _)

/-! ### What a job does by itself -/

private theorem JobSpent.finish {key : PublicKey} {call : ClaimCall}
    {stage : ClaimStage} {result : Except SdkError Bool}
    (h : JobSpent D limit spent s held job)
    (hphase : job.phase = .claiming (.during call stage))
    (hmid : call.record.mid = D.mid)
    (hf : ClaimPhase.Finishes key s call s' stage result) :
    JobSpent D limit spent s' held
      { job with phase := .claiming (.returned result) } := by
  have hrow := h.row
  have hfacts := h.phase
  rw [hphase] at hrow hfacts
  have lost : result ≠ .ok true →
      PhaseSpent D limit spent s' held (.claiming (.returned result)) := by
    intro hne hholding
    unfold Holding at hholding
    split at hholding <;> simp_all
  cases hf with
  | acked hmoves hne =>
      exact ⟨hrow.still hmoves (fun _ => rfl) fun _ => rfl, h.attempts,
        h.floor, lost hne⟩
  | buried hmoves hne =>
      exact ⟨hrow.raise hmoves hfacts (fun _ => rfl) fun _ => rfl, h.attempts,
        h.floor, lost hne⟩
  | recognised hmoves _ =>
      exact ⟨hrow.raise hmoves hfacts.1 (fun _ => rfl) fun _ => rfl,
        h.attempts, h.floor, fun _ => .claim hfacts.2 (hmid ▸ hmoves)⟩
  | contendWon hmoves _ =>
      exact ⟨hrow.raise hmoves hfacts.1 (fun _ => rfl) fun _ => rfl,
        h.attempts, h.floor, fun _ => .claim hfacts.2 (hmid ▸ hmoves)⟩

private theorem JobSpent.settleFinish {call : SettleCall}
    {stage : SettleStage} {result : Except SdkError Settled}
    (h : JobSpent D limit spent s held job)
    (hphase : job.phase = .settling (.during call stage))
    (hf : SettlePhase.Finishes s call s' stage) :
    JobSpent D limit spent s' held
      { job with phase := .settling (.settled result) } := by
  have hrow := h.row
  rw [hphase] at hrow
  refine ⟨?_, h.attempts, h.floor, fun hholding => hholding.elim⟩
  cases hf with
  | acked hmoves => exact hrow.still hmoves (fun _ => rfl) fun _ => rfl
  | buried hmoves => exact hrow.still hmoves (fun _ => rfl) fun _ => rfl
  | requeued hmoves => exact hrow.still hmoves (fun _ => rfl) fun _ => rfl

private theorem JobSpent.count {call : SettleCall} {reason : String}
    {config : QueueConfig} (h : JobSpent D limit spent s held job)
    (hphase : job.phase = .settling (.during call (.counting reason config)))
    (hmid : call.record.mid = D.mid) :
    JobSpent D limit spent (SettlePhase.count s call reason config).1 held
      { job with
        phase := .settling (SettlePhase.count s call reason config).2 } := by
  have hrow := h.row
  have hmarked := h.phase
  rw [hphase] at hrow hmarked
  rw [SettlePhase.count_fst]
  rcases SettlePhase.count_snd (s := s) call reason config with
    ⟨attempts, row, hread, hattempts, hnext⟩ | ⟨e, hnext, hrange⟩ <;>
    rw [hnext]
  · rw [hmid] at hread
    have hbound : row.attempts ≤ spent :=
      (hrow row hread).2 (by have := attempts.isLt; omega)
    refine ⟨?_, h.attempts, h.floor, by omega, fun win hwin => ?_⟩
    · refine hrow.moves Store.incrAttempts_moves (Nat.le_succ _)
        (fun _ => rfl) fun p hp hlt => Nat.succ_le_succ (hp ?_)
      exact lt_of_le_of_lt (Nat.le_succ _) hlt
    · have := hmarked trivial row hread win hwin
      omega
  · refine ⟨fun row hcounted => ⟨?_, fun hlt => ?_⟩, h.attempts, h.floor,
      fun hholding => hholding.elim⟩
    · rw [hmid] at hcounted
      obtain ⟨before, hbefore, rfl⟩ := Store.incrAttempts_moves.moved hcounted
      exact (hrow before hbefore).1
    · exact absurd (hrange row (hmid.symm ▸ hcounted)) (not_le.mpr hlt)

private theorem JobSpent.proceeds {key : PublicKey} {time : Nat}
    {next : JobPhase} (h : JobSpent D limit spent s held job)
    (hc : JobConcerns D job)
    (hp : Job.Proceeds key s time job job.phase s' next) :
    JobSpent D limit spent s' held { job with phase := next } := by
  have hrow := h.row
  have hfacts := h.phase
  have hconcerns := hc.phase
  generalize hphase : job.phase = phase at hp hrow hfacts hconcerns
  cases hp with
  | @claimed result =>
      unfold Job.afterClaim
      split
      · exact ⟨hrow, h.attempts, h.floor, fun _ => hfacts trivial⟩
      · exact ⟨hrow, h.attempts, h.floor, fun hholding => hholding.elim⟩
  | claim hp =>
      cases hp with
      | enter =>
          unfold ClaimPhase.enter
          split
          · exact ⟨hrow, h.attempts, h.floor, fun hholding => hholding.elim⟩
          · split
            · exact ⟨hrow, h.attempts, h.floor,
                fun hholding => hholding.elim⟩
            · exact ⟨hrow, h.attempts, h.floor, trivial⟩
      | expire =>
          exact ⟨hrow.expireDue _ _, h.attempts, h.floor,
            fun hholding => hholding.elim⟩
      | wake _ => exact ⟨hrow, h.attempts, h.floor, hfacts⟩
      | finish hf =>
          exact h.finish hphase ((congrArg _ hconcerns.1).trans hc.mid)
            (ClaimPhase.finishes hf)
  | timeout _ => exact ⟨hrow, h.attempts, h.floor, fun _ => hfacts trivial⟩
  | settled =>
      exact ⟨hrow, h.attempts, h.floor, fun hholding => hholding.elim⟩
  | settle hp =>
      cases hp with
      | ack | nack =>
          unfold SettlePhase.start
          split
          · exact ⟨hrow, h.attempts, h.floor, fun hholding => hholding.elim⟩
          · exact ⟨hrow, h.attempts, h.floor, fun _ => hfacts trivial⟩
      | configure =>
          exact ⟨hrow, h.attempts, h.floor, fun _ => hfacts trivial⟩
      | count => exact h.count hphase hconcerns.2
      | finish hf => exact h.settleFinish hphase (SettlePhase.finishes hf)

theorem StageSpent.mono {call : ClaimCall} {stage : ClaimStage} {spent' : Nat}
    (h : StageSpent limit spent call held stage) (hle : spent ≤ spent') :
    StageSpent limit spent' call held stage := by
  unfold StageSpent at h ⊢
  split
  · exact h.trans hle
  · exact ⟨h.1, h.2.trans hle⟩
  · exact ⟨h.1, h.2.trans hle⟩
  · exact ⟨h.1, h.2.trans hle⟩
  · exact ⟨h.1, h.2.trans hle⟩
  · exact ⟨h.1, h.2.trans hle⟩
  · exact ⟨h.1.trans hle, h.2⟩
  · exact ⟨h.1.trans hle, h.2⟩
  · trivial

theorem PhaseSpent.mono {phase : JobPhase} {spent' : Nat}
    (h : PhaseSpent D limit spent s held phase) (hle : spent ≤ spent') :
    PhaseSpent D limit spent' s held phase := by
  unfold PhaseSpent at h ⊢
  split
  · exact StageSpent.mono h hle
  · exact ⟨h.1.trans (Nat.succ_le_succ hle), h.2⟩
  · exact ⟨h.1, h.2.trans hle⟩
  · next hclaim hnack hdlq =>
      split at h
      · exact absurd rfl (hclaim _ _)
      · exact absurd rfl (hnack _ _ _ _)
      · exact absurd rfl (hdlq _ _ _)
      · exact h

theorem JobSpent.mono {spent' : Nat} (h : JobSpent D limit spent s held job)
    (hle : spent ≤ spent') : JobSpent D limit spent' s held job :=
  ⟨h.row.mono (Nat.add_le_add_right hle _), h.attempts.trans hle, h.floor,
    h.phase.mono hle⟩

theorem NodeSpent.mono {node : Node W} {spent' : Nat}
    (h : NodeSpent D limit spent node) (hle : spent ≤ spent') :
    NodeSpent D limit spent' node :=
  ⟨fun hidle => (h.idle hidle).mono hle, fun job hjob =>
    (h.job job hjob).mono hle⟩

theorem JobSpent.expireDue (h : JobSpent D limit spent s held job)
    (queue : String) (now : Int) :
    JobSpent D limit spent (s.expireDue queue now).2 held job := by
  refine ⟨h.row.expireDue _ _, h.attempts, h.floor, ?_⟩
  have hphase := h.phase
  generalize job.phase = phase at hphase ⊢
  unfold PhaseSpent at hphase ⊢
  split
  · exact hphase
  · exact hphase
  · exact hphase
  · next hclaim hnack hdlq =>
      split at hphase
      · exact absurd rfl (hclaim _ _)
      · exact absurd rfl (hnack _ _ _ _)
      · exact absurd rfl (hdlq _ _ _)
      · exact fun hholding => (hphase hholding).expireDue _ _

theorem JobSpent.node {store : Store} {history : History W}
    (h : JobSpent D limit spent store history.held job) :
    NodeSpent D limit spent ⟨store, some job, history⟩ :=
  ⟨by simp, fun _ heq => Option.some.inj heq ▸ h⟩

end Nodes

/-! ## The invariant -/

section Run

variable {D : Deployment W} {limit : U32} {net net' : Net W}

structure BudgetInv (D : Deployment W) (limit : U32) (net : Net W) :
    Prop where
  relay : RelayBudget D limit.val net.relay
  wins : ∀ win ∈ net.wins, win.seen ≤ net.relay.length ∧
    nacks D (net.relay.take win.seen) < limit.val
  nodes : ∀ w, NodeSpent D limit.val (nacks D net.relay) (net.nodes w)

/--
Once all attempts are spent there is a dead letter, or one is on its way, and a
call that waits for its nack survey has seen the one or waits beside the other.
-/
structure GapInv (D : Deployment W) (limit : U32) (net : Net W) : Prop where
  buried : limit.val ≤ nacks D net.relay →
    DeadLettered D net.relay ∨ ∃ v, Buries net v
  surveys : ∀ w, Surveys net w → limit.val ≤ nacks D net.relay →
    DeadLettered D (net.relay.take (net.nodes w).history.checking) ∨
      ∃ v, Buries net v

/-! ### Queries -/

/-- A nack survey outside the gap is answered before the last nack. -/
private theorem BudgetInv.before {w : W} {job : Job} {call : ClaimCall}
    (hi : BudgetInv D limit net) (hgap : GapInv D limit net)
    (hf : FinalityInv D net) (hjob : (net.nodes w).job = some job)
    (hphase : job.phase = .claiming (.during call .surveyNacks))
    (hapart : Apart net (.query w)) : nacks D net.relay < limit.val := by
  have hsurveys : Surveys net w := ⟨job, hjob, by rw [hphase]; trivial⟩
  by_contra hspent
  rcases hgap.surveys w hsurveys (not_lt.mp hspent) with
    ⟨accepted, haccepted, hmatch, hkind⟩ | ⟨v, hburies⟩
  · -- the terminal check would have stopped at this dlq event
    have hchecked := hf.jobs w job hjob (by rw [hphase]; trivial)
    have hattempt := (hchecked.unfinished accepted haccepted hmatch).2
    rw [((hi.nodes w).job job hjob).floor, Fin.le_def] at hattempt
    have hcarries := (hi.relay.dlqs accepted (List.mem_of_mem_take haccepted)
      hmatch hkind).1
    exact absurd (hcarries.trans hattempt) (by simp)
  · exact hapart hsurveys v hburies

private theorem heldAt_of_elected {w : W} {events : List Event}
    {job next : Job} {phase : ClaimPhase} {winner : ClaimInfo}
    (hphase : job.phase = .claiming phase)
    (h : phase.elected? (D.key w) events = some winner) :
    HeldAt (D.newHistory net w events job next).held winner.attempt.val := by
  have hwin : D.newWin? net w events job next =
      some (net.winOf w job ((net.nodes w).history.afterQuery net.time
        net.relay.length job next) winner) := by
    rw [Deployment.newWin?, elected?, hphase]
    dsimp only
    rw [h]
    rfl
  intro win hheld
  rw [D.newHistory_held _ _ _ _ hwin] at hheld
  cases hheld
  exact le_rfl

private theorem BudgetInv.answers {w : W} {job next : Job} {call : ClaimCall}
    {stage : ClaimStage} {after : ClaimPhase} {filter : Filter}
    (hi : BudgetInv D limit net) (hgap : GapInv D limit net)
    (hf : FinalityInv D net) (hjob : (net.nodes w).job = some job)
    (hc : JobConcerns D job) (hfacts : PhaseFacts D net w job.phase)
    (hphase : job.phase = .claiming (.during call stage))
    (hquery : (ClaimPhase.during call stage).query? = some filter)
    (ha : ClaimPhase.Answers (D.key w) (net.relay.query filter)
      (.during call stage) after)
    (hapart : Apart net (.query w))
    (hnext : next = { job with phase := .claiming after }) :
    JobSpent D limit.val (nacks D net.relay) (net.nodes w).store
      (D.newHistory net w (net.relay.query filter) job next).held next := by
  have hspent := (hi.nodes w).job job hjob
  have hrow := hspent.row
  have hstage := hspent.phase
  have hconcerns := hc.phase
  rw [hphase] at hrow hstage hconcerns hfacts
  subst hnext
  have lost : JobSpent D limit.val (nacks D net.relay) (net.nodes w).store
      (D.newHistory net w (net.relay.query filter) job
        { job with phase := .claiming (.returned (.ok false)) }).held
      { job with phase := .claiming (.returned (.ok false)) } :=
    ⟨hrow, hspent.attempts, hspent.floor, fun hholding => hholding.elim⟩
  cases ha with
  | terminal =>
      cases hquery
      rcases call.afterTerminal_cases
        (net.relay.query (terminalFilter call.message)) with
        ⟨heq, -⟩ | ⟨heq, -⟩ | ⟨heq, -⟩ <;> rw [heq]
      · exact ⟨hrow, hspent.attempts, hspent.floor, trivial⟩
      · refine ⟨hrow, hspent.attempts, hspent.floor, ?_⟩
        rw [hconcerns.2.1]
        exact hi.relay.dlqAttempt_le
      · exact ⟨hrow, hspent.attempts, hspent.floor, trivial⟩
  | nacks =>
      cases hquery
      have hbefore := hi.before hgap hf hjob hphase hapart
      have hle : (call.claimAttempt (maxAttempt (net.relay.query
          (nackFilter call.message)))).val ≤ nacks D net.relay := by
        rw [hconcerns.2.1, ClaimCall.claimAttempt, hconcerns.1]
        exact max_le hspent.attempts hi.relay.maxAttempt_eq.le
      exact ⟨hrow, hspent.attempts, hspent.floor, lt_of_le_of_lt hle hbefore,
        hle⟩
  | @claims _ observed =>
      cases hquery
      rcases call.afterSurvey_cases (D.key w) observed
        (parseClaims (net.relay.query (claimFilter call.message)))
        with ⟨winner, hwinner, howner, heq⟩ | ⟨_, -, -, heq⟩ | ⟨-, heq⟩ <;>
        rw [heq]
      · refine ⟨hrow, hspent.attempts, hspent.floor, ?_, ?_⟩
        · have hmem := (claimWinner_mem hwinner).1
          rw [hconcerns.2.1, ← claims_board] at hmem
          exact (hi.relay.claims winner hmem).2
        · exact heldAt_of_elected hphase
            (by simp [ClaimPhase.elected?, hwinner, howner])
      · exact lost
      · exact ⟨hrow, hspent.attempts, hspent.floor, hstage⟩
  | recheckClaims => exact ⟨hrow, hspent.attempts, hspent.floor, hstage⟩
  | @recheckNacks _ observed claims =>
      cases hquery
      rcases call.afterRecheck_cases (D.key w) observed
        claims
        (net.relay.query (nackFilter call.message)) with
        ⟨winner, hwinner, howner, heq⟩ | ⟨-, heq⟩ <;> rw [heq]
      · refine ⟨hrow, hspent.attempts, hspent.floor, hstage.2, ?_⟩
        have helected : (ClaimPhase.during call
            (.recheckNacks observed claims)).elected? (D.key w)
            (net.relay.query (nackFilter call.message)) = some winner := by
          simp [ClaimPhase.elected?, hwinner, howner]
        rw [hconcerns.2.1] at hwinner
        rw [← (hfacts.won hwinner howner).2.2.2]
        exact heldAt_of_elected hphase helected
      · exact lost

private theorem BudgetInv.newWin {w : W} {job next : Job}
    {call : ClaimCall} {stage : ClaimStage} {filter : Filter} {win : Win W}
    (hi : BudgetInv D limit net) (hjob : (net.nodes w).job = some job)
    (hc : JobConcerns D job) (hfacts : PhaseFacts D net w job.phase)
    (htrusted : Trusted D net win)
    (hphase : job.phase = .claiming (.during call stage))
    (hquery : (ClaimPhase.during call stage).query? = some filter)
    (hs : RecognisesLive D limit net w job.phase)
    (hwin : D.newWin? net w (net.relay.query filter) job next = some win) :
    nacks D net.relay < limit.val := by
  have hspent := ((hi.nodes w).job job hjob).phase
  have hconcerns := hc.phase
  rw [hphase] at hconcerns hfacts hs hspent
  obtain ⟨call', claim, rfl, howner, ⟨observed, hphase', hwinner⟩ |
    ⟨observed, claims, hphase', hwinner⟩⟩ := D.newWin?_cases hwin
  · cases hphase.symm.trans hphase'
    cases hquery
    rw [hconcerns.2.1] at hwinner
    refine hs.elim (fun h => h) fun hlive => ?_
    have hlease := hlive claim hwinner howner
    have hmem := (claimWinner_mem hwinner).1
    rw [← claims_board] at hmem
    rw [← hi.relay.generation]
    exact lt_of_le_of_lt (htrusted.live hlease) (hi.relay.claims claim hmem).1
  · cases hphase.symm.trans hphase'
    cases hquery
    rw [hconcerns.2.1] at hwinner
    obtain ⟨-, hgeneration, -, hattempt⟩ := hfacts.won hwinner howner
    rw [← hi.relay.generation]
    exact lt_of_le_of_lt (hattempt ▸ hgeneration) hspent.1

/-! ### Publishes -/

section Publish

variable {w : W} {job : Job} {createdAt : U64} {id : EventId}

private structure Published (D : Deployment W) (limit : U32) (net : Net W)
    (w : W) (event : Event) (next : Job) : Prop where
  relay : RelayBudget D limit.val (net.relay ++ [⟨net.time, event⟩])
  last : nacks D net.relay < limit.val →
    limit.val ≤ nacks D (net.relay ++ [⟨net.time, event⟩]) →
    Burying next.phase
  job : ∀ held, JobSpent D limit.val (nacks D (net.relay ++ [⟨net.time, event⟩]))
    (net.nodes w).store held next

private theorem BudgetInv.publishClaim {call : ClaimCall} {observed : U32}
    {wakeAt : Nat} (hg : Grounded D net) (hi : BudgetInv D limit net)
    (hjob : (net.nodes w).job = some job)
    (hphase : job.phase = .claiming (.during call (.contending observed))) :
    Published D limit net w
      ((buildClaimEvent D.hashtag call.messageRef call.leaseExpiresAt
        (call.claimAttempt observed)).sign (D.key w) createdAt id)
      { job with phase := .claiming (.during call
        (.settling observed wakeAt)) } := by
  have hspent := (hi.nodes w).job job hjob
  have hrow := hspent.row
  have hstage := hspent.phase
  have hconcerns := (hg.jobs _ _ hjob).phase
  rw [hphase] at hconcerns hstage hrow
  have hentry := claimEntry net w observed createdAt id hconcerns.2.1
    hconcerns.2.2.2
  refine ⟨hi.relay.pushClaim hentry hstage.1 hstage.2 fun _ hkind => ?_,
    fun hbefore hspent => ?_, fun held => ?_⟩
  · simp [Draft.sign, buildClaimEvent, KIND_CLAIM, KIND_DLQ] at hkind
  · rw [nacks_push, hentry] at hspent
    exact absurd hspent (not_le.mpr hbefore)
  · have hle := nacks_mono (D := D) net.relay
    exact ⟨hrow.mono (Nat.add_le_add_right (hle _) _),
      hspent.attempts.trans (hle _), hspent.floor, hstage.1,
      hstage.2.trans (hle _)⟩

private theorem BudgetInv.publishNack {call : SettleCall} {reason : String}
    {config : QueueConfig} {attempts : U32} (hg : Grounded D net)
    (hh : HoldingInv net) (he : ExclusionInv D net)
    (ha : NodeAllows D limit (net.nodes w)) (hi : BudgetInv D limit net)
    (hjob : (net.nodes w).job = some job)
    (hphase : job.phase =
      .settling (.during call (.nackPublishing reason config attempts)))
    (hin : AcceptedInTime D net w) :
    Published D limit net w
      ((buildNackEvent D.hashtag call.ref attempts reason).sign (D.key w)
        createdAt id)
      { job with
        phase := .settling (call.afterNack reason config attempts) } := by
  have hspent := (hi.nodes w).job job hjob
  have hrow := hspent.row
  have hstage := hspent.phase
  have hconcerns := (hg.jobs _ _ hjob).phase
  rw [hphase] at hconcerns hstage hrow
  obtain ⟨win, hwin⟩ := hh.holds w job hjob (by rw [hphase]; trivial)
  have hlease : timestamp net.time < win.claim.leaseExpiresAt := by
    simp only [AcceptedInTime, hjob, Option.map_some, hphase] at hin
    exact hin win hwin.held
  have htrusted := he.wins win hwin.unsettled
  obtain ⟨i, v, hwon, -⟩ := htrusted.won
  obtain ⟨t, ht⟩ := hwon.getElem?
  have hlive : nacks D net.relay ≤ win.claim.attempt.val := by
    rw [← hi.relay.generation]
    exact htrusted.live hlease
  have hlimit : nacks D net.relay < limit.val := lt_of_le_of_lt hlive
    (hi.relay.claims _ (Board.mem_claims_of_getElem? ht)).1
  have hnext : attempts.val = nacks D net.relay + 1 := by
    have := hstage.2 win hwin.held
    have := hstage.1
    omega
  have hentry : stampedPost? D.message ⟨net.time,
      (buildNackEvent D.hashtag call.ref attempts reason).sign (D.key w)
        createdAt id⟩ =
      some ⟨net.time, .release (D.key w) (nacks D net.relay + 1)⟩ := by
    rw [stampedPost?, post?_nack D.hashtag (D.key w) createdAt id hconcerns.1,
      hnext]
    rfl
  have hnacks : nacks D (net.relay ++ [⟨net.time,
      (buildNackEvent D.hashtag call.ref attempts reason).sign (D.key w)
        createdAt id⟩]) = nacks D net.relay + 1 := by
    rw [nacks_push, hentry]
    rfl
  refine ⟨hi.relay.pushNack hentry hlimit fun _ hkind => ?_,
    fun _ hlast => ?_, fun held => ?_⟩
  · simp [Draft.sign, buildNackEvent, KIND_NACK, KIND_DLQ] at hkind
  · -- the call counted from no floor, and its queue allows `limit` attempts
    have hallows := ha.job job hjob
    rw [hphase] at hallows
    obtain ⟨hfloor, hmax⟩ := hallows
    rw [hnacks, ← hnext] at hlast
    have hexhausted : config.maxAttempts ≤ call.attemptsSinceFloor attempts := by
      rw [hmax, Fin.le_def]
      simpa [SettleCall.attemptsSinceFloor, hfloor] using hlast
    rw [SettleCall.afterNack, if_pos hexhausted]
    trivial
  · rw [hnacks]
    unfold SettleCall.afterNack
    split
    · exact ⟨hrow, hspent.attempts.trans (Nat.le_succ _), hspent.floor,
        by omega, by omega⟩
    · exact ⟨hrow, hspent.attempts.trans (Nat.le_succ _), hspent.floor,
        fun hholding => hholding.elim⟩

private theorem BudgetInv.publishSilent {event : Event} {next : JobPhase}
    (hi : BudgetInv D limit net) (hjob : (net.nodes w).job = some job)
    (hnone : post? D.message event = none)
    (hdlq : DlqSpent D (nacks D net.relay) event)
    (hbefore : outstanding job.phase = 0) (hafter : outstanding next = 0)
    (hnext : ∀ held, PhaseSpent D limit.val (nacks D net.relay)
      (net.nodes w).store held next) :
    Published D limit net w event { job with phase := next } := by
  have hspent := (hi.nodes w).job job hjob
  have hrow := hspent.row
  have hle := nacks_mono (D := D) net.relay
  have hentry : stampedPost? D.message ⟨net.time, event⟩ = none := by
    rw [stampedPost?, hnone]
    rfl
  refine ⟨hi.relay.pushSilent hentry hdlq, fun hbudget hlast => ?_,
    fun held => ?_⟩
  · rw [nacks_push, hentry] at hlast
    exact absurd hlast (not_le.mpr hbudget)
  · refine JobSpent.mono ⟨?_, hspent.attempts, hspent.floor, hnext held⟩
      (hle _)
    rw [hbefore] at hrow
    rwa [hafter]

private theorem BudgetInv.publish {event : Event} {next : JobPhase}
    (hg : Grounded D net) (hh : HoldingInv net) (he : ExclusionInv D net)
    (ha : NodeAllows D limit (net.nodes w)) (hi : BudgetInv D limit net)
    (hjob : (net.nodes w).job = some job)
    (hp : D.Publishes w createdAt id net.time job event next)
    (hin : AcceptedInTime D net w) :
    Published D limit net w event { job with phase := next } := by
  cases hp with
  | claim hphase => exact hi.publishClaim hg hjob hphase
  | settle hphase hdraft haccepts =>
      cases haccepts with
      | ack =>
          cases hdraft
          exact hi.publishSilent hjob (post?_ack _ _ _ _)
            (fun _ hkind => by
              simp [Draft.sign, buildAckEvent, KIND_ACK, KIND_DLQ] at hkind)
            (by rw [hphase]; rfl) rfl fun _ hholding => hholding.elim
      | nack =>
          cases hdraft
          exact hi.publishNack hg hh he ha hjob hphase hin
      | dlq =>
          cases hdraft
          have hstage := ((hi.nodes w).job job hjob).phase
          rw [hphase] at hstage
          exact hi.publishSilent hjob (post?_dlq _ _ _ _ _ _)
            (fun _ _ => by rw [eventAttempt_dlq]; exact hstage)
            (by rw [hphase]; rfl) rfl fun _ hholding => hholding.elim

end Publish

/-! ### Steps -/

variable [DecidableEq W]

private theorem BudgetInv.of_step {a : Action W} (hi : BudgetInv D limit net)
    (h : D.Step net a net') (hrelay : RelayBudget D limit net'.relay)
    (hwins : ∀ win ∈ net'.wins, win ∈ net.wins ∨
      (win.seen = net.relay.length ∧ nacks D net.relay < limit.val))
    (hown : ∀ w, a.actor = some w →
      NodeSpent D limit.val (nacks D net'.relay) (net'.nodes w)) :
    BudgetInv D limit net' := by
  obtain ⟨more, hmore⟩ := h.relay_grows
  refine ⟨hrelay, fun win hwin => ?_, fun w => ?_⟩
  · rw [hmore, List.length_append]
    rcases hwins win hwin with hold | ⟨hseen, hlimit⟩
    · obtain ⟨hle, hlimit⟩ := hi.wins win hold
      exact ⟨by omega, by rwa [List.take_append_of_le_length hle]⟩
    · exact ⟨by omega, by rwa [hseen, List.take_left]⟩
  · by_cases ha : a.actor = some w
    · exact hown w ha
    · rw [(h.frame ha).node, hmore]
      exact (hi.nodes w).mono (nacks_mono _ _)

private theorem BudgetInv.setNode {a : Action W} {node : Node W}
    (hi : BudgetInv D limit net) (h : D.Step net a (net.setNode w node))
    (ha : a.actor = some w)
    (hnode : NodeSpent D limit.val (nacks D net.relay) node) :
    BudgetInv D limit (net.setNode w node) := by
  refine hi.of_step h hi.relay (fun win hwin => Or.inl hwin) fun w' ha' => ?_
  cases ha.symm.trans ha'
  rwa [Net.setNode_self]

theorem BudgetInv.step {a : Action W} (hg : Grounded D net)
    (hh : HoldingInv net) (hr : Rested D net) (he : ExclusionInv D net)
    (hf : FinalityInv D net) (ha : ∀ w, NodeAllows D limit (net.nodes w))
    (hi : BudgetInv D limit net) (hgap : GapInv D limit net)
    (hb : Budgeted D limit net a) (h : D.Step net a net') :
    BudgetInv D limit net' := by
  obtain ⟨⟨horderly, hcommitted⟩, hapart, hsurveys⟩ := hb
  have old : ∀ {wins : List (Win W)}, wins = net.wins → ∀ win ∈ wins,
      win ∈ net.wins ∨
        (win.seen = net.relay.length ∧ nacks D net.relay < limit.val) :=
    fun heq win hwin => Or.inl (heq ▸ hwin)
  have hstep := h
  cases h with
  | advance => exact hi.of_step hstep hi.relay (old rfl) (by simp [Action.actor])
  | other hunrelated _ =>
      refine hi.of_step hstep (hi.relay.pushSilent ?_ fun hmatch => ?_)
        (old rfl) (by simp [Action.actor])
      · rw [stampedPost?, post?_unrelated hunrelated]
        rfl
      · rw [hunrelated.2.2] at hmatch
        contradiction
  | @fetch v lease record hidle hget =>
      refine hi.setNode hstep rfl ?_
      have hrow := (hi.nodes _).idle hidle
      obtain ⟨row, hread, hshows⟩ := Store.getMessage_shows hget
      have hbound := (hrow row hread).2
        (hshows.attempts ▸ record.attempts.isLt)
      refine JobSpent.node ⟨hrow, hshows.attempts.trans_le hbound, ?_,
        fun hholding => hholding.elim⟩
      exact Fin.ext (hshows.attemptFloor.trans (hrow row hread).1)
  | proceed hjob hproceeds =>
      refine hi.setNode hstep rfl ?_
      have hnode := ((hi.nodes _).job _ hjob).proceeds (hg.jobs _ _ hjob)
        hproceeds
      refine JobSpent.node ?_
      unfold History.afterProceed
      split <;> exact hnode
  | @query v job phase after filter hjob hphase hquery hanswers =>
      obtain ⟨call, stage, rfl⟩ := hanswers.during
      have hs : RecognisesLive D limit net v job.phase := hsurveys job hjob
      refine hi.of_step hstep (by simpa using hi.relay) (fun win hwin => ?_)
        fun w ha => ?_
      · rw [D.answered_wins] at hwin
        refine (List.mem_append.mp hwin).imp_right fun hnew => ?_
        have hnew := Option.mem_toList.mp hnew
        refine ⟨?_, hi.newWin hjob (hg.jobs _ _ hjob) (he.jobs _ _ hjob)
          (he.newWin hg hr hjob hphase hquery hanswers hnew) hphase hquery hs
          hnew⟩
        obtain ⟨claim, -, rfl⟩ := Option.map_eq_some_iff.mp hnew
        rfl
      · cases ha
        rw [D.answered_self, D.answered_relay]
        exact (hi.answers hgap hf hjob (hg.jobs _ _ hjob) (he.jobs _ _ hjob)
          hphase hquery hanswers hapart rfl).node
  | publish hjob hpublishes _ =>
      have hpublished := hi.publish hg hh he (ha _) hjob hpublishes horderly
      refine hi.of_step hstep (by simpa using hpublished.relay)
        (old (by simp)) fun w ha => ?_
      cases ha
      rw [Net.published_self, Net.published_relay]
      exact (hpublished.job _).node
  | @handle v outcome job current deadline hjob hphase =>
      refine hi.setNode hstep rfl ?_
      have hspent := (hi.nodes v).job _ hjob
      have hrow := hspent.row
      have hmarked := hspent.phase
      rw [hphase] at hrow hmarked
      refine JobSpent.node ?_
      unfold History.afterProceed
      rw [hphase]
      cases outcome <;>
        exact ⟨hrow, hspent.attempts, hspent.floor, fun _ => hmarked trivial⟩
  | failClaim hjob hphase _ =>
      refine hi.setNode hstep rfl ?_
      have hspent := (hi.nodes _).job _ hjob
      have hrow := hspent.row
      rw [hphase] at hrow
      exact JobSpent.node ⟨hrow, hspent.attempts, hspent.floor,
        fun hholding => hholding.elim⟩
  | failSettle hjob hphase =>
      refine hi.setNode hstep rfl ?_
      have hspent := (hi.nodes _).job _ hjob
      have hrow := hspent.row
      rw [not_not.mp fun hne => hcommitted _ hjob (Or.inl hne)] at hrow
      exact JobSpent.node ⟨hrow, hspent.attempts, hspent.floor,
        fun hholding => hholding.elim⟩
  | lose => exact horderly.elim
  | @drop v =>
      refine hi.setNode hstep rfl ?_
      refine ⟨fun _ => ?_, by simp⟩
      cases hjob : (net.nodes v).job with
      | none => exact (hi.nodes v).idle hjob
      | some job =>
          have hrow := ((hi.nodes v).job job hjob).row
          rwa [not_not.mp fun hne => hcommitted job hjob (Or.inl hne)] at hrow
  | @sweep v queue =>
      refine hi.setNode hstep rfl ?_
      exact ⟨fun hidle => ((hi.nodes v).idle hidle).expireDue _ _,
        fun job hjob => ((hi.nodes v).job job hjob).expireDue _ _⟩
  | retry => exact hcommitted.elim

/-! ### The gap -/

/-- Whoever has its nack accepted as the last one goes on to the dead letter. -/
private theorem BudgetInv.last {a : Action W} (hg : Grounded D net)
    (hh : HoldingInv net) (he : ExclusionInv D net)
    (ha : ∀ w, NodeAllows D limit (net.nodes w)) (hi : BudgetInv D limit net)
    (horderly : Orderly D net a) (h : D.Step net a net')
    (hbefore : nacks D net.relay < limit.val)
    (hspent : limit.val ≤ nacks D net'.relay) : ∃ v, Buries net' v := by
  have quiet : net'.relay = net.relay → ∃ v, Buries net' v := fun hrelay =>
    absurd (hrelay ▸ hspent) (not_le.mpr hbefore)
  cases h with
  | @publish w createdAt id job event phase hjob hp =>
      have hpublished := hi.publish hg hh he (ha w) hjob hp horderly
      rw [Net.published_relay] at hspent
      exact ⟨w, _, by rw [Net.published_self]; rfl,
        hpublished.last hbefore hspent⟩
  | @other event hunrelated =>
      have hentry : stampedPost? D.message ⟨net.time, event⟩ = none := by
        rw [stampedPost?, post?_unrelated hunrelated]
        rfl
      have hsame : nacks D (net.accept event).relay = nacks D net.relay := by
        rw [Net.accept, nacks_push, hentry]
        rfl
      exact absurd (hsame ▸ hspent) (not_le.mpr hbefore)
  | lose => exact horderly.elim
  | query => exact quiet (D.answered_relay ..)
  | advance | fetch | proceed | handle | failClaim | failSettle | drop | sweep
  | retry => exact quiet rfl

private theorem buries_step {a : Action W} {v : W} (hg : Grounded D net)
    (hb : Budgeted D limit net a) (h : D.Step net a net')
    (hburies : Buries net v) :
    Buries net' v ∨ DeadLettered D net'.relay ∧ ∀ w, ¬ Surveys net w := by
  obtain ⟨⟨horderly, hcommitted⟩, hapart, -⟩ := hb
  obtain ⟨job, hjob, hburying⟩ := hburies
  have hcases := h.buries hg ⟨job, hjob, hburying⟩
    (by rintro rfl; exact hcommitted job hjob (Or.inr hburying))
    (by rintro rfl; exact hcommitted job hjob (Or.inr hburying))
    (by rintro createdAt id rfl; exact horderly)
  refine hcases.imp_right ?_
  rintro ⟨⟨createdAt, id, rfl⟩, hletter⟩
  exact ⟨hletter, hapart ⟨job, hjob, hburying⟩⟩

theorem GapInv.step {a : Action W} (hg : Grounded D net) (hf : FinalityInv D net)
    (hgap : GapInv D limit net) (hb : Budgeted D limit net a)
    (h : D.Step net a net')
    (hlast : nacks D net.relay < limit.val →
      limit.val ≤ nacks D net'.relay → ∃ v, Buries net' v) :
    GapInv D limit net' where
  buried hspent := by
    by_cases hbefore : nacks D net.relay < limit.val
    · exact Or.inr (hlast hbefore hspent)
    · obtain ⟨more, hmore⟩ := h.relay_grows
      rcases hgap.buried (not_lt.mp hbefore) with hletter | ⟨v, hburies⟩
      · exact Or.inl (hmore ▸ hletter.mono more)
      · rcases buries_step hg hb h hburies with hstill | ⟨hletter, -⟩
        · exact Or.inr ⟨v, hstill⟩
        · exact Or.inl hletter
  surveys w hsurveys hspent := by
    by_cases hbefore : nacks D net.relay < limit.val
    · exact Or.inr (hlast hbefore hspent)
    · obtain ⟨more, hmore⟩ := h.relay_grows
      rcases h.surveys hsurveys with ⟨hold, hchecking⟩ |
        ⟨hrelay, hchecking, hactor, hnot⟩
      · have hle : (net.nodes w).history.checking ≤ net.relay.length := by
          obtain ⟨job, hjob, hsurveying⟩ := hold
          refine (hf.jobs w job hjob ?_).le
          unfold Surveying at hsurveying
          split at hsurveying
          · next heq =>
              rw [heq]
              trivial
          · exact hsurveying.elim
        rcases hgap.surveys w hold (not_lt.mp hbefore) with
          hletter | ⟨v, hburies⟩
        · left
          rw [hchecking, hmore, List.take_append_of_le_length hle]
          exact hletter
        · rcases buries_step hg hb h hburies with hstill | ⟨-, hnone⟩
          · exact Or.inr ⟨v, hstill⟩
          · exact absurd hold (hnone w)
      · rcases hgap.buried (not_lt.mp hbefore) with hletter | ⟨v, hburies⟩
        · left
          rw [hchecking, hrelay, List.take_length]
          exact hletter
        · have hv : a.actor ≠ some v := by
            intro hsame
            cases hactor.symm.trans hsame
            exact hnot hburies
          obtain ⟨job, hjob, hburying⟩ := hburies
          exact Or.inr ⟨v, job, by rwa [(h.frame hv).node], hburying⟩

/-! ### Every run -/

theorem Unspent.budgetInv (h : Unspent D limit net) : BudgetInv D limit net where
  relay := by
    rw [h.relay]
    exact ⟨rfl, Nat.zero_le _, by simp [Board.claims], by simp⟩
  wins := by simp [h.wins]
  nodes w := by
    refine ⟨fun _ row hrow => ?_, fun job hjob => ?_⟩
    · exact ⟨(h.allows w row hrow).1,
        fun _ => (h.attempts w row hrow) ▸ Nat.zero_le _⟩
    · simp [h.idle w] at hjob

theorem Unspent.gapInv (h : Unspent D limit net) (hlimit : 0 < limit) :
    GapInv D limit net where
  buried hspent := by
    rw [h.relay] at hspent
    exact absurd hspent (not_le.mpr (Fin.lt_def.mp hlimit))
  surveys w hsurveys := by
    obtain ⟨job, hjob, -⟩ := hsurveys
    simp [h.idle w] at hjob

theorem budgetInv (hlimit : 0 < limit)
    (h : (D.system.startingIn (Unspent D limit)).Reach
      (Budgeted D limit) net) : BudgetInv D limit net ∧ GapInv D limit net := by
  refine h.invariant (I := fun net => BudgetInv D limit net ∧ GapInv D limit net)
    (fun _ h₀ => ⟨h₀.budgetInv, h₀.gapInv hlimit⟩) ?_
  intro net a net' hreach ⟨hi, hgap⟩ hb hs
  have hr : D.system.Reach (Budgeted D limit) net :=
    hreach.restart fun _ h₀ => h₀.toInitial
  have hg := grounded hr
  have hf := finalityInv hr
  have hh := holding hr
  have he := exclusionInv (hr.mono fun _ _ h => h.1.1)
  have ha : ∀ w, NodeAllows D limit (net.nodes w) := nodeAllows hreach
    (fun _ h₀ => ⟨h₀.toInitial, h₀.allows⟩) fun _ _ hp => hp.1.2
  have hstep := Deployment.step_cases hs
  exact ⟨hi.step hg hh (rested (fun _ _ h => h.1.1.uncut) hr) he hf ha hgap hb
    hstep, hgap.step hg hf hb hstep (hi.last hg hh he ha hb.1.1 hstep)⟩

/--
Workers that all allow `limit` attempts of a message and start without a counted
one: in the runs in which no call waits for its nack survey while the last nack
is accepted and its dead letter is not, at most `limit` nacks are accepted, and
no call is decided in its favour after as many.
-/
theorem retry_budget (hlimit : 0 < limit)
    (h : (D.system.startingIn (Unspent D limit)).Reach
      (Budgeted D limit) net) : BudgetKept D limit.val net :=
  have hi := (budgetInv hlimit h).1
  ⟨hi.relay.within, fun win hwin => (hi.wins win hwin).2⟩

end Run

theorem pairStart_unspent (limit : U32) :
    Unspent pair limit (pairStart limit) where
  toInitial := pairStart_initial limit
  attempts _ row h := by
    rcases Messages.row?_insert h with hold | rfl
    · contradiction
    · rfl
  allows _ row h := by
    rcases Messages.row?_insert h with hold | rfl
    · contradiction
    · exact ⟨rfl, rfl⟩

instance : Fintype Peer := ⟨{.first, .second}, by rintro (_ | _) <;> decide⟩

def nackRun (w : Peer) (id : EventId) : List (Action Peer) :=
  [.proceed w, .handle w (.failure "boom"), .proceed w, .proceed w, .proceed w,
    .publish w 0 id]

def buriedRun : List (Action Peer) :=
  winningRun ++ nackRun .first (hexOf 'b') ++
    [.publish .first 0 (hexOf 'c'), .fetch .second 60, .proceed .second,
      .query .second, .proceed .second]

theorem retry_budget_nacked :
    ∃ net : Net Peer, nacks pair net.relay = 1 ∧
      (net.nodes .second).job.map Job.phase =
        some (.claiming (.returned (.ok false))) ∧
      BudgetKept pair 1 net := by
  obtain ⟨net, hreach, htest⟩ :=
    (System.Reach.init (pairStart_unspent 1)).of_run_check
      (S := pair.system.startingIn (Unspent pair 1)) (P := Budgeted pair 1)
      buriedRun
      (fun net => decide (nacks pair net.relay = 1 ∧
        (net.nodes .second).job.map Job.phase =
          some (.claiming (.returned (.ok false))))) (by decide)
  obtain ⟨hnacks, hfalse⟩ := of_decide_eq_true htest
  exact ⟨net, hnacks, hfalse, retry_budget (by decide) hreach⟩

/-! ## The gap between the last nack and the dead letter -/

/--
With one attempt allowed, the first worker fails and its nack is accepted; before
it publishes the dlq event, the second surveys, contends at attempt 1, wins, fails
and has a second nack accepted.
-/
def gapRun : List (Action Peer) :=
  winningRun ++ nackRun .first (hexOf 'b') ++
    [.fetch .second 60, .proceed .second, .query .second, .query .second, .query .second,
      .publish .second 0 (hexOf 'c'), .advance 400, .proceed .second, .query .second,
      .query .second, .proceed .second] ++ nackRun .second (hexOf 'd')

theorem gap_exceeds_budget :
    Unspent pair 1 (pairStart 1) ∧ ∃ net : Net Peer,
      pair.system.run (Diligent pair) (pairStart 1) gapRun = some net ∧
        nacks pair net.relay = 2 ∧ ¬ BudgetKept pair 1 net := by
  refine ⟨pairStart_unspent 1, ?_⟩
  have hrun : (pair.system.run (Diligent pair) (pairStart 1) gapRun).any
      (fun net => decide (nacks pair net.relay = 2)) = true := by decide
  obtain ⟨net, hnet, htest⟩ := (Option.any_eq_true _ _).mp hrun
  have hnacks := of_decide_eq_true htest
  exact ⟨net, hnet, hnacks, fun h => by have := h.1; omega⟩

end NostrQ.Cluster
