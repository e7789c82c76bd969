import NostrQ.Cluster.Survey

/-!
# Claim mutual exclusion

Where every claim is accepted within the settle window of its survey, every
settling event within the lease it settles, and no call is cut short, the
workers that hold unsettled wins with unexpired leases are one worker.
-/

namespace NostrQ.Cluster

open NostrQ.Foundation NostrQ.Core NostrQ.Database NostrQ.Sdk NostrQ.Worker

variable {W : Type}

/-! ## The assumptions -/

/-- What is assumed of the moment an event is accepted. -/
def AcceptedInTime (D : Deployment W) (net : Net W) (w : W) : Prop :=
  match (net.nodes w).job.map Job.phase with
  | some (.claiming _) =>
      net.time < (net.nodes w).history.claimsAt + D.settleMs.val
  | some (.settling _) => ∀ win ∈ (net.nodes w).history.held,
      timestamp net.time < win.claim.leaseExpiresAt
  | _ => True

instance (D : Deployment W) (net : Net W) (w : W) :
    Decidable (AcceptedInTime D net w) := by
  unfold AcceptedInTime
  generalize (net.nodes w).job.map Job.phase = phase
  exact match phase with
    | some (.claiming _) => inferInstanceAs (Decidable (_ < _))
    | some (.settling _) => inferInstanceAs (Decidable (∀ _ ∈ _, _))
    | none | some (.handling _ _) | some .finished => instDecidableTrue

/--
Claims are accepted promptly, wins are settled before their lease expires or
never, and no call is cut short.
-/
def Orderly (D : Deployment W) (net : Net W) : Action W → Prop
  | .publish w _ _ => AcceptedInTime D net w
  | a => Uncut net a

instance (D : Deployment W) (net : Net W) (a : Action W) :
    Decidable (Orderly D net a) :=
  match a with
  | .publish w _ _ => inferInstanceAs (Decidable (AcceptedInTime D net w))
  | .lose _ _ _ => instDecidableFalse
  | .drop w => inferInstanceAs (Decidable (Uncut net (.drop w)))
  | .advance _ | .other _ | .fetch _ _ | .proceed _ | .query _
  | .handle _ _ | .fail _ | .sweep _ _ | .retry _ => instDecidableTrue

theorem Orderly.uncut {D : Deployment W} {net : Net W} {a : Action W}
    (h : Orderly D net a) : Uncut net a := by
  cases a <;> first | exact h | trivial

/-! ## The invariant -/

section Invariant

variable (D : Deployment W) (net : Net W)

structure Trusted (win : Win W) : Prop where
  owner : win.claim.claimer = D.key win.worker
  won : ∃ i v, Won claimElection timestamp D.settleMs.val (D.board net)
    win.claim i v ∧ v.now ≤ timestamp net.time ∧ v.time ≤ net.time
  live : timestamp net.time < win.claim.leaseExpiresAt →
    Board.generation (D.board net) ≤ win.claim.attempt.val

def PhaseFacts (w : W) : JobPhase → Prop
  | .claiming (.during call stage) =>
      call.now ≤ timestamp net.time ∧
        SurveyFacts (D.key w) (D.board net) D.settleMs.val net.time
          (net.nodes w).history.claimsAt call stage
  | _ => True

structure ExclusionInv : Prop where
  contended : AllContended claimElection timestamp D.settleMs.val
    (D.board net)
  released : AllReleasedBy claimElection timestamp D.settleMs.val
    (D.board net)
  wins : ∀ win ∈ net.unsettled, Trusted D net win
  jobs : ∀ w job, (net.nodes w).job = some job → PhaseFacts D net w job.phase

variable {D net}

theorem Trusted.same_worker {win win' : Win W} (hg : Grounded D net)
    (hcontended : AllContended claimElection timestamp D.settleMs.val
      (D.board net))
    (h : Trusted D net win) (h' : Trusted D net win')
    (hlease : timestamp net.time < win.claim.leaseExpiresAt)
    (hlease' : timestamp net.time < win'.claim.leaseExpiresAt) :
    win.worker = win'.worker := by
  obtain ⟨i, v, hwon, hnow, -⟩ := h.won
  obtain ⟨i', v', hwon', hnow', -⟩ := h'.won
  obtain ⟨t, ht⟩ := hwon.getElem?
  obtain ⟨t', ht'⟩ := hwon'.getElem?
  have hrank := hwon.rank_eq hcontended hwon' hnow hnow'
    (fun entry hentry => timestamp_mono (hg.board_past entry hentry))
    hlease hlease' (h.live hlease) (h'.live hlease')
  have howner := hg.owner_of_rank (Board.mem_claims_of_getElem? ht)
    (Board.mem_claims_of_getElem? ht') hrank
  exact D.distinct (h.owner.symm.trans (howner.trans h'.owner))

theorem Trusted.append {net' : Net W} {win : Win W} (h : Trusted D net win)
    {more : Board ClaimInfo PublicKey}
    (hboard : D.board net' = D.board net ++ more)
    (htime : net.time ≤ net'.time)
    (hmore : ∀ entry ∈ more, entry.time = net.time)
    (hlive : timestamp net'.time < win.claim.leaseExpiresAt →
      Board.generation (D.board net ++ more) ≤ win.claim.attempt.val) :
    Trusted D net' win where
  owner := h.owner
  won := by
    obtain ⟨i, v, hwon, hnow, hv⟩ := h.won
    refine ⟨i, v, hboard ▸ hwon.append fun entry hentry => ?_,
      hnow.trans (timestamp_mono htime), hv.trans htime⟩
    exact hmore entry hentry ▸ hv
  live := hboard ▸ hlive

theorem Trusted.keep {net' : Net W} {win : Win W} (h : Trusted D net win)
    {more : Board ClaimInfo PublicKey}
    (hboard : D.board net' = D.board net ++ more)
    (htime : net.time ≤ net'.time)
    (hmore : ∀ entry ∈ more, entry.time = net.time)
    (hnone : Board.generation more = 0) : Trusted D net' win := by
  refine h.append hboard htime hmore fun hlease => ?_
  rw [Board.generation_append, hnone, Nat.max_zero]
  exact h.live (lt_of_le_of_lt (timestamp_mono htime) hlease)

/-! ## The jobs -/

theorem PhaseFacts.frame {net' : Net W} {w : W} {phase : JobPhase}
    (h : PhaseFacts D net w phase) (hf : Frame D net net' w) :
    PhaseFacts D net' w phase := by
  unfold PhaseFacts at h ⊢
  split
  · next call stage =>
      obtain ⟨hnow, hfacts⟩ := h
      obtain ⟨more, hboard, hmore⟩ := hf.board
      refine ⟨hnow.trans (timestamp_mono hf.time), ?_⟩
      rw [hboard, hf.node]
      exact hfacts.append hnow hf.time fun entry hentry =>
        ⟨(hmore entry hentry).1.ge, (hmore entry hentry).2⟩
  · trivial

theorem PhaseFacts.congr {net' : Net W} {w : W} {phase : JobPhase}
    (h : PhaseFacts D net w phase) (hrelay : net'.relay = net.relay)
    (htime : net'.time = net.time)
    (hclaims : (net'.nodes w).history.claimsAt =
      (net.nodes w).history.claimsAt) : PhaseFacts D net' w phase := by
  unfold PhaseFacts at h ⊢
  split
  · rw [Deployment.board, hrelay, htime, hclaims]
    exact h
  · trivial

theorem PhaseFacts.proceeds {w : W} {job : Job} {key : PublicKey}
    {s s' : Store} {next : JobPhase} (h : PhaseFacts D net w job.phase)
    (hp : Job.Proceeds key s net.time job job.phase s' next) :
    PhaseFacts D net w next := by
  generalize job.phase = phase at h hp
  cases hp with
  | claimed =>
      unfold Job.afterClaim
      split <;> trivial
  | claim hp =>
      cases hp with
      | enter =>
          unfold ClaimPhase.enter
          split
          · trivial
          · split
            · trivial
            · exact ⟨le_rfl, trivial⟩
      | expire => trivial
      | wake hwake =>
          obtain ⟨hnow, v, i, t, hsurveyed, hposted, hwait⟩ := h
          exact ⟨hnow, v, i, t, hsurveyed, hposted, hwait.trans hwake⟩
      | finish _ => trivial
  | timeout _ => trivial
  | settled => trivial
  | settle _ => trivial

/-! ### Queries -/

section Query

variable {w : W} {call : ClaimCall} {stage : ClaimStage} {filter : Filter}

private theorem surveyView_valid {n : Nat}
    (hn : n ≤ (D.board net).length) (hnow : call.now ≤ timestamp net.time) :
    View.Valid timestamp (D.board net)
      ⟨(D.board net).length, n, call.now, net.time⟩ where
  claims_le := le_rfl
  releases_le := hn
  now_le := hnow
  later := by simp

private theorem survey_elect {n : Nat} {observed : U32}
    (hobserved : observed.val = Board.generation ((D.board net).take n)) :
    claimWinner (parseClaims (net.relay.query (claimFilter D.message)))
      observed call.now =
      claimElection.elect (D.board net)
        ⟨(D.board net).length, n, call.now, net.time⟩ := by
  rw [claimWinner_eq, hobserved, ← claims_board]
  simp [Election.elect]

variable [DecidableEq W]

theorem PhaseFacts.answers {job next : Job} {store : Store}
    {after : ClaimPhase} (hmessage : call.message = D.message)
    (h : PhaseFacts D net w (.claiming (.during call stage)))
    (hphase : job.phase = .claiming (.during call stage))
    (hquery : (ClaimPhase.during call stage).query? = some filter)
    (ha : ClaimPhase.Answers (D.key w) (net.relay.query filter)
      (.during call stage) after) :
    PhaseFacts D (D.answered net w (net.relay.query filter) job store next) w
      (.claiming after) := by
  obtain ⟨hnow, hfacts⟩ := h
  cases ha with
  | terminal =>
      rcases call.afterTerminal_cases (net.relay.query filter) with
        ⟨heq, -⟩ | ⟨heq, -⟩ | ⟨heq, -⟩ <;> rw [heq] <;>
        exact ⟨by simpa using hnow, trivial⟩
  | nacks =>
      cases hquery
      refine ⟨by simpa using hnow, (D.board net).length, ?_, ?_⟩ <;>
        rw [D.answered_board]
      · refine ⟨le_rfl, .end, fun j entry hj hle => ?_⟩
        rw [List.getElem?_eq_none hle] at hj
        contradiction
      · rw [List.take_length, hmessage, generation_board]
  | @claims _ observed =>
      cases hquery
      rcases call.afterSurvey_cases (D.key w) observed
        (parseClaims (net.relay.query (claimFilter call.message)))
        with ⟨_, -, -, heq⟩ | ⟨_, -, -, heq⟩ | ⟨hnone, heq⟩ <;> rw [heq]
      · exact ⟨by simpa using hnow, trivial⟩
      · trivial
      · obtain ⟨n, hlooked, hobserved⟩ := hfacts
        rw [hmessage, survey_elect hobserved] at hnone
        refine ⟨by simpa using hnow,
          ⟨(D.board net).length, n, call.now, net.time⟩, ?_, ?_, ?_⟩
        · rw [D.answered_board, D.answered_time]
          exact ⟨surveyView_valid hlooked.le hnow, hlooked.le, hnone, rfl,
            hobserved, le_rfl⟩
        · simp [D.answered_self, History.afterQuery, hphase]
        · rw [D.answered_board]
          exact .end
  | @recheckClaims _ observed =>
      cases hquery
      obtain ⟨v, i, t, hsurveyed, hposted, hwait⟩ := hfacts
      refine ⟨by simpa using hnow, v, i, t, (D.board net).length, ?_, ?_, ?_⟩
      · rw [D.answered_board, D.answered_time]
        refine ⟨hsurveyed, hposted, ?_⟩
        simpa [D.answered_self, History.afterQuery, hphase] using hwait
      · obtain ⟨c, hc, -⟩ := hposted.own
        exact (List.getElem?_eq_some_iff.mp hc).1
      · rw [D.answered_board, D.answered_time]
        simp only [D.answered_self, Deployment.newHistory_claimsAt,
          History.afterQuery, hphase]
        exact ⟨le_rfl, by rw [List.take_length, claims_board, hmessage],
          by simp, hnow, le_rfl⟩
  | @recheckNacks _ observed claims =>
      rcases call.afterRecheck_cases (D.key w) observed
        claims (net.relay.query filter) with
        ⟨_, -, -, heq⟩ | ⟨-, heq⟩ <;> rw [heq]
      · exact ⟨by simpa using hnow, trivial⟩
      · trivial

omit [DecidableEq W] in
/-- A recognised claim is old enough, and no later nack withdraws it. -/
private theorem trusted_of_survey {observed : U32} {winner : ClaimInfo}
    {win : Win W} (hg : Grounded D net) (hi : ExclusionInv D net)
    (hripe : Ripe D net w net.time)
    (h : PhaseFacts D net w (.claiming (.during call (.surveyClaims observed))))
    (hwinner : claimWinner
      (parseClaims (net.relay.query (claimFilter D.message))) observed
      call.now = some winner)
    (howner : winner.claimer = D.key w) (hwin : win.claim = winner)
    (hworker : win.worker = w) : Trusted D net win := by
  obtain ⟨hnow, n, hlooked, hobserved⟩ := h
  have helect := hwinner
  rw [survey_elect hobserved] at helect
  have hmem := (claimWinner_mem hwinner).1
  rw [← claims_board] at hmem
  obtain ⟨i, t, hi_⟩ := Board.mem_claims.mp hmem
  obtain ⟨accepted, haccepted, htime, hpost⟩ :=
    mem_board.mp (List.mem_of_getElem? hi_)
  obtain ⟨hmatch, hparse⟩ := post?_claim_iff.mp hpost
  have hwait := hripe accepted haccepted hmatch
    ((parseClaimEvent_ok hparse).1.symm.trans howner)
  rw [htime] at hwait
  have hwon : Won claimElection timestamp D.settleMs.val (D.board net) winner
      i ⟨(D.board net).length, n, call.now, net.time⟩ :=
    { valid := surveyView_valid hlooked.le hnow
      lt := (List.getElem?_eq_some_iff.mp hi_).1
      elected := helect
      waited := ⟨t, hi_, hwait⟩ }
  have hquiet : Quiet (claimElection.owner winner) (D.board net) n := by
    have hkey : claimElection.owner winner = D.key w := howner
    rw [hkey]
    exact hlooked.quiet
  subst hwin hworker
  exact {
    owner := howner
    won := ⟨i, _, hwon, hnow, le_rfl⟩
    live := fun hlease => hwon.unreleased hi.contended hi.released
      (fun c c' hc hc' => hg.owner_of_rank hc hc') hg.board_sorted
      (fun _ _ => timestamp_mono) rfl hquiet hlooked.now_le
      (fun entry hentry => timestamp_mono (hg.board_past entry hentry))
      hlease }

omit [DecidableEq W] in
theorem PhaseFacts.won {observed : U32} {claims : List ClaimInfo}
    {winner : ClaimInfo}
    (h : PhaseFacts D net w
      (.claiming (.during call (.recheckNacks observed claims))))
    (hwinner : claimWinner claims (max observed
      (maxAttempt (net.relay.query (nackFilter D.message)))) call.now =
      some winner)
    (howner : winner.claimer = D.key w) :
    (∃ i v, Won claimElection timestamp D.settleMs.val (D.board net) winner
      i v ∧ v.now ≤ timestamp net.time ∧ v.time ≤ net.time) ∧
    Board.generation (D.board net) ≤ winner.attempt.val ∧
    winner.leaseExpiresAt = call.leaseExpiresAt ∧
    winner.attempt = call.claimAttempt observed := by
  obtain ⟨hnow, v, i, t, n, hposted, hlt, hr⟩ := h
  have hmin : (max observed (maxAttempt (net.relay.query
      (nackFilter D.message)))).val = Board.generation (D.board net) := by
    have hle : observed ≤ maxAttempt (net.relay.query
        (nackFilter D.message)) := by
      rw [Fin.le_def, hposted.1.observed_eq, ← generation_board]
      exact Board.generation_take_le _ _
    rw [max_eq_right hle, generation_board]
  obtain ⟨hwon, hcarries⟩ := hposted.won hlt hr hmin hwinner howner
  exact ⟨⟨i, _, hwon, hnow, hr.time_le⟩,
    hmin ▸ (claimWinner_mem hwinner).2.2, hcarries⟩

end Query

/-! ### Publishes -/

section Publish

variable [DecidableEq W] {w : W} {job next : Job} {store : Store}

private theorem published_board (D : Deployment W) (net : Net W) (w : W)
    (event : Event) (job : Job) (store : Store) (next : Job) :
    D.board (net.published w event job store next) =
      D.board net ++ (stampedPost? D.message ⟨net.time, event⟩).toList := by
  rw [Deployment.board, Net.published_relay, board_append, board_singleton]

omit [DecidableEq W] in
theorem claimEntry (net : Net W) (w : W) {call : ClaimCall} (observed : U32)
    (createdAt : U64) (id : EventId) (hmessage : call.message = D.message)
    (hlease : InI64 call.leaseExpiresAt) :
    stampedPost? D.message ⟨net.time,
      (buildClaimEvent D.hashtag call.messageRef call.leaseExpiresAt
        (call.claimAttempt observed)).sign (D.key w) createdAt id⟩ =
      some ⟨net.time, .claim ⟨D.key w, id, toI64 createdAt.val,
        call.leaseExpiresAt, call.claimAttempt observed⟩⟩ := by
  rw [stampedPost?, post?_claim D.hashtag (D.key w) createdAt id hmessage hlease]
  rfl

theorem PhaseFacts.publishClaim {call : ClaimCall} {observed : U32}
    {createdAt : U64} {id : EventId}
    (hconcerns : ClaimConcerns D job.record
      (.during call (.contending observed)))
    (h : PhaseFacts D net w
      (.claiming (.during call (.contending observed)))) :
    PhaseFacts D (net.published w
      ((buildClaimEvent D.hashtag call.messageRef call.leaseExpiresAt
        (call.claimAttempt observed)).sign (D.key w) createdAt id) job store
      next) w (.claiming (.during call
        (.settling observed (net.time + call.settleMs.val)))) := by
  obtain ⟨-, hmessage, hsettle, hlease⟩ := hconcerns
  obtain ⟨hnow, v, hsurveyed, hat, hquiet⟩ := h
  have hclaim := claimEntry net w observed createdAt id hmessage hlease
  refine ⟨by simpa using hnow, v, (D.board net).length, net.time, ?_, ?_, ?_⟩
  · rw [Net.published_time, published_board]
    exact hsurveyed.append le_rfl (by simp [hclaim])
  · rw [published_board, hclaim]
    refine ⟨⟨_, List.getElem?_concat_length, rfl, rfl⟩,
      hsurveyed.valid.claims_le, ?_⟩
    intro j entry hj hle hne
    have hlt : j < (D.board net).length := by
      have := (List.getElem?_eq_some_iff.mp hj).1
      simp only [Option.toList_some, List.length_append,
        List.length_singleton] at this
      omega
    rw [List.getElem?_append_left hlt] at hj
    exact hquiet j entry hj hle
  · rw [hsettle]

private theorem ExclusionInv.own {a : Action W} {net' : Net W} (hg : Grounded D net)
    (hi : ExclusionInv D net) (ho : Orderly D net a) (h : D.Step net a net')
    (ha : a.actor = some w) (hjob : (net'.nodes w).job = some job) :
    PhaseFacts D net' w job.phase := by
  cases h with
  | advance | other => contradiction
  | fetch =>
      cases ha
      simp only [Net.setNode_self, Option.some.injEq] at hjob
      subst hjob
      trivial
  | proceed hold hproceeds =>
      cases ha
      simp only [Net.setNode_self, Option.some.injEq] at hjob
      subst hjob
      refine ((hi.jobs _ _ hold).proceeds hproceeds).congr rfl rfl ?_
      simp only [Net.setNode_self, History.afterProceed]
      split <;> rfl
  | query hold hphase hquery hanswers =>
      cases ha
      rw [D.answered_self] at hjob
      simp only [Option.some.injEq] at hjob
      subst hjob
      obtain ⟨call, stage, rfl⟩ := hanswers.during
      have hconcerns := (hg.jobs _ _ hold).phase
      have hfacts := hi.jobs _ _ hold
      rw [hphase] at hconcerns hfacts
      exact hfacts.answers hconcerns.2.1 hphase hquery hanswers
  | publish hold hpublishes hfresh =>
      cases ha
      rw [Net.published_self] at hjob
      simp only [Option.some.injEq] at hjob
      subst hjob
      cases hpublishes with
      | claim hphase =>
          have hconcerns := (hg.jobs _ _ hold).phase
          have hfacts := hi.jobs _ _ hold
          rw [hphase] at hconcerns hfacts
          exact hfacts.publishClaim hconcerns
      | settle => trivial
  | handle | failClaim | failSettle =>
      cases ha
      simp only [Net.setNode_self, Option.some.injEq] at hjob
      subst hjob
      trivial
  | lose => exact ho.elim
  | drop =>
      cases ha
      simp at hjob
  | sweep | retry =>
      cases ha
      rw [Net.setNode_self] at hjob
      exact (hi.jobs _ _ hjob).congr rfl rfl (by simp)

omit [DecidableEq W] in
private theorem ExclusionInv.quiet {net' : Net W} (hi : ExclusionInv D net)
    (hboard : D.board net' = D.board net) (htime : net.time ≤ net'.time)
    (hwins : ∀ win ∈ net'.unsettled, win ∈ net.unsettled ∨ Trusted D net win)
    (hjobs : ∀ w job, (net'.nodes w).job = some job →
      PhaseFacts D net' w job.phase) : ExclusionInv D net' where
  contended := hboard ▸ hi.contended
  released := hboard ▸ hi.released
  wins win hwin := by
    have htrusted : Trusted D net win :=
      (hwins win hwin).elim (hi.wins win) fun h => h
    have hsame : D.board net' = D.board net ++ [] := by simpa using hboard
    exact htrusted.keep hsame htime (by simp) rfl
  jobs := hjobs

private theorem ExclusionInv.publishClaim {call : ClaimCall} {observed : U32}
    {createdAt : U64} {id : EventId} (hg : Grounded D net)
    (hi : ExclusionInv D net) (hjob : (net.nodes w).job = some job)
    (hphase : job.phase = .claiming (.during call (.contending observed)))
    (hin : AcceptedInTime D net w) {net' : Net W}
    (hnet : net' = net.published w
      ((buildClaimEvent D.hashtag call.messageRef call.leaseExpiresAt
        (call.claimAttempt observed)).sign (D.key w) createdAt id) job store
      next)
    (hjobs : ∀ w job, (net'.nodes w).job = some job →
      PhaseFacts D net' w job.phase) : ExclusionInv D net' := by
  have hconcerns := (hg.jobs _ _ hjob).phase
  have hfacts := hi.jobs _ _ hjob
  rw [hphase] at hconcerns hfacts
  obtain ⟨hnow, v, hsurveyed, hat, -⟩ := hfacts
  have hprompt : net.time < v.time + D.settleMs.val := by
    rw [hat]
    simpa [AcceptedInTime, hjob, hphase] using hin
  have hentry := claimEntry net w observed createdAt id hconcerns.2.1
    hconcerns.2.2.2
  have hboard := published_board D net w ((buildClaimEvent D.hashtag
    call.messageRef call.leaseExpiresAt (call.claimAttempt observed)).sign
    (D.key w) createdAt id) job store next
  rw [hentry, ← hnet] at hboard
  refine ⟨?_, ?_, ?_, hjobs⟩
  · rw [hboard]
    refine hi.contended.push hg.board_past fun c hc => ⟨v, ?_, ?_⟩
    · exact Contended.new hsurveyed.valid hsurveyed.releases_le
        hsurveyed.elected hsurveyed.time_le hprompt
    · exact hsurveyed.now_eq.le.trans hnow
  · rw [hboard]
    exact hi.released.push hg.board_past fun who g hpost => by
      contradiction
  · intro win hwin
    have hmem : win ∈ net.unsettled := by
      rw [hnet, Net.published_unsettled] at hwin
      simpa [settling, hphase] using hwin
    exact (hi.wins win hmem).keep hboard (by simp [hnet]) (by simp) rfl

private theorem ExclusionInv.publishNack {call : SettleCall} {reason : String}
    {config : QueueConfig} {attempts : U32} {createdAt : U64} {id : EventId}
    (hg : Grounded D net) (hh : HoldingInv net)
    (hi : ExclusionInv D net) (hjob : (net.nodes w).job = some job)
    (hphase : job.phase =
      .settling (.during call (.nackPublishing reason config attempts)))
    (hin : AcceptedInTime D net w) {net' : Net W}
    (hnet : net' = net.published w
      ((buildNackEvent D.hashtag call.ref attempts reason).sign (D.key w)
        createdAt id) job store next)
    (hjobs : ∀ w job, (net'.nodes w).job = some job →
      PhaseFacts D net' w job.phase) : ExclusionInv D net' := by
  have hconcerns := (hg.jobs _ _ hjob).phase
  rw [hphase] at hconcerns
  obtain ⟨win, hwin⟩ := hh.holds w job hjob (by rw [hphase]; trivial)
  have hlease : timestamp net.time < win.claim.leaseExpiresAt := by
    simp only [AcceptedInTime, hjob, Option.map_some, hphase] at hin
    exact hin win hwin.held
  have htrusted := hi.wins win hwin.unsettled
  have hentry : stampedPost? D.message ⟨net.time,
      (buildNackEvent D.hashtag call.ref attempts reason).sign (D.key w)
        createdAt id⟩ = some ⟨net.time, .release (D.key w) attempts.val⟩ := by
    rw [stampedPost?, post?_nack D.hashtag (D.key w) createdAt id hconcerns.1]
    rfl
  have hboard := published_board D net w ((buildNackEvent D.hashtag call.ref
    attempts reason).sign (D.key w) createdAt id) job store next
  rw [hentry, ← hnet] at hboard
  refine ⟨?_, ?_, ?_, hjobs⟩
  · rw [hboard]
    exact hi.contended.push hg.board_past fun c hc => by contradiction
  · rw [hboard]
    refine hi.released.push hg.board_past fun who g hpost => ?_
    cases hpost
    obtain ⟨i, v, hwon, hnow, hv⟩ := htrusted.won
    exact ⟨win.claim, i, v, htrusted.owner.trans (by rw [hwin.worker]),
      ReleasedBy.new hwon hv hnow hlease (htrusted.live hlease)⟩
  · intro other hother
    rw [hnet, Net.published_unsettled] at hother
    simp only [settling, hphase, if_true] at hother
    obtain ⟨hmem, hne⟩ := List.mem_filter.mp hother
    have hkept := hi.wins other hmem
    refine hkept.append hboard (by simp [hnet]) (by simp) fun hlive => ?_
    -- two live wins would belong to one worker, and `w` holds none any more
    have hlive' : timestamp net.time < other.claim.leaseExpiresAt := by
      simpa [hnet] using hlive
    have hsame := hkept.same_worker hg hi.contended htrusted hlive' hlease
    exact absurd (hsame.trans hwin.worker) (by simpa using hne)

private theorem ExclusionInv.publish {event : Event} (hg : Grounded D net)
    (hh : HoldingInv net) (hi : ExclusionInv D net)
    (hjob : (net.nodes w).job = some job) (hout : Outgoing D w job event)
    (hin : AcceptedInTime D net w) {net' : Net W}
    (hnet : net' = net.published w event job store next)
    (hjobs : ∀ w job, (net'.nodes w).job = some job →
      PhaseFacts D net' w job.phase) : ExclusionInv D net' := by
  have silent : post? D.message event = none → ExclusionInv D net' := by
    intro hnone
    refine hi.quiet ?_ (by simp [hnet]) (fun win hwin => Or.inl ?_) hjobs
    · rw [hnet, published_board, stampedPost?, hnone]
      simp
    · rw [hnet, Net.published_unsettled] at hwin
      split at hwin
      · exact (List.mem_filter.mp hwin).1
      · exact hwin
  cases hout with
  | claim hphase => exact hi.publishClaim hg hjob hphase hin hnet hjobs
  | ack _ => exact silent (post?_ack _ _ _ _)
  | nack hphase => exact hi.publishNack hg hh hjob hphase hin hnet hjobs
  | dlq _ => exact silent (post?_dlq _ _ _ _ _ _)

end Publish

/-! ## The theorem -/

section Theorem

/-- The win that an answered query brings can be trusted. -/
theorem ExclusionInv.newWin {w : W} {job next : Job}
    {phase after : ClaimPhase} {filter : Filter} {win : Win W}
    (hg : Grounded D net) (hr : Rested D net) (hi : ExclusionInv D net)
    (hjob : (net.nodes w).job = some job) (hphase : job.phase = .claiming phase)
    (hquery : phase.query? = some filter)
    (ha : ClaimPhase.Answers (D.key w) (net.relay.query filter) phase after)
    (hwin : D.newWin? net w (net.relay.query filter) job next = some win) :
    Trusted D net win := by
  obtain ⟨call, stage, rfl⟩ := ha.during
  have hconcerns := (hg.jobs _ _ hjob).phase
  have hfacts := hi.jobs _ _ hjob
  rw [hphase] at hconcerns hfacts
  obtain ⟨call', claim, rfl, howner, ⟨observed, hphase', hwinner⟩ |
    ⟨observed, claims, hphase', hwinner⟩⟩ := D.newWin?_cases hwin
  · cases hphase.symm.trans hphase'
    cases hquery
    rw [hconcerns.2.1] at hwinner
    have hripe : Ripe D net w net.time := by
      have := hr w
      rwa [restLimit, hjob, Option.map_some, hphase] at this
    exact trusted_of_survey hg hi hripe hfacts hwinner howner rfl rfl
  · cases hphase.symm.trans hphase'
    cases hquery
    rw [hconcerns.2.1] at hwinner
    obtain ⟨hwon, hgeneration, -⟩ := hfacts.won hwinner howner
    exact ⟨howner, hwon, fun _ => hgeneration⟩

variable [DecidableEq W]

theorem ExclusionInv.step {a : Action W} {net' : Net W} (hg : Grounded D net)
    (hh : HoldingInv net) (hr : Rested D net) (hi : ExclusionInv D net)
    (ho : Orderly D net a) (h : D.Step net a net') : ExclusionInv D net' := by
  have hjobs : ∀ w job, (net'.nodes w).job = some job →
      PhaseFacts D net' w job.phase := by
    intro w job hjob
    by_cases ha : a.actor = some w
    · exact hi.own hg ho h ha hjob
    · have hf := h.frame ha
      rw [hf.node] at hjob
      exact (hi.jobs w job hjob).frame hf
  cases h with
  | advance =>
      exact hi.quiet rfl (Nat.le_add_right _ _) (fun _ h => Or.inl h) hjobs
  | @other event hunrelated _ =>
      refine hi.quiet ?_ le_rfl (fun _ h => Or.inl h) hjobs
      rw [Deployment.board, Net.accept, board_append, board_singleton,
        stampedPost?, post?_unrelated hunrelated]
      simp
  | query hjob hphase hquery hanswers =>
      refine hi.quiet (by simp) (by simp) (fun win hwin => ?_) hjobs
      rw [D.answered_unsettled] at hwin
      rcases List.mem_append.mp hwin with hold | hnew
      · exact Or.inl hold
      · exact Or.inr (hi.newWin hg hr hjob hphase hquery hanswers
          (Option.mem_toList.mp hnew))
  | publish hjob hpublishes _ =>
      exact hi.publish hg hh hjob hpublishes.outgoing ho rfl hjobs
  | lose => exact ho.elim
  | fetch | proceed | handle | failClaim | failSettle | drop | sweep
  | retry => exact hi.quiet rfl le_rfl (fun _ h => Or.inl h) hjobs

theorem exclusionInv (h : D.system.Reach (Orderly D) net) :
    ExclusionInv D net :=
  h.invariant
    (fun net h₀ => {
      contended := fun i t c hi => by
        simp [Deployment.board, h₀.relay] at hi
      released := fun j t who g hj => by
        simp [Deployment.board, h₀.relay] at hj
      wins := by simp [h₀.unsettled]
      jobs := fun w job hjob => by simp [h₀.idle w] at hjob })
    fun _ _ _ hr hi hp hs =>
      hi.step (grounded hr) (holding hr) (rested (fun _ _ ho => ho.uncut) hr)
        hp (Deployment.step_cases hs)

/--
At any moment of an orderly run, every worker whose call was decided in its
favour and that has not settled yet is on record with a win, and two such wins
whose leases have not expired belong to the same worker.
-/
theorem claim_mutual_exclusion (h : D.system.Reach (Orderly D) net) :
    (∀ w job, (net.nodes w).job = some job → Holding job.phase →
      ∃ win, Holds net w win) ∧
    ∀ win ∈ net.unsettled, ∀ win' ∈ net.unsettled,
      timestamp net.time < win.claim.leaseExpiresAt →
      timestamp net.time < win'.claim.leaseExpiresAt →
      win.worker = win'.worker := by
  refine ⟨(holding h).holds, fun win hwin win' hwin' hlease hlease' => ?_⟩
  have hi := exclusionInv h
  exact (hi.wins win hwin).same_worker (grounded h) hi.contended
    (hi.wins win' hwin') hlease hlease'

theorem claim_mutual_exclusion_winning :
    ∃ net, ReturnedTrue net .first ∧ pair.system.Reach (Orderly pair) net ∧
      ∀ win ∈ net.unsettled, ∀ win' ∈ net.unsettled,
        timestamp net.time < win.claim.leaseExpiresAt →
        timestamp net.time < win'.claim.leaseExpiresAt →
        win.worker = win'.worker := by
  obtain ⟨net, hreach, htest⟩ :=
    (System.Reach.init (pairStart_initial 5)).of_run_check
      (S := pair.system) (P := Orderly pair) winningRun
      (fun net => decide (ReturnedTrue net .first)) (by decide)
  exact ⟨net, of_decide_eq_true htest, hreach,
    (claim_mutual_exclusion hreach).2⟩

end Theorem

end Invariant

end NostrQ.Cluster
