import NostrQ.Cluster.Holding

/-!
# The settle window

A call that contends sleeps before it looks again, but a call that finds a
claim of its own in the survey wins at once.  That is sound only if the claim
is as old as the window.  It is when no call was ever cut short; a call that
was cut short between its publish and its sleep leaves a young claim behind.
-/

namespace NostrQ.Cluster

open NostrQ.Foundation NostrQ.Core NostrQ.Database NostrQ.Sdk NostrQ.Worker

variable {W : Type}

def Ripe (D : Deployment W) (net : Net W) (w : W) (limit : Nat) : Prop :=
  ∀ accepted ∈ net.relay,
    (claimFilter D.message).matchEvent accepted.event = true →
    accepted.event.pubkey = D.key w →
    accepted.acceptedAt + D.settleMs.val ≤ limit

instance (D : Deployment W) (net : Net W) (w : W) (limit : Nat) :
    Decidable (Ripe D net w limit) :=
  inferInstanceAs (Decidable (∀ _ ∈ _, _))

def Waited (D : Deployment W) (relay : Relay) (c : ClaimInfo)
    (limit : Nat) : Prop :=
  ∃ accepted ∈ relay, parseClaimEvent accepted.event = .ok c ∧
    accepted.acceptedAt + D.settleMs.val ≤ limit

theorem Ripe.mono {D : Deployment W} {net : Net W} {w : W}
    {limit limit' : Nat} (h : Ripe D net w limit) (hle : limit ≤ limit') :
    Ripe D net w limit' :=
  fun x hx hmatch hkey => (h x hx hmatch hkey).trans hle

theorem Waited.append {D : Deployment W} {relay more : Relay} {c : ClaimInfo}
    {limit : Nat} (h : Waited D relay c limit) :
    Waited D (relay ++ more) c limit := by
  obtain ⟨x, hx, hparse, hle⟩ := h
  exact ⟨x, List.mem_append_left _ hx, hparse, hle⟩

theorem Ripe.waited {D : Deployment W} {net : Net W} {w : W} {limit : Nat}
    (h : Ripe D net w limit) {c : ClaimInfo}
    (hc : c ∈ parseClaims (net.relay.query (claimFilter D.message)))
    (hkey : c.claimer = D.key w) : Waited D net.relay c limit := by
  obtain ⟨event, hevent, hparse⟩ := mem_parseClaims.mp hc
  obtain ⟨hmatch, x, hx, rfl⟩ := Relay.mem_query.mp hevent
  have hpubkey := (parseClaimEvent_ok hparse).1.symm.trans hkey
  exact ⟨x, hx, hparse, h x hx hmatch hpubkey⟩

theorem Frame.ripe {D : Deployment W} {net net' : Net W} {w : W}
    (h : Frame D net net' w) {limit : Nat} (hr : Ripe D net w limit) :
    Ripe D net' w limit := by
  obtain ⟨more, hrelay, hmore⟩ := h.relay
  intro x hx hmatch hkey
  rw [hrelay] at hx
  rcases List.mem_append.mp hx with hx | hx
  · exact hr x hx hmatch hkey
  · rcases (hmore x hx).2 with hunrelated | hne
    · rw [hunrelated.1] at hmatch
      contradiction
    · exact absurd hkey hne

/-! ## Calls that survey ripe claims win with ripe claims -/

section Patient

variable (D : Deployment W)

/-- The claims are surveyed only when the worker's own ones are ripe. -/
def Patient (net : Net W) : Action W → Prop
  | .query w =>
      match (net.nodes w).job.map Job.phase with
      | some (.claiming (.during _ (.surveyClaims _))) =>
          Ripe D net w net.time
      | _ => True
  | _ => True

instance (net : Net W) (a : Action W) : Decidable (Patient D net a) :=
  match a with
  | .query w => by
      dsimp only [Patient]
      generalize (net.nodes w).job.map Job.phase = phase
      exact match phase with
        | some (.claiming (.during _ stage)) => match stage with
            | .surveyClaims _ =>
                inferInstanceAs (Decidable (Ripe D net w net.time))
            | .terminalCheck | .ackObserved | .dlqObserved _ | .surveyNacks
            | .recognised _ | .contending _ | .settling _ _
            | .recheckClaims _ | .recheckNacks _ _ | .contendWon _ =>
                instDecidableTrue
        | none | some (.claiming (.entering _ _ _))
        | some (.claiming (.expiring _ _)) | some (.claiming (.returned _))
        | some (.handling _ _) | some (.settling _) | some .finished =>
            instDecidableTrue
  | .advance _ | .other _ | .fetch _ _ | .proceed _ | .publish _ _ _
  | .handle _ _ | .fail _ | .lose _ _ _ | .drop _ | .sweep _ _ | .retry _ =>
      instDecidableTrue

def StageRipe (net : Net W) (w : W) : ClaimStage → Prop
  | .contending _ => Ripe D net w net.time
  | .settling _ wakeAt => Ripe D net w wakeAt
  | .recheckClaims _ => Ripe D net w net.time
  | .recheckNacks _ claims =>
      ∀ c ∈ claims, c.claimer = D.key w →
        Waited D net.relay c (net.nodes w).history.claimsAt
  | _ => True

def PhaseRipe (net : Net W) (w : W) : JobPhase → Prop
  | .claiming (.during _ stage) => StageRipe D net w stage
  | _ => True

def WinsWaited (net : Net W) : Prop :=
  ∀ win ∈ net.wins, Waited D net.relay win.claim win.queriedAt

structure PatientInv (net : Net W) : Prop where
  jobs : ∀ w job, (net.nodes w).job = some job → PhaseRipe D net w job.phase
  wins : WinsWaited D net

variable {D} {net net' : Net W}

theorem StageRipe.frame {w : W} {stage : ClaimStage}
    (h : StageRipe D net w stage) (hf : Frame D net net' w) :
    StageRipe D net' w stage := by
  cases stage with
  | contending observed => exact (hf.ripe h).mono hf.time
  | settling observed wakeAt => exact hf.ripe h
  | recheckClaims observed => exact (hf.ripe h).mono hf.time
  | recheckNacks observed claims =>
      intro c hc hkey
      obtain ⟨more, hrelay, -⟩ := hf.relay
      rw [hrelay, hf.node]
      exact (h c hc hkey).append
  | _ => trivial

theorem PhaseRipe.frame {w : W} {phase : JobPhase}
    (h : PhaseRipe D net w phase) (hf : Frame D net net' w) :
    PhaseRipe D net' w phase := by
  unfold PhaseRipe at h ⊢
  split
  · exact StageRipe.frame h hf
  · trivial

variable [DecidableEq W]

private theorem PhaseRipe.proceeds {w : W} {job : Job} {store : Store}
    {next : JobPhase} {node : Node W} (h : PhaseRipe D net w job.phase)
    (hp : Job.Proceeds (D.key w) (net.nodes w).store net.time job job.phase
      store next) : PhaseRipe D (net.setNode w node) w next := by
  generalize job.phase = phase at h hp
  cases hp with
  | claimed =>
      unfold Job.afterClaim
      split <;> trivial
  | claim hp =>
      cases hp with
      | enter =>
          unfold ClaimPhase.enter
          split
          · trivial
          · split <;> trivial
      | expire => trivial
      | wake hwake =>
          have hripe : Ripe D net w _ := h
          exact hripe.mono hwake
      | finish _ => trivial
  | timeout _ => trivial
  | settled => trivial
  | settle _ => trivial

@[simp] private theorem ripe_answered {w v : W} {events : List Event}
    {job next : Job} {store : Store} {limit : Nat} :
    Ripe D (D.answered net v events job store next) w limit ↔
      Ripe D net w limit := by
  simp [Ripe]

private theorem StageRipe.answers {w : W} {call : ClaimCall}
    {stage : ClaimStage} {next : ClaimPhase} {filter : Filter} {job : Job}
    {store : Store} (hmessage : call.message = D.message)
    (h : StageRipe D net w stage)
    (hsurvey : ∀ observed, stage = .surveyClaims observed →
      Ripe D net w net.time)
    (hphase : job.phase = .claiming (.during call stage))
    (hquery : (ClaimPhase.during call stage).query? = some filter)
    (ha : ClaimPhase.Answers (D.key w) (net.relay.query filter)
      (.during call stage) next) :
    PhaseRipe D (D.answered net w (net.relay.query filter) job store
      { job with phase := .claiming next }) w (.claiming next) := by
  cases ha with
  | terminal =>
      rcases call.afterTerminal_cases (net.relay.query filter) with
        ⟨heq, -⟩ | ⟨heq, -⟩ | ⟨heq, -⟩ <;> rw [heq] <;> trivial
  | nacks => trivial
  | @claims _ observed =>
      rcases call.afterSurvey_cases (D.key w) observed
        (parseClaims (net.relay.query filter)) with
        ⟨_, -, -, heq⟩ | ⟨_, -, -, heq⟩ | ⟨-, heq⟩ <;> rw [heq]
      · trivial
      · trivial
      · have hripe := hsurvey observed rfl
        simpa [PhaseRipe, StageRipe] using hripe
  | recheckClaims =>
      intro c hc hkey
      cases hquery
      rw [hmessage] at hc ⊢
      rw [D.answered_relay, D.answered_self]
      simp only [Deployment.newHistory_claimsAt, History.afterQuery, hphase]
      exact Ripe.waited h hc hkey
  | @recheckNacks _ observed claims =>
      rcases call.afterRecheck_cases (D.key w) observed
        claims (net.relay.query filter) with
        ⟨_, -, -, heq⟩ | ⟨-, heq⟩ <;> rw [heq] <;> trivial

omit [DecidableEq W] in
private theorem StageRipe.newWin {w : W} {call : ClaimCall}
    {stage : ClaimStage} {filter : Filter} {job next : Job} {win : Win W}
    (hmessage : call.message = D.message)
    (h : StageRipe D net w stage)
    (hsurvey : ∀ observed, stage = .surveyClaims observed →
      Ripe D net w net.time)
    (hphase : job.phase = .claiming (.during call stage))
    (hquery : (ClaimPhase.during call stage).query? = some filter)
    (hwin : win ∈ D.newWin? net w (net.relay.query filter) job next) :
    Waited D net.relay win.claim win.queriedAt := by
  obtain ⟨call', claim, rfl, howner, ⟨observed, hphase', hwinner⟩ |
    ⟨observed, claims, hphase', hwinner⟩⟩ := D.newWin?_cases hwin
  · cases hphase.symm.trans hphase'
    cases hquery
    have hmem := (claimWinner_mem hwinner).1
    rw [hmessage] at hmem
    simp only [Net.winOf, History.afterQuery, hphase]
    exact (hsurvey observed rfl).waited hmem howner
  · cases hphase.symm.trans hphase'
    have hmem := (claimWinner_mem hwinner).1
    simp only [Net.winOf, History.afterQuery, hphase]
    exact h _ hmem howner

omit [DecidableEq W] in
private theorem PhaseRipe.congr {w : W} {phase : JobPhase}
    (h : PhaseRipe D net w phase) (hrelay : net'.relay = net.relay)
    (htime : net'.time = net.time)
    (hclaims : (net'.nodes w).history.claimsAt =
      (net.nodes w).history.claimsAt) : PhaseRipe D net' w phase := by
  cases phase with
  | claiming phase =>
      cases phase with
      | during call stage =>
          cases stage <;>
            simp_all [PhaseRipe, StageRipe, Ripe]
      | _ => trivial
  | _ => trivial

private theorem PhaseRipe.publishes {w : W} {createdAt : U64} {id : EventId}
    {job : Job} {event : Event} {next : JobPhase} {store : Store}
    {after : Job} (h : PhaseRipe D net w job.phase)
    (hc : JobConcerns D job)
    (hp : D.Publishes w createdAt id net.time job event next) :
    PhaseRipe D (net.published w event job store after) w next := by
  cases hp with
  | @claim call observed hphase =>
      have hphaseConcerns := hc.phase
      rw [hphase] at h hphaseConcerns
      have hripe : Ripe D net w net.time := h
      have hsettle : call.settleMs = D.settleMs := hphaseConcerns.2.2.1
      intro x hx hmatch hkey
      rw [Net.published_relay] at hx
      rw [hsettle]
      rcases List.mem_append.mp hx with hx | hx
      · exact (hripe x hx hmatch hkey).trans (Nat.le_add_right _ _)
      · rw [List.mem_singleton.mp hx]
  | settle => trivial

omit [DecidableEq W] in
private theorem Patient.survey {w : W} {job : Job} {call : ClaimCall}
    {stage : ClaimStage} (h : Patient D net (.query w))
    (hjob : (net.nodes w).job = some job)
    (hphase : job.phase = .claiming (.during call stage)) (observed : U32)
    (hstage : stage = .surveyClaims observed) : Ripe D net w net.time := by
  simpa [Patient, hjob, hphase, hstage] using h

private theorem PatientInv.own {a : Action W} {w : W}
    (hg : Grounded D net) (hi : PatientInv D net) (hp : Patient D net a)
    (h : D.Step net a net') (ha : a.actor = some w) {job : Job}
    (hjob : (net'.nodes w).job = some job) :
    PhaseRipe D net' w job.phase := by
  cases h with
  | advance => contradiction
  | other => contradiction
  | fetch =>
      cases ha
      simp only [Net.setNode_self, Option.some.injEq] at hjob
      subst hjob
      trivial
  | @proceed v old store phase hold hproceeds =>
      cases ha
      simp only [Net.setNode_self, Option.some.injEq] at hjob
      subst hjob
      exact PhaseRipe.proceeds (hi.jobs _ _ hold) hproceeds
  | @query v old phase after filter hold hphase hquery hanswers =>
      cases ha
      rw [D.answered_self] at hjob
      simp only [Option.some.injEq] at hjob
      subst hjob
      obtain ⟨call, stage, rfl⟩ := hanswers.during
      have hconcerns := (hg.jobs _ _ hold).phase
      have hripe := hi.jobs _ _ hold
      rw [hphase] at hconcerns hripe
      exact StageRipe.answers hconcerns.2.1 hripe (hp.survey hold hphase)
        hphase hquery hanswers
  | @publish v createdAt id old event phase hold hpublishes hfresh =>
      cases ha
      rw [Net.published_self] at hjob
      simp only [Option.some.injEq] at hjob
      subst hjob
      exact PhaseRipe.publishes (hi.jobs _ _ hold) (hg.jobs _ _ hold)
        hpublishes
  | handle | failClaim | failSettle =>
      cases ha
      simp only [Net.setNode_self, Option.some.injEq] at hjob
      subst hjob
      trivial
  | @lose v createdAt id old event phase hold hloses hfresh =>
      cases ha
      rw [Net.published_self] at hjob
      simp only [Option.some.injEq] at hjob
      subst hjob
      cases hloses <;> trivial
  | drop =>
      cases ha
      simp at hjob
  | sweep | retry =>
      cases ha
      rw [Net.setNode_self] at hjob
      exact (hi.jobs _ _ hjob).congr rfl rfl (by simp)

theorem PatientInv.step {a : Action W} (hg : Grounded D net)
    (hi : PatientInv D net) (hp : Patient D net a) (h : D.Step net a net') :
    PatientInv D net' where
  jobs w job hjob := by
    by_cases ha : a.actor = some w
    · exact hi.own hg hp h ha hjob
    · have hf := h.frame ha
      rw [hf.node] at hjob
      exact (hi.jobs w job hjob).frame hf
  wins := by
    have hold : ∀ win ∈ net.wins,
        Waited D net'.relay win.claim win.queriedAt := by
      intro win hwin
      obtain ⟨-, hrelay | ⟨event, hrelay, -⟩⟩ := h.relay <;> rw [hrelay]
      · exact hi.wins win hwin
      · exact (hi.wins win hwin).append
    rcases h.wins with hsame | ⟨w, job, phase, after, filter, win, rfl, hjob,
      hphase, hquery, hanswers, rfl, hnew, hwins⟩
    · intro win hwin
      exact hold win (hsame ▸ hwin)
    · intro other hother
      rw [hwins] at hother
      rcases List.mem_append.mp hother with hmem | hmem
      · exact hold other hmem
      · rw [List.mem_singleton.mp hmem, D.answered_relay]
        obtain ⟨call, stage, rfl⟩ := hanswers.during
        have hconcerns := (hg.jobs _ _ hjob).phase
        have hripe := hi.jobs _ _ hjob
        rw [hphase] at hconcerns hripe
        exact StageRipe.newWin hconcerns.2.1 hripe (hp.survey hjob hphase)
          hphase hquery hnew

theorem patientInv (h : D.system.Reach (Patient D) net) : PatientInv D net :=
  h.invariant
    (fun net h₀ => {
      jobs := fun w job hjob => by simp [h₀.idle w] at hjob
      wins := by simp [WinsWaited, h₀.wins] })
    fun _ _ _ hr hi hp hs =>
      hi.step (grounded hr) hp (Deployment.step_cases hs)

/--
The claim that a true return rests on had been on the relay for a settle window
when the query that decided the call was answered.
-/
def ReturnsWaited (D : Deployment W) (net : Net W) : Prop :=
  ∀ w, ReturnedTrue net w →
    ∃ win, Holds net w win ∧ Waited D net.relay win.claim win.queriedAt

theorem PatientInv.returnsWaited {P : Net W → Action W → Prop}
    (hi : PatientInv D net) (h : D.system.Reach P net) :
    ReturnsWaited D net := by
  intro w hw
  obtain ⟨win, hholds, hwin⟩ := win_of_returnedTrue h hw
  exact ⟨win, hholds, hi.wins win hwin⟩

/--
In every run, also with calls cut short at any step, in which no call surveys
the claims while one of its own worker is younger than the settle window.
-/
theorem true_return_waited (h : D.system.Reach (Patient D) net) :
    ReturnsWaited D net :=
  (patientInv h).returnsWaited h

theorem true_return_waited_winning :
    ∃ net, ReturnedTrue net .first ∧ ReturnsWaited pair net := by
  obtain ⟨net, hreach, htest⟩ :=
    (System.Reach.init (pairStart_initial 5)).of_run_check
      (S := pair.system) (P := Patient pair) winningRun
      (fun net => decide (ReturnedTrue net .first)) (by decide)
  exact ⟨net, of_decide_eq_true htest, true_return_waited hreach⟩

end Patient

/-! ## Calls that are never cut short leave only ripe claims behind -/

section Uncut

variable (D : Deployment W)

/-- No process dies inside a call, and no accepted publish reports an error. -/
def Uncut (net : Net W) : Action W → Prop
  | .lose _ _ _ => False
  | .drop w =>
      match (net.nodes w).job.map Job.phase with
      | some (.claiming (.during _ _)) => False
      | _ => True
  | _ => True

instance (net : Net W) (a : Action W) : Decidable (Uncut net a) :=
  match a with
  | .lose _ _ _ => instDecidableFalse
  | .drop w => by
      dsimp only [Uncut]
      generalize (net.nodes w).job.map Job.phase = phase
      exact match phase with
        | some (.claiming (.during _ _)) => instDecidableFalse
        | none | some (.claiming (.entering _ _ _))
        | some (.claiming (.expiring _ _)) | some (.claiming (.returned _))
        | some (.handling _ _) | some (.settling _) | some .finished =>
            instDecidableTrue
  | .advance _ | .other _ | .fetch _ _ | .proceed _ | .query _
  | .publish _ _ _ | .handle _ _ | .fail _ | .sweep _ _ | .retry _ =>
      instDecidableTrue

def wakeAt? : JobPhase → Option Nat
  | .claiming (.during _ (.settling _ wakeAt)) => some wakeAt
  | _ => none

/-- When the latest claim of `w` is ripe: a sleeping call waits for it. -/
def restLimit (net : Net W) (w : W) : Nat :=
  (((net.nodes w).job.map Job.phase).bind wakeAt?).getD net.time

def Rested (net : Net W) : Prop := ∀ w, Ripe D net w (restLimit net w)

private theorem wakeAt?_proceeds {key : PublicKey} {s s' : Store} {time : Nat}
    {job : Job} {phase next : JobPhase}
    (h : Job.Proceeds key s time job phase s' next) :
    (wakeAt? phase).getD time ≤ time ∧ wakeAt? next = none := by
  cases h with
  | claimed =>
      refine ⟨le_rfl, ?_⟩
      unfold Job.afterClaim
      split <;> rfl
  | claim h =>
      cases h with
      | enter =>
          refine ⟨le_rfl, ?_⟩
          unfold ClaimPhase.enter
          split
          · rfl
          · split <;> rfl
      | expire => exact ⟨le_rfl, rfl⟩
      | wake hwake => exact ⟨hwake, rfl⟩
      | @finish call stage s' result hfinish =>
          cases stage with
          | settling observed wakeAt => contradiction
          | _ => exact ⟨le_rfl, rfl⟩
  | timeout _ => exact ⟨le_rfl, rfl⟩
  | settled => exact ⟨le_rfl, rfl⟩
  | settle _ => exact ⟨le_rfl, rfl⟩

private theorem wakeAt?_answers {key : PublicKey} {events : List Event}
    {phase next : ClaimPhase} (h : ClaimPhase.Answers key events phase next) :
    wakeAt? (.claiming phase) = none ∧ wakeAt? (.claiming next) = none := by
  constructor
  · cases h <;> rfl
  · obtain ⟨_, _, -, rfl | ⟨stage', rfl, hawake⟩⟩ := h.next_cases
    · rfl
    · cases stage' with
      | settling observed wakeAt => exact absurd rfl (hawake observed wakeAt)
      | _ => rfl

private theorem wakeAt?_awaits {phase : ClaimPhase}
    (h : phase.awaits = true) : wakeAt? (.claiming phase) = none := by
  cases phase with
  | during call stage =>
      cases stage with
      | settling observed wakeAt =>
          simp [ClaimPhase.awaits, ClaimPhase.query?, ClaimPhase.publish?] at h
      | _ => rfl
  | _ => rfl

variable [DecidableEq W] {D} {net net' : Net W}

private theorem Deployment.Step.restLimit_le {a : Action W} {w : W}
    (h : D.Step net a net') (ha : a.actor = some w) (hu : Uncut net a) :
    restLimit net w ≤ restLimit net' w := by
  cases h with
  | advance => contradiction
  | other => contradiction
  | fetch hidle _ =>
      cases ha
      simp [restLimit, hidle, Job.spawn, wakeAt?]
  | proceed hjob hproceeds =>
      cases ha
      obtain ⟨hle, hnone⟩ := wakeAt?_proceeds hproceeds
      simpa [restLimit, hjob, hnone] using hle
  | query hjob hphase _ hanswers =>
      cases ha
      obtain ⟨hbefore, hafter⟩ := wakeAt?_answers hanswers
      simp [restLimit, hjob, hphase, hbefore, hafter, D.answered_self]
  | publish hjob hpublishes _ =>
      cases ha
      cases hpublishes with
      | claim hphase =>
          simp [restLimit, hjob, hphase, Net.published_self, wakeAt?]
      | settle hphase _ _ =>
          simp [restLimit, hjob, hphase, Net.published_self, wakeAt?]
  | handle hjob hphase =>
      cases ha
      simp [restLimit, hjob, hphase, wakeAt?]
  | failClaim hjob hphase hawaits =>
      cases ha
      have hnone : wakeAt? (.claiming (.returned (.error .transport))) =
        none := rfl
      simp [restLimit, hjob, hphase, wakeAt?_awaits hawaits, hnone]
  | failSettle hjob hphase =>
      cases ha
      simp [restLimit, hjob, hphase, wakeAt?]
  | lose => exact hu.elim
  | @drop v =>
      cases ha
      cases hjob : (net.nodes w).job with
      | none => simp [restLimit, hjob]
      | some job =>
          simp only [Uncut, hjob, Option.map_some] at hu
          have hnone : wakeAt? job.phase = none := by
            unfold wakeAt?
            split
            · next heq => simp [heq] at hu
            · rfl
          simp [restLimit, hjob, hnone]
  | sweep => 
      cases ha
      simp [restLimit]
  | retry _ _ =>
      cases ha
      simp [restLimit]

private theorem Rested.own {a : Action W} {w : W} (hg : Grounded D net)
    (hr : Rested D net) (hu : Uncut net a) (h : D.Step net a net')
    (ha : a.actor = some w) : Ripe D net' w (restLimit net' w) := by
  have hold := (hr w).mono (h.restLimit_le ha hu)
  have same : net'.relay = net.relay → Ripe D net' w (restLimit net' w) :=
    fun hrelay x hx => hold x (hrelay ▸ hx)
  cases h with
  | advance | other => contradiction
  | query => exact same (by simp)
  | lose => exact hu.elim
  | @publish v createdAt id job event phase hjob hpublishes hfresh =>
      cases ha
      intro x hx hmatch hkey
      rw [Net.published_relay] at hx
      rcases List.mem_append.mp hx with hx | hx
      · exact hold x hx hmatch hkey
      · rw [List.mem_singleton.mp hx] at hmatch ⊢
        cases hpublishes with
        | @claim call observed hphase =>
            have hconcerns := (hg.jobs _ _ hjob).phase
            rw [hphase] at hconcerns
            simp [restLimit, Net.published_self, wakeAt?, hconcerns.2.2.1]
        | @settle before after draft hphase hdraft haccepts =>
            have hkind := SettlePhase.publish?_kind hdraft
            simp [Filter.matchEvent, claimFilter, Draft.sign, hkind]
              at hmatch
  | fetch | proceed | handle | failClaim | failSettle | drop | sweep
  | retry => exact same rfl

theorem Rested.step {a : Action W} (hg : Grounded D net) (hr : Rested D net)
    (hu : Uncut net a) (h : D.Step net a net') : Rested D net' := by
  intro w
  by_cases ha : a.actor = some w
  · exact hr.own hg hu h ha
  · have hf := h.frame ha
    refine (hf.ripe (hr w)).mono ?_
    unfold restLimit
    rw [hf.node]
    cases ((net.nodes w).job.map Job.phase).bind wakeAt? with
    | none => exact hf.time
    | some wakeAt => exact le_rfl

theorem rested {P : Net W → Action W → Prop} (hP : ∀ net a, P net a → Uncut net a)
    (h : D.system.Reach P net) : Rested D net :=
  h.invariant
    (fun net h₀ w x hx => by simp [h₀.relay] at hx)
    fun _ _ _ hr hi hp hs =>
      hi.step (grounded hr) (hP _ _ hp) (Deployment.step_cases hs)

/-- Where no call is cut short, every survey meets ripe claims. -/
theorem patient_of_uncut (h : D.system.Reach Uncut net) (a : Action W) :
    Patient D net a := by
  unfold Patient
  split
  · next w =>
      split
      · next call observed heq =>
          have hripe := rested (fun _ _ hu => hu) h w
          rwa [restLimit, heq] at hripe
      · trivial
  · trivial

theorem uncut_return_waited (h : D.system.Reach Uncut net) :
    ReturnsWaited D net := by
  have hpatient : D.system.Reach (Patient D) net := by
    induction h with
    | init h₀ => exact .init h₀
    | step hr hu hs ih => exact .step ih (patient_of_uncut hr _) hs
  exact (patientInv hpatient).returnsWaited h

end Uncut

/-! ## A call cut short after its publish -/

/--
A worker publishes a claim, dies before it sleeps, is started again and finds
its own claim in the survey.
-/
def cutShortRun : List (Action Peer) :=
  [.fetch .first 60, .proceed .first, .query .first, .query .first, .query .first,
    .publish .first 0 (hexOf 'a'), .drop .first, .fetch .first 60, .proceed .first, .query .first,
    .query .first, .query .first, .proceed .first]

def winsEarly (net : Net Peer) : Bool :=
  decide (ReturnedTrue net .first) &&
    (net.nodes .first).history.held.any fun win =>
      net.relay.all fun accepted =>
        decide (win.queriedAt < accepted.acceptedAt + pair.settleMs.val)

theorem cut_short_wins_early :
    ∃ net, pair.system.Reach System.Free net ∧ ¬ ReturnsWaited pair net := by
  obtain ⟨net, hreach, htest⟩ :=
    (System.Reach.init (pairStart_initial 5)).of_run_check
      (S := pair.system) (P := System.Free) cutShortRun
      winsEarly (by decide)
  refine ⟨net, hreach, fun hwaited => ?_⟩
  simp only [winsEarly, Bool.and_eq_true, decide_eq_true_eq] at htest
  obtain ⟨hreturned, hheld⟩ := htest
  obtain ⟨win, hholds, x, hx, -, hle⟩ := hwaited .first hreturned
  rw [hholds.held, Option.any_some, List.all_eq_true] at hheld
  exact absurd hle (by simpa using hheld x hx)

end NostrQ.Cluster
