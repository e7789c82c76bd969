import NostrQ.Cluster.FleetNet

/-!
# One task in the whole fleet

The exclusion that a net of workers has for its message, carried over to whole
processes: of all tasks of all workers that hold a message with an unexpired
lease there is one.
-/

namespace NostrQ.Cluster

open NostrQ.Foundation NostrQ.Core NostrQ.Database NostrQ.Sdk NostrQ.Worker

variable {W Envelope : Type}

/-- Task `i` of `w` has won the message and has not settled it. -/
def HoldsMessage (T : Subject W) (F : Fleet W Envelope) (w : W) (i : Nat) :
    Prop :=
  ∃ task, (F.processes w).tasks[i]? = some task ∧ task.mid = T.mid ∧
    Holding task.job.phase

theorem holding_of_mirrors {job job' : Job} (h : Mirrors job job')
    (hholding : Holding job.phase) : Holding job'.phase := by
  have hphase := h.phase
  generalize job.phase = phase at hphase hholding
  generalize job'.phase = phase' at hphase ⊢
  cases hphase with
  | claiming hclaim =>
      cases hclaim with
      | @during call stage hcall => cases stage <;> exact hholding
      | entering | expiring | returned => exact hholding
  | handling | settling | finished => exact hholding

section Exclusion

variable [DecidableEq W] {S : FleetSetup W Envelope} {T : Subject W}
  {s : Fleet W Envelope × Net W}

omit [DecidableEq W] in
theorem Stands.holding {F : Fleet W Envelope} {net : Net W} {w : W} {i : Nat}
    (h : Stands T F net) (hsound : Sound T F) (hholds : HoldsMessage T F w i) :
    ∃ job, (net.nodes w).job = some job ∧ Holding job.phase := by
  obtain ⟨task, htask, hmid, hholding⟩ := hholds
  have hmem : task ∈ (F.process w).tasks := List.mem_of_getElem? htask
  have hrunning : task.job.phase ≠ .finished := by
    intro hphase
    rw [hphase] at hholding
    exact hholding
  have hguarded : task.guarded = true := by
    by_contra hg
    exact hrunning ((hsound.guarded w).finished task hmem (by simpa using hg))
  obtain ⟨job, hjob, hmirrors⟩ :=
    (h.nodes w).working task hmem hguarded hmid hrunning
  exact ⟨job, hjob, holding_of_mirrors hmirrors hholding⟩

def InOrder (S : FleetSetup W Envelope) (T : Subject W)
    (s : Fleet W Envelope × Net W) (a : W × ProcessAction Envelope) : Prop :=
  T.Fits S s.1 a ∧ ∀ b ∈ T.follow S s.1 a, Orderly (S.deployment T) s.2 b

instance (s : Fleet W Envelope × Net W) (a : W × ProcessAction Envelope) :
    Decidable (InOrder S T s a) :=
  inferInstanceAs (Decidable (_ ∧ _))

theorem fleet_mutual_exclusion (h : (T.watched S).Reach (InOrder S T) s) :
    (∀ w i, HoldsMessage T s.1 w i → ∃ win, Holds s.2 w win) ∧
    ∀ w w' i j, HoldsMessage T s.1 w i → HoldsMessage T s.1 w' j →
      ∀ win win', Holds s.2 w win → Holds s.2 w' win' →
        timestamp s.1.time < win.claim.leaseExpiresAt →
        timestamp s.1.time < win'.claim.leaseExpiresAt →
        w = w' ∧ i = j := by
  have hsound : Sound T s.1 :=
    sound (P := T.Fits S) (fun _ _ hfits => hfits)
      (h.unwatched fun _ _ horder => horder.1)
  obtain ⟨net, hreach, rfl, hstands⟩ :=
    ((fleet_simulates S T).2 (Orderly (S.deployment T))).reach h
  have hinv := exclusionInv hreach
  refine ⟨fun w i hholds => ?_, ?_⟩
  · obtain ⟨job, hjob, hholding⟩ := hstands.holding hsound hholds
    exact (holding hreach).holds w job hjob hholding
  · intro w w' i j hfirst hsecond win win' hwin hwin' hlease hlease'
    rw [← hstands.time] at hlease hlease'
    have hworker : win.worker = win'.worker :=
      (hinv.wins win hwin.unsettled).same_worker (grounded hreach)
        hinv.contended (hinv.wins win' hwin'.unsettled) hlease hlease'
    obtain rfl : w = w' := by rw [← hwin.worker, hworker, hwin'.worker]
    refine ⟨rfl, ?_⟩
    obtain ⟨first, hi, hmid, hholding⟩ := hfirst
    obtain ⟨second, hj, hmid', hholding'⟩ := hsecond
    refine (hsound.guarded w).unique hi hj (hmid.trans hmid'.symm) ?_ ?_
    · intro hphase
      rw [hphase] at hholding
      exact hholding
    · intro hphase
      rw [hphase] at hholding'
      exact hholding'

end Exclusion

/-! ## Two processes -/

section Example

def sampleSetup (w : Peer) : ProcessSetup String :=
  { Process.sampleProcess with
    key := pair.key w
    options := ⟨2, 60, 400, 500⟩ }

def sampleFleet : FleetSetup Peer String where
  worker := sampleSetup
  hashtag := id
  settleMs := 400
  distinct := pair.distinct
  hashtags _ := rfl
  settles _ := rfl

def sampleSubject : Subject Peer where
  message := pair.message
  mid := "m"
  row _ := sampleRecord.toRow
  mids _ := rfl
  named _ := Hex32.fromHex_toHex pair.message

def fleetStart : Fleet Peer String where
  time := 0
  relay := []
  processes _ := Process.sampleBoot

theorem fleetStart_initial : (sampleSubject.system sampleFleet).init fleetStart := by
  refine ⟨rfl, fun w => ⟨⟨rfl, rfl, rfl, rfl, rfl⟩, ?_⟩⟩
  change ∀ row ∈ (Store.empty.insertMessage sampleRecord).2.messages.rows, _
  intro row hrow
  have hsole : row = sampleRecord.toRow := by
    simpa [Store.insertMessage, Store.empty, Messages.insert, Messages.empty]
      using hrow
  have hmid : sampleRecord.toRow.mid = sampleSubject.mid := rfl
  rw [hsole, Subject.Admits, if_pos hmid]
  rfl

/-- Both spawn the message; the second surveys while the first one settles. -/
def contestedRun : List (Peer × ProcessAction String) :=
  List.replicate 5 (.first, .poll) ++ List.replicate 5 (.second, .poll) ++
  [(.first, .task 0 .proceed), (.first, .task 0 .query),
    (.first, .task 0 .query), (.first, .task 0 .query),
    (.first, .task 0 (.publish 0 (hexOf 'a'))),
    (.second, .task 0 .proceed), (.second, .task 0 .query),
    (.second, .task 0 .query), (.second, .task 0 .query),
    (.first, .advance 400), (.first, .task 0 .proceed),
    (.first, .task 0 .query), (.first, .task 0 .query),
    (.first, .task 0 .proceed), (.first, .task 0 .proceed)]

def runsHandler (F : Fleet Peer String) (w : Peer) : Bool :=
  match (F.processes w).tasks[0]? with
  | some task => decide (task.mid = "m") && Task.runs task.job.phase
  | none => false

theorem fleet_mutual_exclusion_contested :
    ∃ s, runsHandler s.1 .first = true ∧
      (sampleSubject.watched sampleFleet).Reach
        (InOrder sampleFleet sampleSubject) s ∧
      (∀ w i, HoldsMessage sampleSubject s.1 w i → ∃ win, Holds s.2 w win) ∧
      ∀ w w' i j, HoldsMessage sampleSubject s.1 w i →
        HoldsMessage sampleSubject s.1 w' j →
        ∀ win win', Holds s.2 w win → Holds s.2 w' win' →
          timestamp s.1.time < win.claim.leaseExpiresAt →
          timestamp s.1.time < win'.claim.leaseExpiresAt →
          w = w' ∧ i = j := by
  obtain ⟨s, hreach, htest⟩ :=
    (System.Reach.init (S := sampleSubject.watched sampleFleet)
      (P := InOrder sampleFleet sampleSubject)
      (s := (fleetStart, sampleSubject.startNet fleetStart))
      ⟨fleetStart_initial, rfl⟩).of_run_check contestedRun
      (fun s => runsHandler s.1 .first) (by decide)
  exact ⟨s, htest, hreach, fleet_mutual_exclusion hreach⟩

end Example

end NostrQ.Cluster
