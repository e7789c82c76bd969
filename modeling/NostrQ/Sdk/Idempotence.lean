import NostrQ.Sdk.Publish

/-!
# Publishing calls beside each other

Any number of publishing calls on one store, at their own points, with ingest
loops and other users of the store.  A call looks for its idempotency key before
it broadcasts and records the key after that, so calls that looked early enough
all broadcast; the unique index keeps the row of one of them, and whoever
returns a receipt returns that row's.
-/

namespace NostrQ.Database

open NostrQ.Foundation

namespace Store

def keyed (s : Store) (queue key : String) : List Row :=
  s.messages.rows.filter fun row => row.queue = queue ∧ row.idemKey = some key

variable {s s' : Store} {queue key : String} {row : Row}

theorem mem_keyed :
    row ∈ s.keyed queue key ↔
      row ∈ s.messages.rows ∧ row.queue = queue ∧ row.idemKey = some key := by
  simp [keyed]

/-- The unique index on queue and key. -/
theorem keyed_eq_singleton (h : row ∈ s.keyed queue key) :
    s.keyed queue key = [row] := by
  have hunique : (s.keyed queue key).Pairwise
      fun first second => ¬ first.Conflicts second :=
    s.messages.unique.filter _
  have hconflict : ∀ first ∈ s.keyed queue key, ∀ second ∈ s.keyed queue key,
      first.Conflicts second := by
    intro first hfirst second hsecond
    obtain ⟨-, hqueue, hkey⟩ := mem_keyed.mp hfirst
    obtain ⟨-, hqueue', hkey'⟩ := mem_keyed.mp hsecond
    exact Or.inr (Or.inr
      ⟨by simp [hkey], hqueue.trans hqueue'.symm, hkey.trans hkey'.symm⟩)
  cases hrows : s.keyed queue key with
  | nil =>
      rw [hrows] at h
      contradiction
  | cons first rest =>
      rw [hrows] at h hunique hconflict
      cases rest with
      | nil => rw [List.mem_singleton.mp h]
      | cons second rest =>
          exact absurd (hconflict first (by simp) second (by simp))
            ((List.pairwise_cons.mp hunique).1 second (by simp))

theorem Keeps.trans {s'' : Store} (h : s.Keeps s') (h' : s'.Keeps s'') :
    s.Keeps s'' := by
  intro mid row hrow
  obtain ⟨progress, hrow'⟩ := h mid row hrow
  obtain ⟨progress', hrow''⟩ := h' mid _ hrow'
  exact ⟨progress', hrow''⟩

theorem Keeps.keyed (h : s.Keeps s') (hrow : row ∈ s.keyed queue key) :
    ∃ progress, row.set progress ∈ s'.keyed queue key := by
  obtain ⟨hmem, hqueue, hkey⟩ := mem_keyed.mp hrow
  obtain ⟨progress, hrow'⟩ := h _ _ (Messages.row?_of_mem hmem)
  exact ⟨progress, mem_keyed.mpr ⟨(Messages.row?_mem hrow').1, hqueue, hkey⟩⟩

end Store

end NostrQ.Database

namespace NostrQ.Sdk

open NostrQ.Foundation NostrQ.Core NostrQ.Database

def rowReceipt (row : Row) : PublishReceipt :=
  ⟨row.mid, row.traceId, row.eventId⟩

theorem receiptOf_shows {row : Row} {rec : MessageRecord}
    (h : row.Shows rec) : receiptOf rec = rowReceipt row := by
  rw [receiptOf, h.mid, h.traceId, h.eventId, rowReceipt]

/-- A publishing call, and what is remembered of its run. -/
structure Caller (Envelope : Type) where
  call : PublishCall Envelope
  phase : PublishPhase Envelope
  /-- The store its key was looked for in first. -/
  checked : Option Store := none
  /-- The ids of the events that the transport accepted. -/
  broadcasts : List EventId := []

structure Publishers (Envelope : Type) where
  store : Store
  callers : List (Caller Envelope)

inductive PublishersAction (Envelope : Type) where
  | publish (call : PublishCall Envelope)
  | proceed (i : Nat)
  | accepted (i : Nat) (id : EventId) (now : Int)
  | failed (i : Nat)
  | ingest (event : Event)
  | insert (rec : MessageRecord)
  | update (mid : String) (change : Progress → Progress)
  | expire (queue : String) (now : Int)
  | configure (queues : List QueueConfig)

namespace Caller

variable {Envelope : Type} (codec : Codec Envelope)

def proceed (caller : Caller Envelope) (s : Store) :
    Option (Store × Caller Envelope) :=
  (caller.phase.proceed codec s).map fun (s', phase) =>
    (s', { caller with
      phase := phase
      checked := match caller.phase with
        | .checking _ _ => some s
        | _ => caller.checked })

def accepted (caller : Caller Envelope) (id : EventId) (now : Int) :
    Option (Caller Envelope) :=
  (caller.phase.accepted codec id now).map fun phase =>
    { caller with phase := phase, broadcasts := caller.broadcasts ++ [id] }

def failed (caller : Caller Envelope) : Option (Caller Envelope) :=
  caller.phase.failed.map fun phase => { caller with phase := phase }

def receipt? (caller : Caller Envelope) : Option PublishReceipt :=
  match caller.phase with
  | .returned (.ok receipt) => some receipt
  | _ => none

theorem phase_of_receipt? {caller : Caller Envelope} {receipt : PublishReceipt}
    (h : caller.receipt? = some receipt) :
    caller.phase = .returned (.ok receipt) := by
  unfold receipt? at h
  split at h
  · next hphase =>
      cases h
      exact hphase
  · contradiction

end Caller

namespace Publishers

variable {Envelope : Type} (codec : Codec Envelope)

def step (c : Publishers Envelope) :
    PublishersAction Envelope → Option (Publishers Envelope)
  | .publish call =>
      some { c with
        callers := c.callers ++ [{ call := call, phase := .configuring call }] }
  | .proceed i =>
      c.callers[i]?.bind fun caller =>
        (caller.proceed codec c.store).map fun (s, next) =>
          { store := s, callers := c.callers.set i next }
  | .accepted i id now =>
      c.callers[i]?.bind fun caller =>
        (caller.accepted codec id now).map fun next =>
          { c with callers := c.callers.set i next }
  | .failed i =>
      c.callers[i]?.bind fun caller =>
        caller.failed.map fun next => { c with callers := c.callers.set i next }
  | .ingest event => some { c with store := ingest codec c.store event }
  | .insert rec => some { c with store := (c.store.insertMessage rec).2 }
  | .update mid change =>
      some { c with store := (c.store.update mid change).2 }
  | .expire queue now => some { c with store := (c.store.expireDue queue now).2 }
  | .configure queues =>
      some { c with store := { c.store with queues := queues } }

def system : System (Publishers Envelope) (PublishersAction Envelope) where
  init := fun c => c.callers = []
  step := step codec

end Publishers

/-! ## What a call may rely on -/

namespace Caller

variable {Envelope : Type} {codec : Codec Envelope} {caller next : Caller Envelope}
  {s s' : Store}

def Unrecorded (caller : Caller Envelope) : Prop :=
  ∀ key ∈ caller.call.idem,
    ∃ s ∈ caller.checked, s.keyed caller.call.queue key = []

def Tracks (s : Store) (caller : Caller Envelope) : PublishPhase Envelope → Prop
  | .configuring call => call = caller.call ∧ caller.broadcasts = []
  | .checking call _ => call = caller.call ∧ caller.broadcasts = []
  | .publishing call _ _ =>
      call = caller.call ∧ caller.broadcasts = [] ∧ caller.Unrecorded
  | .inserting rec =>
      rec.queue = caller.call.queue ∧ rec.idemKey = caller.call.idem
  | .rereading rec key =>
      rec.queue = caller.call.queue ∧ caller.call.idem = some key
  | .returned result =>
      ∀ receipt, result = .ok receipt → ∀ key ∈ caller.call.idem,
        ∃ row ∈ s.keyed caller.call.queue key, receipt = rowReceipt row

structure Valid (s : Store) (caller : Caller Envelope) : Prop where
  kept : ∀ s₀ ∈ caller.checked, s₀.Keeps s
  once : caller.broadcasts.length ≤ 1
  unrecorded : caller.broadcasts ≠ [] → caller.Unrecorded
  phase : caller.Tracks s caller.phase

theorem Valid.others (h : caller.Valid s) (hkeeps : s.Keeps s') :
    caller.Valid s' := by
  refine ⟨fun s₀ hs₀ => (h.kept s₀ hs₀).trans hkeeps, h.once, h.unrecorded, ?_⟩
  have hphase := h.phase
  cases hcase : caller.phase with
  | returned result =>
      rw [hcase] at hphase
      intro receipt hresult key hkey
      obtain ⟨row, hrow, rfl⟩ := hphase receipt hresult key hkey
      obtain ⟨progress, hrow'⟩ := hkeeps.keyed hrow
      exact ⟨_, hrow', rfl⟩
  | configuring _ | checking _ _ | publishing _ _ _ | inserting _
  | rereading _ _ =>
      rw [hcase] at hphase
      exact hphase

private theorem tracks_error {error : PublishError} :
    caller.Tracks s (.returned (.error error)) := by
  intro receipt hresult
  contradiction

private theorem tracks_build {call : PublishCall Envelope}
    {config : QueueConfig} (hcall : call = caller.call)
    (hnone : caller.broadcasts = []) (hfree : caller.Unrecorded) :
    caller.Tracks s (PublishPhase.build codec call config) := by
  unfold PublishPhase.build
  split
  · exact tracks_error
  · exact ⟨hcall, hnone, hfree⟩

private theorem tracks_found {queue key : String} {existing : MessageRecord}
    (hkey : key ∈ caller.call.idem) (hqueue : queue = caller.call.queue)
    (hfind : s.findByIdem queue key = .ok (some existing)) :
    caller.Tracks s (.returned (.ok (receiptOf existing))) := by
  intro receipt hreceipt key' hkey'
  cases hreceipt
  cases hkey.symm.trans hkey'
  obtain ⟨row, hrow, hrowqueue, hrowkey, hshows⟩ := Store.findByIdem_some hfind
  exact ⟨row, Store.mem_keyed.mpr ⟨hrow, hrowqueue.trans hqueue, hrowkey⟩,
    receiptOf_shows hshows⟩

private theorem tracks_check {call : PublishCall Envelope}
    {config : QueueConfig} (hcall : call = caller.call)
    (hnone : caller.broadcasts = []) (hchecked : caller.checked = some s) :
    caller.Tracks s (PublishPhase.check codec s call config) := by
  subst hcall
  unfold PublishPhase.check
  split
  · next hidem =>
      exact tracks_build rfl hnone fun key hkey => by simp [hidem] at hkey
  · next key hidem =>
      split
      · exact tracks_error
      · next existing hfind => exact tracks_found hidem rfl hfind
      · next hfind =>
          refine tracks_build rfl hnone fun key' hkey' => ⟨s, hchecked, ?_⟩
          cases hidem.symm.trans hkey'
          have hempty := Store.findByIdem_none hfind
          exact List.filter_eq_nil_iff.mpr fun row hrow => by
            simpa using hempty row hrow

private theorem tracks_insert {rec : MessageRecord}
    (hqueue : rec.queue = caller.call.queue)
    (hidem : rec.idemKey = caller.call.idem) :
    caller.Tracks (s.insertMessage rec).2 (PublishPhase.insert s rec) := by
  unfold PublishPhase.insert
  split
  · next hinserted =>
      intro receipt hreceipt key hkey
      cases hreceipt
      have hrow := Store.insertMessage_row?_of_true hinserted
      exact ⟨rec.toRow, Store.mem_keyed.mpr
        ⟨(Messages.row?_mem hrow).1, hqueue, hidem.trans hkey⟩, rfl⟩
  · split
    · next key hkey => exact ⟨hqueue, hidem.symm.trans hkey⟩
    · exact tracks_error

private theorem tracks_reread {rec : MessageRecord} {key : String}
    (hqueue : rec.queue = caller.call.queue)
    (hkey : caller.call.idem = some key) :
    caller.Tracks s (PublishPhase.reread s rec key) := by
  unfold PublishPhase.reread
  split
  · exact tracks_error
  · next existing hfind => exact tracks_found hkey hqueue hfind
  · exact tracks_error

private theorem Valid.resume {phase : PublishPhase Envelope}
    (h : caller.Valid s) (hkeeps : s.Keeps s')
    (hphase : caller.Tracks s' phase) :
    ({ caller with phase := phase } : Caller Envelope).Valid s' where
  kept := fun s₀ hs₀ => (h.kept s₀ hs₀).trans hkeeps
  once := h.once
  unrecorded := h.unrecorded
  phase := by cases phase <;> exact hphase

theorem Valid.proceed (h : caller.Valid s)
    (hs : caller.proceed codec s = some (s', next)) :
    s.Keeps s' ∧ next.Valid s' := by
  obtain ⟨⟨store, phase⟩, hproceed, heq⟩ := Option.map_eq_some_iff.mp hs
  cases heq
  have hphase := h.phase
  cases hcase : caller.phase with
  | configuring call =>
      rw [hcase] at hphase hproceed
      obtain ⟨rfl, hnone⟩ := hphase
      simp only [PublishPhase.proceed] at hproceed
      split at hproceed <;> cases hproceed
      · exact ⟨.refl s, h.resume (.refl s) tracks_error⟩
      · exact ⟨.refl s, h.resume (.refl s) ⟨rfl, hnone⟩⟩
  | checking call config =>
      rw [hcase] at hphase hproceed
      obtain ⟨rfl, hnone⟩ := hphase
      cases hproceed
      refine ⟨.refl s, ?_, h.once, fun hne => absurd hnone hne, ?_⟩
      · rintro s₀ ⟨⟩
        exact .refl s
      · exact tracks_check rfl hnone rfl
  | publishing call mode draft =>
      rw [hcase] at hproceed
      contradiction
  | inserting rec =>
      rw [hcase] at hphase hproceed
      cases hproceed
      have hkeeps := Store.insertMessage_keeps (s := s) rec
      exact ⟨hkeeps, h.resume hkeeps (tracks_insert hphase.1 hphase.2)⟩
  | rereading rec key =>
      rw [hcase] at hphase hproceed
      cases hproceed
      exact ⟨.refl s, h.resume (.refl s) (tracks_reread hphase.1 hphase.2)⟩
  | returned result =>
      rw [hcase] at hproceed
      contradiction

theorem Valid.accepted {id : EventId} {now : Int} (h : caller.Valid s)
    (hs : caller.accepted codec id now = some next) : next.Valid s := by
  obtain ⟨phase, haccepted, rfl⟩ := Option.map_eq_some_iff.mp hs
  have hphase := h.phase
  unfold PublishPhase.accepted at haccepted
  split at haccepted
  · next call mode draft hcase =>
      rw [hcase] at hphase
      obtain ⟨rfl, hnone, hfree⟩ := hphase
      refine ⟨h.kept, by simp [hnone], fun _ => hfree, ?_⟩
      split at haccepted <;> cases haccepted
      · exact tracks_error
      · exact ⟨rfl, rfl⟩
  · contradiction

theorem Valid.failed (h : caller.Valid s) (hs : caller.failed = some next) :
    next.Valid s := by
  obtain ⟨phase, hfailed, rfl⟩ := Option.map_eq_some_iff.mp hs
  unfold PublishPhase.failed at hfailed
  split at hfailed
  · cases hfailed
    exact h.resume (.refl s) tracks_error
  · contradiction

end Caller

namespace Publishers

variable {Envelope : Type} {codec : Codec Envelope} {c c' : Publishers Envelope}

private theorem valid_set {i : Nat} {s : Store} {next : Caller Envelope}
    (h : ∀ caller ∈ c.callers, caller.Valid c.store)
    (hkeeps : c.store.Keeps s) (hnext : next.Valid s) :
    ∀ caller ∈ c.callers.set i next, caller.Valid s := by
  intro caller hcaller
  rcases List.mem_or_eq_of_mem_set hcaller with hold | rfl
  · exact (h caller hold).others hkeeps
  · exact hnext

theorem valid_step {a : PublishersAction Envelope}
    (h : ∀ caller ∈ c.callers, caller.Valid c.store)
    (hs : step codec c a = some c') :
    ∀ caller ∈ c'.callers, caller.Valid c'.store := by
  have others : ∀ {s : Store}, c.store.Keeps s →
      ∀ caller ∈ c.callers, caller.Valid s :=
    fun hkeeps caller hcaller => (h caller hcaller).others hkeeps
  cases a with
  | publish call =>
      cases hs
      intro caller hcaller
      rcases List.mem_append.mp hcaller with hold | hnew
      · exact h caller hold
      · rw [List.mem_singleton.mp hnew]
        exact ⟨by simp, by simp, by simp, rfl, rfl⟩
  | proceed i =>
      obtain ⟨caller, hcaller, hstep⟩ := Option.bind_eq_some_iff.mp hs
      obtain ⟨⟨s, next⟩, hnext, heq⟩ := Option.map_eq_some_iff.mp hstep
      cases heq
      have hvalid := (h caller (List.mem_of_getElem? hcaller)).proceed hnext
      exact valid_set h hvalid.1 hvalid.2
  | accepted i id now =>
      obtain ⟨caller, hcaller, hstep⟩ := Option.bind_eq_some_iff.mp hs
      obtain ⟨next, hnext, rfl⟩ := Option.map_eq_some_iff.mp hstep
      exact valid_set h (.refl _)
        ((h caller (List.mem_of_getElem? hcaller)).accepted hnext)
  | failed i =>
      obtain ⟨caller, hcaller, hstep⟩ := Option.bind_eq_some_iff.mp hs
      obtain ⟨next, hnext, rfl⟩ := Option.map_eq_some_iff.mp hstep
      exact valid_set h (.refl _)
        ((h caller (List.mem_of_getElem? hcaller)).failed hnext)
  | ingest event =>
      cases hs
      refine others ?_
      unfold Sdk.ingest
      split
      · exact .refl _
      · exact Store.insertMessage_keeps _
  | insert rec =>
      cases hs
      exact others (Store.insertMessage_keeps rec)
  | update mid change =>
      cases hs
      exact others (Store.update_moves change).rewrites.keeps
  | expire queue now =>
      cases hs
      exact others (Store.expireDue_rewrites queue now).keeps
  | configure queues =>
      cases hs
      exact others (.refl _)

theorem valid (h : (system codec).Reach System.Free c) :
    ∀ caller ∈ c.callers, caller.Valid c.store :=
  h.invariant (I := fun c => ∀ caller ∈ c.callers, caller.Valid c.store)
    (fun _ hnone => by simp [show _ = [] from hnone])
    fun _ _ _ _ hi _ hs => valid_step hi hs

private theorem held (h : (system codec).Reach System.Free c)
    {caller : Caller Envelope} (hcaller : caller ∈ c.callers)
    {receipt : PublishReceipt} (hreceipt : caller.receipt? = some receipt)
    {key : String} (hkey : caller.call.idem = some key) :
    ∃ row ∈ c.store.keyed caller.call.queue key, receipt = rowReceipt row := by
  have hphase := (valid h caller hcaller).phase
  rw [Caller.phase_of_receipt? hreceipt] at hphase
  exact hphase receipt rfl key hkey

/--
Once some call under a key of a queue has returned a receipt, exactly one row is
stored under the key, and every receipt returned for the key is that row's.
-/
theorem receipts_agree (h : (system codec).Reach System.Free c)
    (queue key : String)
    (hok : ∃ caller ∈ c.callers, caller.call.queue = queue ∧
      caller.call.idem = some key ∧ caller.receipt? ≠ none) :
    ∃ row, c.store.keyed queue key = [row] ∧
      ∀ caller ∈ c.callers, caller.call.queue = queue →
        caller.call.idem = some key →
        ∀ receipt ∈ caller.receipt?, receipt = rowReceipt row := by
  obtain ⟨caller, hcaller, rfl, hkey, hsome⟩ := hok
  obtain ⟨receipt, hreceipt⟩ := Option.ne_none_iff_exists'.mp hsome
  obtain ⟨row, hrow, -⟩ := held h hcaller hreceipt hkey
  have hone := Store.keyed_eq_singleton hrow
  refine ⟨row, hone, fun other hother hqueue hkey' receipt' hreceipt' => ?_⟩
  obtain ⟨row', hrow', rfl⟩ := held h hother hreceipt' hkey'
  rw [hqueue, hone, List.mem_singleton] at hrow'
  rw [hrow']

/--
A call gets at most one message event accepted, and only if it found no row
under its key before; a call that found one can only return that row's receipt.
-/
theorem broadcast_unrecorded (h : (system codec).Reach System.Free c)
    {caller : Caller Envelope} (hcaller : caller ∈ c.callers) {key : String}
    (hkey : caller.call.idem = some key) :
    caller.broadcasts.length ≤ 1 ∧
    (caller.broadcasts ≠ [] →
      ∃ s, caller.checked = some s ∧ s.keyed caller.call.queue key = []) ∧
    ∀ s row, caller.checked = some s → row ∈ s.keyed caller.call.queue key →
      caller.broadcasts = [] ∧
        ∀ receipt ∈ caller.receipt?, receipt = rowReceipt row := by
  have hvalid := valid h caller hcaller
  refine ⟨hvalid.once, fun hne => hvalid.unrecorded hne key hkey, ?_⟩
  intro s row hchecked hrow
  constructor
  · by_contra hne
    obtain ⟨s', hs', hempty⟩ := hvalid.unrecorded hne key hkey
    cases hchecked.symm.trans hs'
    rw [hempty] at hrow
    contradiction
  · intro receipt hreceipt
    obtain ⟨found, hfound, rfl⟩ := held h hcaller hreceipt hkey
    obtain ⟨progress, hkept⟩ := (hvalid.kept s hchecked).keyed hrow
    rw [Store.keyed_eq_singleton hkept, List.mem_singleton] at hfound
    rw [hfound]
    rfl

section Runs

open Publishing

def keyedCall (mid : String) : PublishCall String :=
  { sampleCall with idem := some "order-42", mid := mid }

def sampleNode : Publishers String :=
  ⟨{ Store.empty with queues := [.workQueue "jobs"] }, []⟩

/-- Two calls under one key look for it, broadcast, and insert in turn. -/
def raceRun : List (PublishersAction String) :=
  [.publish (keyedCall "m"), .publish (keyedCall "n"), .proceed 0, .proceed 0,
    .proceed 1, .proceed 1, .accepted 0 (hexOf 'a') 0, .accepted 1 (hexOf 'b') 0,
    .proceed 0, .proceed 1, .proceed 1]

def surviving : PublishReceipt := ⟨"m", "trace", (hexOf 'a').toHex⟩

def Raced (c : Publishers String) : Prop :=
  ∀ caller ∈ c.callers, caller.call.queue = "jobs" ∧
    caller.call.idem = some "order-42" ∧ caller.receipt? = some surviving

instance (c : Publishers String) : Decidable c.Raced :=
  inferInstanceAs (Decidable (∀ _ ∈ _, _))

private theorem reach_raced (more : List (PublishersAction String))
    (sent : List (String × List EventId))
    (hrun : ((system textCodec).run System.Free sampleNode
      (raceRun ++ more)).any (fun c => decide (c.Raced ∧
        c.callers.map (fun caller => (caller.call.mid, caller.broadcasts)) =
          sent)) = true) :
    ∃ c, (system textCodec).Reach System.Free c ∧ c.Raced ∧
      c.callers.map (fun caller => (caller.call.mid, caller.broadcasts)) =
        sent := by
  obtain ⟨c, hreach, htest⟩ :=
    (System.Reach.init (S := system textCodec) (P := System.Free)
      (s := sampleNode) rfl).of_run_check _ _ hrun
  exact ⟨c, hreach, of_decide_eq_true htest⟩

/--
Both calls got their event accepted; the relay keeps a message event of `n`,
while every receipt says `m`.
-/
theorem both_broadcast :
    ∃ c : Publishers String, (system textCodec).Reach System.Free c ∧ c.Raced ∧
      c.callers.map (fun caller => (caller.call.mid, caller.broadcasts)) =
        [("m", [hexOf 'a']), ("n", [hexOf 'b'])] :=
  reach_raced [] _ (by decide)

theorem receipts_agree_raced :
    ∃ c : Publishers String, ∃ row, c.callers ≠ [] ∧
      c.store.keyed "jobs" "order-42" = [row] ∧
      ∀ caller ∈ c.callers, caller.receipt? = some (rowReceipt row) := by
  obtain ⟨c, hreach, hraced, hsent⟩ := reach_raced []
    [("m", [hexOf 'a']), ("n", [hexOf 'b'])] (by decide)
  have hne : c.callers ≠ [] := fun hnil => by simp [hnil] at hsent
  obtain ⟨first, hfirst⟩ := List.exists_mem_of_ne_nil _ hne
  have hfirst' := hraced first hfirst
  obtain ⟨row, hone, hagree⟩ := receipts_agree hreach "jobs" "order-42"
    ⟨first, hfirst, hfirst'.1, hfirst'.2.1, by simp [hfirst'.2.2]⟩
  refine ⟨c, row, hne, hone, fun caller hcaller => ?_⟩
  obtain ⟨hqueue, hkey, hreceipt⟩ := hraced caller hcaller
  rw [← hagree caller hcaller hqueue hkey _ hreceipt, hreceipt]

theorem broadcast_unrecorded_after :
    ∃ c : Publishers String, ∃ caller ∈ c.callers, caller.call.mid = "o" ∧
      caller.receipt? = some surviving ∧ caller.broadcasts = [] ∧
      ∀ s row, caller.checked = some s → row ∈ s.keyed "jobs" "order-42" →
        rowReceipt row = surviving := by
  obtain ⟨c, hreach, hraced, hsent⟩ := reach_raced
    [.publish (keyedCall "o"), .proceed 2, .proceed 2]
    [("m", [hexOf 'a']), ("n", [hexOf 'b']), ("o", [])] (by decide)
  have hmem : (("o", []) : String × List EventId) ∈ c.callers.map
      (fun caller => (caller.call.mid, caller.broadcasts)) := by
    simp [hsent]
  obtain ⟨caller, hcaller, heq⟩ := List.mem_map.mp hmem
  obtain ⟨hmid, hnone⟩ := Prod.mk.injEq .. ▸ heq
  obtain ⟨hqueue, hkey, hreceipt⟩ := hraced caller hcaller
  refine ⟨c, caller, hcaller, hmid, hreceipt, hnone, fun s row hs hrow => ?_⟩
  exact (((broadcast_unrecorded hreach hcaller hkey).2.2 s row hs
    (hqueue ▸ hrow)).2 _ hreceipt).symm

end Runs

end Publishers

end NostrQ.Sdk
