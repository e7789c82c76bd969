import NostrQ.Cli.Duration
import NostrQ.Core.Codec
import NostrQ.Sdk.Publish

/-!
# The HTTP publish ingress

A request to publish passes five gates before anything happens: its query, its
authorisation, its body, its queue and its times.  Between two steps of the
handler anybody else may change the store and the relay.
-/

namespace NostrQ.Cli

open NostrQ.Foundation NostrQ.Core NostrQ.Database NostrQ.Sdk

/-! ## Authorisation -/

def bytesOf (text : String) : List UInt8 := text.toUTF8.data.toList

def constantTimeEq (a b : List UInt8) : Bool :=
  if a.length ≠ b.length then false
  else (a.zip b).foldl (fun diff (x, y) => diff ||| (x ^^^ y)) 0 == 0

def isVisible (b : UInt8) : Bool := (32 ≤ b && b < 127) || b == 9

def headerText (value : List UInt8) : Option (List UInt8) :=
  if value.all isVisible then some value else none

def stripPrefix (head value : List UInt8) : Option (List UInt8) :=
  if head.isPrefixOf value then some (value.drop head.length) else none

def authorized (token : Option String) (authorization : Option (List UInt8)) :
    Bool :=
  match token with
  | none => true
  | some expected =>
      ((authorization.bind headerText).bind
        (stripPrefix (bytesOf "Bearer "))).any
          fun got => constantTimeEq got (bytesOf expected)

def Bears (token : Option String) (authorization : Option (List UInt8)) :
    Prop :=
  ∀ expected ∈ token,
    authorization = some (bytesOf "Bearer " ++ bytesOf expected)

private theorem foldl_diff (pairs : List (UInt8 × UInt8)) (diff : UInt8) :
    pairs.foldl (fun diff (x, y) => diff ||| (x ^^^ y)) diff = 0 ↔
      diff = 0 ∧ ∀ pair ∈ pairs, pair.1 = pair.2 := by
  induction pairs generalizing diff with
  | nil => simp
  | cons pair rest ih =>
      rw [List.foldl_cons, ih, UInt8.or_eq_zero_iff, UInt8.xor_eq_zero_iff,
        List.forall_mem_cons, and_assoc]

private theorem zip_eq_iff {a b : List UInt8} (h : a.length = b.length) :
    (∀ pair ∈ a.zip b, pair.1 = pair.2) ↔ a = b := by
  induction a generalizing b with
  | nil =>
      cases b with
      | nil => simp
      | cons => contradiction
  | cons x a ih =>
      cases b with
      | nil => contradiction
      | cons y b =>
          rw [List.zip_cons_cons, List.forall_mem_cons,
            ih (Nat.succ.inj h), List.cons.injEq]

theorem constantTimeEq_iff {a b : List UInt8} :
    constantTimeEq a b = true ↔ a = b := by
  unfold constantTimeEq
  split
  · next hlength =>
      refine ⟨nofun, ?_⟩
      rintro rfl
      exact absurd rfl hlength
  · next hlength =>
      rw [beq_iff_eq, foldl_diff, zip_eq_iff (not_not.mp hlength)]
      simp

theorem headerText_eq_some {value text : List UInt8} :
    headerText value = some text ↔ value = text ∧ value.all isVisible = true := by
  unfold headerText
  split
  · next hall => simp [hall]
  · next hall => simp [hall]

theorem stripPrefix_eq_some {head value rest : List UInt8} :
    stripPrefix head value = some rest ↔ value = head ++ rest := by
  unfold stripPrefix
  constructor
  · intro h
    split at h
    · next hpre =>
        cases h
        exact (List.prefix_iff_eq_append.mp
          (List.isPrefixOf_iff_prefix.mp hpre)).symm
    · contradiction
  · rintro rfl
    rw [if_pos (List.isPrefixOf_iff_prefix.mpr (List.prefix_append head rest)),
      List.drop_left]

theorem authorized_iff {token : Option String}
    {authorization : Option (List UInt8)} :
    authorized token authorization = true ↔
      Bears token authorization ∧
        (token.isSome → ∀ value ∈ authorization, value.all isVisible = true) := by
  cases token with
  | none => simp [authorized, Bears]
  | some expected =>
      simp only [authorized, Bears, Option.any_eq_true, Option.bind_eq_some_iff,
        headerText_eq_some, stripPrefix_eq_some, constantTimeEq_iff,
        Option.mem_some, forall_eq', Option.isSome_some, forall_const]
      constructor
      · rintro ⟨got, ⟨value, ⟨header, hheader, rfl, hvisible⟩, rfl⟩, rfl⟩
        refine ⟨hheader, ?_⟩
        rintro _ hother
        cases hheader.symm.trans hother
        exact hvisible
      · rintro ⟨hheader, hvisible⟩
        exact ⟨_, ⟨_, ⟨_, hheader, rfl, hvisible _ hheader⟩, rfl⟩, rfl⟩

/-! ## The handler -/

/-- The path and query are decoded; a header that is repeated counts once. -/
structure PubRequest where
  queue : String
  query : List (String × String)
  authorization : Option (List UInt8)
  idempotencyKey : Option (List UInt8)
  body : List UInt8

structure PubQuery where
  delay : Option Int
  ttl : Option Int
  deriving DecidableEq

/-- A parameter that is given twice, or is no integer, is rejected. -/
def queryField (query : List (String × String)) (name : String) :
    Option (Option Int) :=
  match query.filter fun param => param.1 = name with
  | [] => some none
  | [(_, text)] => (queryParam (some text)).toOption
  | _ => none

def extractQuery (query : List (String × String)) : Option PubQuery :=
  (queryField query "delay").bind fun delay =>
    (queryField query "ttl").map fun ttl => ⟨delay, ttl⟩

def INGRESS_MAX_BODY_BYTES : Nat := 1024 * 1024

/-- The texts of rejections and of publishing errors are left out. -/
inductive Response where
  | rejected (status : Nat)
  | error (status : Nat) (message : String)
  | failed (error : PublishError)
  | ok (receipt : PublishReceipt)

def Response.status : Response → Nat
  | .rejected status => status
  | .error status _ => status
  | .failed _ => 500
  | .ok _ => 200

def Response.ClientError (response : Response) : Prop :=
  400 ≤ response.status ∧ response.status < 500

instance (response : Response) : Decidable response.ClientError :=
  inferInstanceAs (Decidable (_ ∧ _))

structure IngressSetup (Value : Type) where
  key : PublicKey
  token : Option String
  parseJson : List UInt8 → Except String Value
  codec : Codec (Envelope Value)

inductive PubPhase (Value : Type) where
  | received
  | lookingUp (query : PubQuery) (payload : Value)
  | resolving (query : PubQuery) (payload : Value)
  | publishing (phase : PublishPhase (Envelope Value))
  | responded (response : Response)

structure Trail where
  lookedIn : Option Store := none
  lookUpFailed : Bool := false
  now : Option Int := none

structure Ingress (Value : Type) where
  store : Store
  relay : List Event
  request : PubRequest
  phase : PubPhase Value
  trail : Trail

inductive PubAction where
  | check
  | lookUp
  | lookUpFailed (message : String)
  | resolve (now createdAt : Int) (mid traceId : String)
  | proceed
  | accepted (id : EventId) (createdAt : U64) (now : Int)
  | lost (id : EventId) (createdAt : U64)
  | publishFailed
  | respond
  | others (store : Store) (relay : List Event)

namespace Ingress

variable {Value : Type} (W : IngressSetup Value)

/-- The extractors, the authorisation and the body, in this order. -/
def checkRequest (request : PubRequest) : Except Response (PubQuery × Value) :=
  match extractQuery request.query with
  | none => .error (.rejected 400)
  | some query =>
      if INGRESS_MAX_BODY_BYTES < request.body.length then
        .error (.rejected 413)
      else if authorized W.token request.authorization then
        match W.parseJson request.body with
        | .error e => .error (.error 400 ("malformed JSON body: " ++ e))
        | .ok payload => .ok (query, payload)
      else .error (.error 401 "unauthorized")

def checked (request : PubRequest) : PubPhase Value :=
  match checkRequest W request with
  | .error response => .responded response
  | .ok (query, payload) => .lookingUp query payload

def lookUp (s : Store) (queue : String) (query : PubQuery) (payload : Value) :
    PubPhase Value :=
  match s.getQueue queue with
  | none => .responded (.error 404 ("unknown queue '" ++ queue ++ "'"))
  | some _ => .resolving query payload

/-- The idempotency key is dropped if it cannot be read as text. -/
def idemKey (request : PubRequest) : Option String :=
  (request.idempotencyKey.bind headerText).map fun text =>
    String.ofList (text.map fun b => Char.ofNat b.toNat)

def resolve (request : PubRequest) (query : PubQuery) (payload : Value)
    (now createdAt : Int) (mid traceId : String) : PubPhase Value :=
  match resolvePublishOpts now query.delay query.ttl with
  | .error message => .responded (.error 400 message)
  | .ok opts => .publishing (.configuring {
      queue := request.queue
      envelope := .new payload createdAt
      idem := idemKey request
      notBefore := opts.notBefore
      expiresAt := opts.expiresAt
      replyTo := none
      mid := mid
      traceId := traceId })

def published : Except PublishError PublishReceipt → Response
  | .ok receipt => .ok receipt
  | .error e => .failed e

def draft? : PubPhase Value → Option Draft
  | .publishing (.publishing _ _ draft) => some draft
  | _ => none

def accepting (c : Ingress Value) (draft : Draft) (id : EventId)
    (createdAt : U64) : List Event :=
  c.relay ++ [draft.sign W.key createdAt id]

def publishStep (c : Ingress Value) (relay : List Event)
    (next : PublishPhase (Envelope Value) →
      Option (Store × PublishPhase (Envelope Value))) :
    Option (Ingress Value) :=
  match c.phase with
  | .publishing phase =>
      (next phase).map fun (store, phase) =>
        { c with store := store, relay := relay, phase := .publishing phase }
  | _ => none

def step (c : Ingress Value) : PubAction → Option (Ingress Value)
  | .check =>
      match c.phase with
      | .received => some { c with phase := checked W c.request }
      | _ => none
  | .lookUp =>
      match c.phase with
      | .lookingUp query payload =>
          some { c with
            phase := lookUp c.store c.request.queue query payload
            trail := { c.trail with lookedIn := some c.store } }
      | _ => none
  | .lookUpFailed message =>
      match c.phase with
      | .lookingUp _ _ =>
          some { c with
            phase := .responded (.error 500 message)
            trail := { c.trail with lookUpFailed := true } }
      | _ => none
  | .resolve now createdAt mid traceId =>
      match c.phase with
      | .resolving query payload =>
          some { c with
            phase := resolve c.request query payload now createdAt mid traceId
            trail := { c.trail with now := some now } }
      | _ => none
  | .proceed => c.publishStep c.relay fun phase => phase.proceed W.codec c.store
  | .accepted id createdAt now =>
      (draft? c.phase).bind fun draft =>
        c.publishStep (accepting W c draft id createdAt) fun phase =>
          (phase.accepted W.codec id now).map fun phase => (c.store, phase)
  | .lost id createdAt =>
      (draft? c.phase).bind fun draft =>
        c.publishStep (accepting W c draft id createdAt) fun phase =>
          phase.failed.map fun phase => (c.store, phase)
  | .publishFailed =>
      c.publishStep c.relay fun phase =>
        phase.failed.map fun phase => (c.store, phase)
  | .respond =>
      match c.phase with
      | .publishing (.returned result) =>
          some { c with phase := .responded (published result) }
      | _ => none
  | .others store relay => some { c with store := store, relay := relay }

def Received (c : Ingress Value) : Prop :=
  ∃ store relay request, c = ⟨store, relay, request, .received, {}⟩

def system : System (Ingress Value) PubAction where
  init := Received
  step := step W

def Own : PubAction → Prop
  | .others _ _ => False
  | _ => True

/-! ## The gates -/

def Within (now : Int) (secs : Option Int) : Prop :=
  ∀ n ∈ secs, 0 ≤ n ∧ InI64 (now + n)

structure Passed (c : Ingress Value) : Prop where
  authorized : Bears W.token c.request.authorization
  json : ∃ payload, W.parseJson c.request.body = .ok payload
  queue : ∃ s ∈ c.trail.lookedIn, ∃ config,
    s.getQueue c.request.queue = some config
  schedule : ∃ now ∈ c.trail.now, ∃ query,
    extractQuery c.request.query = some query ∧
      Within now query.delay ∧ Within now query.ttl

structure Checked (request : PubRequest) (query : PubQuery) : Prop where
  authorized : Bears W.token request.authorization
  json : ∃ payload, W.parseJson request.body = .ok payload
  query : extractQuery request.query = some query

def Guarded (c : Ingress Value) : PubPhase Value → Prop
  | .received => True
  | .lookingUp query _ => Checked W c.request query
  | .resolving query _ => Checked W c.request query ∧
      ∃ s ∈ c.trail.lookedIn, ∃ config,
        s.getQueue c.request.queue = some config
  | .publishing _ => Passed W c
  | .responded response => Passed W c ∨ response.ClientError ∨
      (c.trail.lookUpFailed = true ∧ response.status = 500)

variable {W} {c c' : Ingress Value}

theorem addSeconds_ok {now : Int} {name : String} {secs time : Option Int}
    (h : addSeconds now name secs = .ok time) : Within now secs := by
  cases secs with
  | none => exact nofun
  | some n =>
      simp only [addSeconds] at h
      split at h
      · contradiction
      · next hsign =>
          split at h
          · contradiction
          · next hsum =>
              rintro _ ⟨⟩
              exact ⟨Int.not_lt.mp hsign, (checkedI64_eq_some.mp hsum).1⟩

theorem resolvePublishOpts_ok {now : Int} {delay ttl : Option Int}
    {opts : PublishOptions} (h : resolvePublishOpts now delay ttl = .ok opts) :
    Within now delay ∧ Within now ttl := by
  unfold resolvePublishOpts at h
  split at h
  · contradiction
  · next hdelay =>
      cases httl : addSeconds now "ttl" ttl with
      | error message =>
          rw [httl] at h
          contradiction
      | ok expiresAt => exact ⟨addSeconds_ok hdelay, addSeconds_ok httl⟩

theorem checkRequest_error {request : PubRequest} {response : Response}
    (h : checkRequest W request = .error response) : response.ClientError := by
  unfold checkRequest at h
  split at h
  · cases h
    decide
  · split at h
    · cases h
      decide
    · split at h
      · split at h
        · cases h
          simp [Response.ClientError, Response.status]
        · contradiction
      · cases h
        simp [Response.ClientError, Response.status]

theorem checkRequest_ok {request : PubRequest} {query : PubQuery}
    {payload : Value} (h : checkRequest W request = .ok (query, payload)) :
    Checked W request query := by
  unfold checkRequest at h
  split at h
  · contradiction
  · next found hquery =>
      split at h
      · contradiction
      · split at h
        · next hauthorized =>
            split at h
            · contradiction
            · next hjson =>
                cases h
                exact ⟨(authorized_iff.mp hauthorized).1, ⟨_, hjson⟩, hquery⟩
        · contradiction

theorem Passed.of_same (h : Passed W c) (hrequest : c'.request = c.request)
    (hlooked : c'.trail.lookedIn = c.trail.lookedIn)
    (hnow : c'.trail.now = c.trail.now) : Passed W c' where
  authorized := hrequest ▸ h.authorized
  json := hrequest ▸ h.json
  queue := hrequest ▸ hlooked ▸ h.queue
  schedule := hrequest ▸ hnow ▸ h.schedule

theorem guarded_check (hrequest : c'.request = c.request) :
    Guarded W c' (checked W c.request) := by
  unfold checked
  split
  · next hcheck => exact Or.inr (Or.inl (checkRequest_error hcheck))
  · next hcheck =>
      exact (hrequest.symm ▸ checkRequest_ok hcheck : Checked W c'.request _)

theorem guarded_lookUp {query : PubQuery} {payload : Value}
    (h : Checked W c.request query) (hrequest : c'.request = c.request)
    (hlooked : c'.trail.lookedIn = some c.store) :
    Guarded W c' (lookUp c.store c.request.queue query payload) := by
  unfold lookUp
  split
  · exact Or.inr (Or.inl (by simp [Response.ClientError, Response.status]))
  · next config hconfig =>
      exact ⟨hrequest.symm ▸ h, c.store, hlooked, config,
        hrequest.symm ▸ hconfig⟩

theorem guarded_resolve {query : PubQuery} {payload : Value}
    {now createdAt : Int} {mid traceId : String}
    (h : Guarded W c (.resolving query payload))
    (hrequest : c'.request = c.request)
    (hlooked : c'.trail.lookedIn = c.trail.lookedIn)
    (hnow : c'.trail.now = some now) :
    Guarded W c'
      (resolve c.request query payload now createdAt mid traceId) := by
  obtain ⟨hchecked, hqueue⟩ := h
  unfold resolve
  split
  · exact Or.inr (Or.inl (by simp [Response.ClientError, Response.status]))
  · next opts hopts =>
      exact {
        authorized := hrequest ▸ hchecked.authorized
        json := hrequest ▸ hchecked.json
        queue := hrequest ▸ hlooked ▸ hqueue
        schedule := ⟨now, hnow, query, hrequest ▸ hchecked.query,
          resolvePublishOpts_ok hopts⟩ }

theorem publishStep_cases {relay : List Event}
    {next : PublishPhase (Envelope Value) →
      Option (Store × PublishPhase (Envelope Value))}
    (h : c.publishStep relay next = some c') :
    ∃ phase phase', c.phase = .publishing phase ∧
      c'.phase = .publishing phase' ∧ c'.request = c.request ∧
      c'.trail = c.trail := by
  unfold publishStep at h
  split at h
  · next phase hphase =>
      obtain ⟨⟨store, phase'⟩, -, rfl⟩ := Option.map_eq_some_iff.mp h
      exact ⟨phase, phase', hphase, rfl, rfl, rfl⟩
  · contradiction

theorem guarded_publishStep {relay : List Event}
    {next : PublishPhase (Envelope Value) →
      Option (Store × PublishPhase (Envelope Value))}
    (h : Guarded W c c.phase) (hstep : c.publishStep relay next = some c') :
    Guarded W c' c'.phase := by
  obtain ⟨phase, phase', hphase, hphase', hrequest, htrail⟩ :=
    publishStep_cases hstep
  rw [hphase] at h
  rw [hphase']
  exact Passed.of_same h hrequest (by rw [htrail]) (by rw [htrail])

theorem guarded_step {a : PubAction} (h : Guarded W c c.phase)
    (hstep : step W c a = some c') : Guarded W c' c'.phase := by
  cases a with
  | check =>
      simp only [step] at hstep
      split at hstep
      · cases hstep
        exact guarded_check rfl
      · contradiction
  | lookUp =>
      simp only [step] at hstep
      split at hstep
      · next hphase =>
          cases hstep
          rw [hphase] at h
          exact guarded_lookUp h rfl rfl
      · contradiction
  | lookUpFailed message =>
      simp only [step] at hstep
      split at hstep
      · cases hstep
        exact Or.inr (Or.inr ⟨rfl, rfl⟩)
      · contradiction
  | resolve now createdAt mid traceId =>
      simp only [step] at hstep
      split at hstep
      · next hphase =>
          cases hstep
          rw [hphase] at h
          exact guarded_resolve h rfl rfl rfl
      · contradiction
  | proceed | publishFailed => exact guarded_publishStep h hstep
  | accepted id createdAt now | lost id createdAt =>
      obtain ⟨draft, -, hstep⟩ := Option.bind_eq_some_iff.mp hstep
      exact guarded_publishStep h hstep
  | respond =>
      simp only [step] at hstep
      split at hstep
      · next hphase =>
          cases hstep
          rw [hphase] at h
          exact Or.inl (Passed.of_same h rfl rfl rfl)
      · contradiction
  | others store relay =>
      cases hstep
      cases hphase : c.phase with
      | received => trivial
      | lookingUp query payload => rw [hphase] at h; exact h
      | resolving query payload => rw [hphase] at h; exact h
      | publishing phase =>
          rw [hphase] at h
          exact Passed.of_same h rfl rfl rfl
      | responded response =>
          rw [hphase] at h
          exact h.imp_left fun hpassed => hpassed.of_same rfl rfl rfl

theorem guarded (h : (system W).Reach System.Free c) : Guarded W c c.phase := by
  refine h.invariant (I := fun c => Guarded W c c.phase) ?_
    fun _ _ _ _ hguarded _ hstep => guarded_step hguarded hstep
  rintro _ ⟨store, relay, request, rfl⟩
  trivial

theorem step_unchanged {a : PubAction} (hown : Own a)
    (hstep : step W c a = some c')
    (hphase : ∀ phase, c.phase ≠ .publishing phase) :
    c'.store = c.store ∧ c'.relay = c.relay := by
  cases a with
  | check | lookUp | lookUpFailed _ | resolve _ _ _ _ | respond =>
      simp only [step] at hstep
      split at hstep
      · cases hstep
        exact ⟨rfl, rfl⟩
      · contradiction
  | proceed | publishFailed =>
      obtain ⟨phase, -, hpublishing, -⟩ := publishStep_cases hstep
      exact absurd hpublishing (hphase phase)
  | accepted id createdAt now | lost id createdAt =>
      obtain ⟨draft, -, hstep⟩ := Option.bind_eq_some_iff.mp hstep
      obtain ⟨phase, -, hpublishing, -⟩ := publishStep_cases hstep
      exact absurd hpublishing (hphase phase)
  | others store relay => exact hown.elim

section Runs

def sampleIngress : IngressSetup String where
  key := hexOf 'a'
  token := some "secret"
  parseJson body := if body.isEmpty then .error "EOF" else .ok "body"
  codec := ⟨id, fun envelope => .ok envelope.body, fun text => .ok (.new text 0)⟩

def sampleRequest (query : List (String × String)) : PubRequest where
  queue := "jobs"
  query := query
  authorization := some (bytesOf "Bearer secret")
  idempotencyKey := none
  body := bytesOf "{}"

def arriving (query : List (String × String)) : Ingress String where
  store := { Store.empty with queues := [.workQueue "jobs"] }
  relay := []
  request := sampleRequest query
  phase := .received
  trail := {}

end Runs

end Ingress

end NostrQ.Cli
