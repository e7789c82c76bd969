import Mathlib.Data.List.Infix
import NostrQ.Cli.Duration
import NostrQ.Cli.Metrics
import NostrQ.Database.Queues
import NostrQ.Foundation.Amortised
import NostrQ.Foundation.Http

/-!
# The metrics server

A connection reads the lines of one request up to an empty one, waiting for each
of them five seconds at most, and answers what the first line asks for.  What it
has been sent arrives in pieces of any length, and the statistics that it answers
with are queried one after the other.
-/

namespace NostrQ.Cli

open NostrQ.Foundation NostrQ.Core NostrQ.Database

/-! ## What is asked of the store and the relays -/

/--
What the statements of one request meet: the table of queues, and the messages
at the time when the statistics of each queue are taken.
-/
structure StoreAnswers where
  queues : Except String QueueTable
  messages : String → Except String Store

structure RelayAnswers where
  keys : Except String Unit
  urls : Except String (List String)
  health : Except String (List RelayHealth)

/-- A transport without relays is refused. -/
def RelayAnswers.connect (relays : RelayAnswers) (urls : List String) :
    Except String (List RelayHealth) :=
  if urls = [] then
    .error ("no relays configured - run `nostr-q relay add <url>` first")
  else relays.health

section Gathering

variable (describe : StoreError → String)

def StoreAnswers.statsOf (store : StoreAnswers) (now : Int) (q : QueueConfig) :
    Except String (String × QueueStats) := do
  let s ← store.messages q.name
  let stats ← (s.stats q.name now).mapError describe
  .ok (q.name, stats)

/-- `list_queues`, and then `stats` for one queue after the other. -/
def StoreAnswers.gather (store : StoreAnswers) (now : Int) :
    Except String (List (String × QueueStats)) := do
  let table ← store.queues
  let queues ← table.listQueues.mapError describe
  queues.mapM (store.statsOf describe now)

def RelayAnswers.gather (relays : RelayAnswers) :
    Except String (List RelayHealth) := do
  let _ ← relays.keys
  let urls ← relays.urls
  relays.connect urls

def gatherMetrics (store : StoreAnswers) (relays : RelayAnswers)
    (withRelays : Bool) (now : Int) : Except String String := do
  let queues ← store.gather describe now
  let found ← if withRelays then relays.gather.map some else .ok none
  .ok (renderPrometheus queues found)

structure Readiness where
  ready : Bool
  storeOk : Bool
  relaysOk : Option Bool
  detail : Option String
  deriving DecidableEq

def Readiness.render (r : Readiness) : String :=
  (if r.ready then "ready\n" else "not ready\n") ++
    ("store=" ++ (if r.storeOk then "ok" else "unreachable") ++ "\n") ++
    (match r.relaysOk with
      | some true => "relays=ok\n"
      | some false => "relays=unreachable\n"
      | none => "relays=not_checked\n") ++
    (match r.detail with
      | some detail => "detail=" ++ detail ++ "\n"
      | none => "")

/-- Unlike the metrics, a node without relays is not ready, and no error. -/
def probeRelays (relays : RelayAnswers) : Except String Bool := do
  let _ ← relays.keys
  let urls ← relays.urls
  if urls = [] then .ok false
  else
    let found ← relays.connect urls
    .ok (found.any fun r => r.connected)

def errorText {α : Type} : Except String α → Option String
  | .error e => some e
  | .ok _ => none

def gatherReadiness (store : StoreAnswers) (relays : RelayAnswers)
    (withRelays : Bool) (now : Int) : Readiness :=
  let storeResult := store.gather describe now
  let storeOk := storeResult.toOption.isSome
  let detail := errorText storeResult
  if withRelays then
    let relaysOk := (probeRelays relays).toOption.getD false
    { ready := storeOk && relaysOk
      storeOk := storeOk
      relaysOk := some relaysOk
      detail := detail.or (match probeRelays relays with
        | .ok true => none
        | .ok false => some "no configured relay answered"
        | .error e => some e) }
  else ⟨storeOk, storeOk, none, detail⟩

end Gathering

/-! ## Answering -/

def nextWord (text : List Char) : List Char × List Char :=
  (text.dropWhile isWhiteSpace).span fun c => !isWhiteSpace c

/-- The first two words of a request line; missing ones are empty. -/
def methodAndPath (request : String) : String × String :=
  let (method, rest) := nextWord request.toList
  (String.ofList method, String.ofList (nextWord rest).1)

def httpResponse (status contentType body : String) : String :=
  status ++ "\r\nContent-Type: " ++ contentType ++ "\r\nContent-Length: " ++
    body.utf8ByteSize.repr ++ "\r\nConnection: close\r\n\r\n" ++ body

def respond (describe : StoreError → String) (withRelays : Bool)
    (request : String) (store : StoreAnswers) (relays : RelayAnswers)
    (now : Int) : Option String :=
  match methodAndPath request with
  | ("GET", "/metrics") =>
      (gatherMetrics describe store relays withRelays now).toOption.map
        (httpResponse "HTTP/1.1 200 OK" "text/plain; version=0.0.4")
  | ("GET", "/healthz") => some (httpResponse "HTTP/1.1 200 OK" "text/plain" "ok")
  | ("GET", "/readyz") =>
      let report := gatherReadiness describe store relays withRelays now
      some (httpResponse
        (if report.ready then "HTTP/1.1 200 OK"
          else "HTTP/1.1 503 Service Unavailable")
        "text/plain" report.render)
  | _ => some (httpResponse "HTTP/1.1 404 Not Found" "text/plain" "not found")

/-! ## One connection -/

/-- `since` is when the current `read_line` was called. -/
inductive MetricsPhase where
  | requestLine (since : Nat)
  | headers (request : String) (since : Nat)
  | answering (request : String)
  | closed (out : Option String)
  deriving DecidableEq

/-- Of the bytes received, the first `taken` have been read as lines. -/
structure MetricsConnection where
  received : List UInt8
  taken : Nat
  shut : Bool
  time : Nat
  phase : MetricsPhase
  deriving DecidableEq

inductive MetricsAction where
  | receive (chunk : List UInt8)
  | shut
  | tick (ms : Nat)
  | read
  | expire
  | answer (store : StoreAnswers) (relays : RelayAnswers) (now : Int)

/-- The next line with its line feed, or what is left at the end. -/
def nextLine (bytes : List UInt8) (shut : Bool) : Option (List UInt8) :=
  if 10 ∈ bytes then some (bytes.takeWhile (· ≠ 10) ++ [10])
  else if shut then some bytes else none

def decodeLine (line : List UInt8) : Option String :=
  String.fromUTF8? ⟨line.toArray⟩

def EndsHeaders (line : List UInt8) (text : String) : Prop :=
  line = [] ∨ text = "\r\n" ∨ text = "\n"

instance (line : List UInt8) (text : String) :
    Decidable (EndsHeaders line text) :=
  inferInstanceAs (Decidable (_ ∨ _ ∨ _))

def metricsRequestReadTimeout : Nat := 5000

namespace MetricsConnection

variable (describe : StoreError → String) (withRelays : Bool)

def unread (c : MetricsConnection) : List UInt8 := c.received.drop c.taken

def accepted : MetricsConnection where
  received := []
  taken := 0
  shut := false
  time := 0
  phase := .requestLine 0

def readLine (c : MetricsConnection) (line : List UInt8) (text : String) :
    Option MetricsPhase :=
  match c.phase with
  | .requestLine _ =>
      some (if line = [] then .closed none else .headers text c.time)
  | .headers request _ =>
      some (if EndsHeaders line text then .answering request
        else .headers request c.time)
  | _ => none

def expired (c : MetricsConnection) : Bool :=
  match c.phase with
  | .requestLine since | .headers _ since =>
      since + metricsRequestReadTimeout ≤ c.time
  | _ => false

/-- A line that is there is read, also when the time is over. -/
def step (c : MetricsConnection) : MetricsAction → Option MetricsConnection
  | .receive chunk =>
      if c.shut then none else some { c with received := c.received ++ chunk }
  | .shut => some { c with shut := true }
  | .tick ms => some { c with time := c.time + ms }
  | .read =>
      (nextLine c.unread c.shut).bind fun line =>
        match decodeLine line with
        | none =>
            (c.readLine line "").map fun _ => { c with phase := .closed none }
        | some text =>
            (c.readLine line text).map fun phase =>
              { c with taken := c.taken + line.length, phase := phase }
  | .expire =>
      if c.expired && (nextLine c.unread c.shut).isNone then
        some { c with phase := .closed none }
      else none
  | .answer store relays now =>
      match c.phase with
      | .answering request =>
          some { c with
            phase := .closed
              (respond describe withRelays request store relays now) }
      | _ => none

def system : System MetricsConnection MetricsAction where
  init c := c = accepted
  step := step describe withRelays

end MetricsConnection

/-! ## What a stream of bytes asks -/

inductive HeadersEnd (shut : Bool) : List UInt8 → Prop where
  | ends {bytes line : List UInt8} {text : String} :
      nextLine bytes shut = some line → decodeLine line = some text →
      EndsHeaders line text → HeadersEnd shut bytes
  | more {bytes line : List UInt8} {text : String} :
      nextLine bytes shut = some line → decodeLine line = some text →
      ¬ EndsHeaders line text → HeadersEnd shut (bytes.drop line.length) →
      HeadersEnd shut bytes

def Asks (bytes : List UInt8) (shut : Bool) (request : String) : Prop :=
  ∃ line, nextLine bytes shut = some line ∧ line ≠ [] ∧
    decodeLine line = some request ∧ HeadersEnd shut (bytes.drop line.length)

def Grows (bytes : List UInt8) (shut : Bool) (bytes' : List UInt8)
    (shut' : Bool) : Prop :=
  bytes <+: bytes' ∧ (shut = true → bytes' = bytes ∧ shut' = true)

section Streams

variable {bytes bytes' : List UInt8} {shut shut' : Bool}

theorem Grows.refl (bytes : List UInt8) (shut : Bool) :
    Grows bytes shut bytes shut := ⟨List.prefix_rfl, fun h => ⟨rfl, h⟩⟩

theorem Grows.drop (h : Grows bytes shut bytes' shut') (n : Nat) :
    Grows (bytes.drop n) shut (bytes'.drop n) shut' :=
  ⟨List.IsPrefix.drop h.1 n, fun hshut => ⟨by rw [(h.2 hshut).1], (h.2 hshut).2⟩⟩

theorem Grows.nextLine {line : List UInt8} (h : Grows bytes shut bytes' shut')
    (hline : nextLine bytes shut = some line) :
    nextLine bytes' shut' = some line := by
  unfold Cli.nextLine at hline ⊢
  split at hline
  · next hmem =>
      obtain ⟨more, rfl⟩ := h.1
      obtain ⟨first, last, rfl, hfirst⟩ := List.eq_append_cons_of_mem hmem
      have hall : ∀ b ∈ first, decide (b ≠ 10) = true := fun b hb =>
        decide_eq_true (ne_of_mem_of_not_mem hb hfirst)
      rw [List.takeWhile_append_of_pos hall] at hline
      rw [if_pos (List.mem_append_left _ hmem), List.append_assoc,
        List.takeWhile_append_of_pos hall]
      exact hline
  · split at hline
    · next hmem hshut =>
        obtain ⟨rfl, hshut'⟩ := h.2 hshut
        rw [if_neg hmem, if_pos hshut']
        exact hline
    · contradiction

theorem HeadersEnd.hasLine (h : HeadersEnd shut bytes) :
    ∃ line text, nextLine bytes shut = some line ∧
      decodeLine line = some text := by
  cases h with
  | ends hline htext _ => exact ⟨_, _, hline, htext⟩
  | more hline htext _ _ => exact ⟨_, _, hline, htext⟩

theorem headersEnd_iff {line : List UInt8} {text : String}
    (hline : nextLine bytes shut = some line)
    (htext : decodeLine line = some text) (hmore : ¬ EndsHeaders line text) :
    HeadersEnd shut bytes ↔ HeadersEnd shut (bytes.drop line.length) := by
  constructor
  · intro h
    cases h with
    | ends hline' htext' hends =>
        cases hline.symm.trans hline'
        cases htext.symm.trans htext'
        exact absurd hends hmore
    | more hline' _ _ hrest =>
        cases hline.symm.trans hline'
        exact hrest
  · exact .more hline htext hmore

theorem asks_iff {line : List UInt8} {text : String}
    (hline : nextLine bytes shut = some line) (hne : line ≠ [])
    (htext : decodeLine line = some text) (request : String) :
    Asks bytes shut request ↔
      request = text ∧ HeadersEnd shut (bytes.drop line.length) := by
  constructor
  · rintro ⟨line', hline', -, htext', hends⟩
    cases hline.symm.trans hline'
    exact ⟨Option.some.inj (htext'.symm.trans htext), hends⟩
  · rintro ⟨rfl, hends⟩
    exact ⟨line, hline, hne, htext, hends⟩

theorem Grows.trans {bytes'' : List UInt8} {shut'' : Bool}
    (h : Grows bytes shut bytes' shut')
    (h' : Grows bytes' shut' bytes'' shut'') :
    Grows bytes shut bytes'' shut'' := by
  refine ⟨List.IsPrefix.trans h.1 h'.1, fun hshut => ?_⟩
  obtain ⟨rfl, hshut'⟩ := h.2 hshut
  exact h'.2 hshut'

end Streams

namespace MetricsConnection

variable {describe : StoreError → String} {withRelays : Bool}
  {taken : List MetricsAction} {c c' : MetricsConnection}
  {a : MetricsAction} {request out : String}

def Settled (c : MetricsConnection) (request : String) : Prop :=
  ∀ bytes shut, Grows c.received c.shut bytes shut →
    ∀ asked, Asks bytes shut asked ↔ asked = request

def Follows (describe : StoreError → String) (withRelays : Bool)
    (taken : List MetricsAction) (c : MetricsConnection) : Prop :=
  match c.phase with
  | .requestLine _ => c.taken = 0
  | .headers request _ =>
      ∀ bytes shut, Grows c.received c.shut bytes shut → ∀ asked,
        Asks bytes shut asked ↔
          asked = request ∧ HeadersEnd shut (bytes.drop c.taken)
  | .answering request => c.Settled request
  | .closed none => True
  | .closed (some out) => ∃ request store relays now, c.Settled request ∧
      .answer store relays now ∈ taken ∧
      respond describe withRelays request store relays now = some out

private theorem Follows.grow (h : Follows describe withRelays taken c)
    (hphase : c'.phase = c.phase) (htaken : c'.taken = c.taken)
    (hgrows : Grows c.received c.shut c'.received c'.shut) :
    Follows describe withRelays (taken ++ [a]) c' := by
  unfold Follows at h ⊢
  rw [hphase]
  cases hc : c.phase with
  | requestLine since =>
      rw [hc] at h
      exact htaken.trans h
  | headers request since =>
      rw [hc] at h
      intro bytes shut hlater
      rw [htaken]
      exact h bytes shut (hgrows.trans hlater)
  | answering request =>
      rw [hc] at h
      exact fun bytes shut hlater => h bytes shut (hgrows.trans hlater)
  | closed out =>
      rw [hc] at h
      cases out with
      | none => trivial
      | some out =>
          obtain ⟨request, store, relays, now, hsettled, hmem, hout⟩ := h
          exact ⟨request, store, relays, now,
            fun bytes shut hlater => hsettled bytes shut (hgrows.trans hlater),
            List.mem_append_left _ hmem, hout⟩

theorem read_cases (h : step describe withRelays c .read = some c') :
    c' = { c with phase := .closed none } ∨
      ∃ line text phase, nextLine c.unread c.shut = some line ∧
        decodeLine line = some text ∧ c.readLine line text = some phase ∧
        c' = { c with taken := c.taken + line.length, phase := phase } := by
  obtain ⟨line, hline, hread⟩ := Option.bind_eq_some_iff.mp h
  split at hread
  · obtain ⟨phase, -, rfl⟩ := Option.map_eq_some_iff.mp hread
    exact Or.inl rfl
  · next text htext =>
      obtain ⟨phase, hphase, rfl⟩ := Option.map_eq_some_iff.mp hread
      exact Or.inr ⟨line, text, phase, hline, htext, hphase, rfl⟩

private theorem Follows.read (h : Follows describe withRelays taken c)
    (hs : step describe withRelays c .read = some c') :
    Follows describe withRelays (taken ++ [.read]) c' := by
  rcases read_cases hs with rfl | ⟨line, text, phase, hline, htext, hphase, rfl⟩
  · trivial
  · unfold readLine at hphase
    unfold Follows at h
    split at hphase
    · next since hc =>
        simp only [hc] at h
        cases hphase
        by_cases hempty : line = []
        · rw [if_pos hempty]
          trivial
        · rw [if_neg hempty]
          intro bytes shut hlater asked
          rw [unread, h, List.drop_zero] at hline
          rw [asks_iff (hlater.nextLine hline) hempty htext]
          simp [h]
    · next request since hc =>
        simp only [hc] at h
        cases hphase
        have hlines : ∀ bytes shut, Grows c.received c.shut bytes shut →
            nextLine (bytes.drop c.taken) shut = some line :=
          fun bytes shut hlater => (hlater.drop c.taken).nextLine hline
        by_cases hends : EndsHeaders line text
        · rw [if_pos hends]
          intro bytes shut hlater asked
          rw [h bytes shut hlater, and_iff_left_iff_imp]
          intro _
          exact .ends (hlines bytes shut hlater) htext hends
        · rw [if_neg hends]
          intro bytes shut hlater asked
          rw [h bytes shut hlater,
            headersEnd_iff (hlines bytes shut hlater) htext hends,
            List.drop_drop]
    · contradiction

theorem follows_step (h : Follows describe withRelays taken c)
    (hs : step describe withRelays c a = some c') :
    Follows describe withRelays (taken ++ [a]) c' := by
  cases a with
  | receive chunk =>
      simp only [MetricsConnection.step] at hs
      split at hs
      · contradiction
      · next hopen =>
          cases hs
          exact h.grow rfl rfl ⟨List.prefix_append _ _,
            fun hshut => absurd hshut hopen⟩
  | shut =>
      cases hs
      exact h.grow rfl rfl ⟨List.prefix_rfl, fun _ => ⟨rfl, rfl⟩⟩
  | tick ms =>
      cases hs
      exact h.grow rfl rfl (.refl _ _)
  | read => exact h.read hs
  | expire =>
      simp only [MetricsConnection.step] at hs
      split at hs
      · cases hs
        trivial
      · contradiction
  | answer store relays now =>
      simp only [MetricsConnection.step] at hs
      split at hs
      · next request hc =>
          cases hs
          unfold Follows at h ⊢
          simp only [hc] at h
          cases hout : respond describe withRelays request store relays now with
          | none => trivial
          | some out =>
              exact ⟨request, store, relays, now, h, by simp, hout⟩
      · contradiction

theorem follows {P : MetricsConnection → MetricsAction → Prop}
    (h : (system describe withRelays).Trace P taken c) :
    Follows describe withRelays taken c := by
  induction h with
  | init h₀ =>
      rw [h₀]
      exact rfl
  | step _ _ hs ih => exact follows_step ih hs

private theorem Follows.goes_on (h : Follows describe withRelays taken c)
    (hasks : Asks c.received c.shut request)
    (hopen : ∀ out, c.phase ≠ .closed out) :
    step describe withRelays c .expire = none ∧
      (c.phase = .answering request ∨
        (step describe withRelays c .read).isSome = true) := by
  have reads : ∀ line text, nextLine c.unread c.shut = some line →
      decodeLine line = some text → (c.readLine line text).isSome = true →
      step describe withRelays c .expire = none ∧
        (step describe withRelays c .read).isSome = true := by
    intro line text hline htext hread
    obtain ⟨phase, hphase⟩ := Option.isSome_iff_exists.mp hread
    simp [MetricsConnection.step, hline, htext, hphase]
  unfold Follows at h
  cases hc : c.phase with
  | requestLine since =>
      simp only [hc] at h
      obtain ⟨line, hline, -, htext, -⟩ := hasks
      have hread := reads line request (by rw [unread, h]; exact hline) htext
        (by simp [readLine, hc])
      exact ⟨hread.1, Or.inr hread.2⟩
  | headers first since =>
      simp only [hc] at h
      obtain ⟨-, hends⟩ := (h _ _ (.refl _ _) request).mp hasks
      obtain ⟨line, text, hline, htext⟩ := hends.hasLine
      have hread := reads line text hline htext (by simp [readLine, hc])
      exact ⟨hread.1, Or.inr hread.2⟩
  | answering first =>
      simp only [hc] at h
      have heq := (h _ _ (.refl _ _) request).mp hasks
      exact ⟨by simp [MetricsConnection.step, expired, hc], Or.inl (by rw [heq])⟩
  | closed out => exact absurd hc (hopen out)

/--
However the bytes arrive, an answer is the one to the first line of the stream
as a whole, whatever follows it; and once a whole header has arrived, the
connection is not given up for its slowness but read on until it is answered.
-/
theorem answered_by_stream {P : MetricsConnection → MetricsAction → Prop}
    (h : (system describe withRelays).Trace P taken c) :
    (∀ out, c.phase = .closed (some out) → ∃ request store relays now,
      c.Settled request ∧ .answer store relays now ∈ taken ∧
      respond describe withRelays request store relays now = some out) ∧
    ∀ request, Asks c.received c.shut request →
      (∀ out, c.phase ≠ .closed out) →
      step describe withRelays c .expire = none ∧
        (c.phase = .answering request ∨
          (step describe withRelays c .read).isSome = true) := by
  refine ⟨fun out hout => ?_, fun request hasks hopen =>
    (follows h).goes_on hasks hopen⟩
  have hfollows := follows h
  unfold Follows at hfollows
  simpa only [hout] using hfollows

def downStore : StoreAnswers := ⟨.error "locked", fun _ => .error "locked"⟩

def downRelays : RelayAnswers := ⟨.ok (), .ok [], .error "timeout"⟩

/-- A header in two pieces, which is read only when its time is over. -/
def slowHeader : List MetricsAction :=
  [.receive "GET /hea".toUTF8.data.toList, .tick 4000,
    .receive "lthz HTTP/1.1\r\n\r\n".toUTF8.data.toList, .tick 4000]

def slowHeaderAnswered : List MetricsAction :=
  slowHeader ++ [.read, .read, .answer downStore downRelays 0]

theorem answered_by_stream_slow :
    (∃ (c : MetricsConnection) (out : String), c.phase = .closed (some out) ∧
      ∃ request store relays now, c.Settled request ∧
        .answer store relays now ∈ slowHeaderAnswered ∧
        respond (fun _ => "") true request store relays now = some out) ∧
    ∃ (c : MetricsConnection) (request : String),
      Asks c.received c.shut request ∧ c.expired = true ∧
      step (fun _ => "") true c .expire = none := by
  have hstart : (system (fun _ => "") true).Trace System.Free [] accepted :=
    .init rfl
  constructor
  · obtain ⟨c, hc⟩ := Option.isSome_iff_exists.mp
      (show ((system (fun _ => "") true).run System.Free accepted
        slowHeaderAnswered).isSome = true by decide +kernel)
    have hout : ((system (fun _ => "") true).run System.Free accepted
        slowHeaderAnswered).map (fun c => c.phase) =
        some (.closed (some
          (httpResponse "HTTP/1.1 200 OK" "text/plain" "ok"))) := by
      decide +kernel
    rw [hc] at hout
    have hphase := Option.some.inj hout
    exact ⟨c, _, hphase, (answered_by_stream (hstart.of_run hc)).1 _ hphase⟩
  · obtain ⟨c, hc⟩ := Option.isSome_iff_exists.mp
      (show ((system (fun _ => "") true).run System.Free accepted
        slowHeader).isSome = true by decide +kernel)
    have hstream : ((system (fun _ => "") true).run System.Free accepted
        slowHeader).map (fun c => (c.received, c.shut, c.phase, c.expired)) =
        some ("GET /healthz HTTP/1.1\r\n\r\n".toUTF8.data.toList, false,
          .requestLine 0, true) := by
      decide +kernel
    rw [hc] at hstream
    simp only [Option.map_some, Option.some.injEq, Prod.mk.injEq] at hstream
    obtain ⟨hreceived, hshut, hphase, hexpired⟩ := hstream
    have hasks : Asks c.received c.shut "GET /healthz HTTP/1.1\r\n" := by
      rw [hreceived, hshut]
      exact ⟨"GET /healthz HTTP/1.1\r\n".toUTF8.data.toList,
        by decide +kernel, by decide +kernel, by decide +kernel,
        .ends (show nextLine _ false = some [13, 10] by decide +kernel)
          (show decodeLine _ = some "\r\n" by decide +kernel)
          (by decide +kernel)⟩
    exact ⟨c, _, hasks, hexpired, ((answered_by_stream (hstart.of_run hc)).2 _
      hasks fun out hclosed => by rw [hphase] at hclosed; contradiction).1⟩

end MetricsConnection

end NostrQ.Cli
