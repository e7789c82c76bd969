import NostrQ.Cli.MetricsServer
import NostrQ.Foundation.Fallible

/-!
# Scraping the metrics

What a scraper makes of the answer: the response is one that it can read, its
body is parsed, and the families in it show each queue of the table with the
statistics that were taken of it.
-/

namespace NostrQ.Cli

open NostrQ.Foundation NostrQ.Core NostrQ.Database

/-! ## Gathering -/

section Gathering

variable {describe : StoreError → String} {store : StoreAnswers}
  {relays : RelayAnswers} {withRelays : Bool} {now : Int} {body : String}
  {queues : List (String × QueueStats)}

def StoreAnswers.Taken (store : StoreAnswers) (now : Int)
    (queue : String × QueueStats) : Prop :=
  ∃ s, store.messages queue.1 = .ok s ∧ s.stats queue.1 now = .ok queue.2

theorem StoreAnswers.statsOf_taken {q : QueueConfig}
    {queue : String × QueueStats}
    (h : store.statsOf describe now q = .ok queue) :
    queue.1 = q.name ∧ store.Taken now queue := by
  obtain ⟨s, hs, h⟩ := exists_of_bind_ok h
  obtain ⟨stats, hstats, h⟩ := exists_of_bind_ok h
  cases h
  exact ⟨rfl, s, hs, of_mapError_ok hstats⟩

theorem StoreAnswers.gather_taken (h : store.gather describe now = .ok queues) :
    ∃ table, store.queues = .ok table ∧
      (queues.map Prod.fst).Perm (table.map QueueRow.name) ∧
      ∀ queue ∈ queues, store.Taken now queue := by
  obtain ⟨table, htable, h⟩ := exists_of_bind_ok h
  obtain ⟨configs, hlist, h⟩ := exists_of_bind_ok h
  have hnames : queues.map Prod.fst = configs.map QueueConfig.name :=
    map_eq_of_mapM_ok h fun _ _ hq => (statsOf_taken hq).1
  refine ⟨table, htable, ?_, fun queue hqueue => ?_⟩
  · rw [hnames]
    exact names_listQueues (of_mapError_ok hlist)
  · obtain ⟨q, -, hq⟩ := exists_of_mapM_ok h hqueue
    exact (statsOf_taken hq).2

theorem gatherMetrics_eq (h : gatherMetrics describe store relays withRelays now =
    .ok body) :
    ∃ queues found, store.gather describe now = .ok queues ∧
      body = renderPrometheus queues found ∧ found.isSome = withRelays ∧
      ∀ health ∈ found, relays.gather = .ok health := by
  obtain ⟨queues, hqueues, h⟩ := exists_of_bind_ok h
  cases withRelays with
  | false =>
      cases h
      exact ⟨queues, none, hqueues, rfl, rfl, by simp⟩
  | true =>
      obtain ⟨found, hfound, h⟩ := exists_of_bind_ok h
      cases h
      cases hrelays : relays.gather with
      | error e =>
          rw [hrelays] at hfound
          contradiction
      | ok health =>
          rw [hrelays] at hfound
          cases hfound
          exact ⟨queues, some health, hqueues, rfl, rfl, by simp⟩

theorem RelayAnswers.gather_health {health : List RelayHealth}
    (h : relays.gather = .ok health) : relays.health = .ok health := by
  obtain ⟨-, -, h⟩ := exists_of_bind_ok h
  obtain ⟨urls, -, h⟩ := exists_of_bind_ok h
  unfold RelayAnswers.connect at h
  split at h
  · contradiction
  · exact h

end Gathering

/-! ## The responses -/

def responseOf (status contentType body : String) : Http.Response where
  status := status
  fields := [("Content-Type", contentType),
    ("Content-Length", body.utf8ByteSize.repr), ("Connection", "close")]
  body := body

theorem toList_httpResponse (status contentType body : String) :
    (httpResponse status contentType body).toList =
      Http.writeResponse (responseOf status contentType body) := by
  simp [httpResponse, responseOf, Http.writeResponse, Http.writeLine,
    Http.writeField]

theorem responseOf_wellFormed {status contentType : String} (body : String)
    (hstatus : '\r' ∉ status.toList) (htype : '\r' ∉ contentType.toList) :
    (responseOf status contentType body).WellFormed where
  status := hstatus
  names := by
    simp only [responseOf, List.forall_mem_cons]
    decide +kernel
  values := by
    have hlength : '\r' ∉ body.utf8ByteSize.repr.toList := by
      rw [Nat.toList_repr]
      intro hmem
      have hdigit := Nat.isDigit_of_mem_toDigits (by omega) (by omega) hmem
      revert hdigit
      decide
    simp only [responseOf, List.forall_mem_cons]
    exact ⟨htype, hlength, by decide +kernel, by simp⟩
  length := by
    rw [← Http.utf8ByteSize_eq_sum]
    simp [Http.contentLength, responseOf]

theorem readResponse_httpResponse {status contentType : String} (body : String)
    (hstatus : '\r' ∉ status.toList) (htype : '\r' ∉ contentType.toList) :
    Http.readResponse (httpResponse status contentType body) =
      some (responseOf status contentType body) := by
  rw [← Http.readResponse_writeResponse
    (responseOf_wellFormed body hstatus htype), ← toList_httpResponse,
    String.ofList_toList]

/-! ## The report of a probe -/

namespace Readiness

def firstLine (text : List Char) : List Char × List Char :=
  (text.takeWhile (· ≠ '\n'), (text.dropWhile (· ≠ '\n')).drop 1)

def readRelays (line : List Char) : Option Bool :=
  if line = "relays=ok".toList then some true
  else if line = "relays=unreachable".toList then some false
  else none

def readDetail (text : List Char) : Option String :=
  if text = [] then none
  else some (String.ofList ((text.drop "detail=".length).dropLast))

def read (body : String) : Readiness :=
  let (state, rest) := firstLine body.toList
  let (store, rest) := firstLine rest
  let (relays, rest) := firstLine rest
  { ready := state = "ready".toList
    storeOk := store = "store=ok".toList
    relaysOk := readRelays relays
    detail := readDetail rest }

def stateText (ready : Bool) : String := if ready then "ready" else "not ready"

def storeText (storeOk : Bool) : String :=
  "store=" ++ if storeOk then "ok" else "unreachable"

def relaysText : Option Bool → String
  | some true => "relays=ok"
  | some false => "relays=unreachable"
  | none => "relays=not_checked"

def detailText : Option String → String
  | some detail => "detail=" ++ detail ++ "\n"
  | none => ""

theorem render_eq (r : Readiness) :
    r.render = stateText r.ready ++ "\n" ++ (storeText r.storeOk ++ "\n") ++
      (relaysText r.relaysOk ++ "\n") ++ detailText r.detail := by
  unfold render stateText storeText relaysText detailText
  congr 1
  · congr 1
    · congr 1
      cases r.ready <;> rfl
    · cases r.relaysOk with
      | none => rfl
      | some up => cases up <;> rfl

theorem firstLine_append {line : List Char} (h : '\n' ∉ line)
    (rest : List Char) : firstLine (line ++ '\n' :: rest) = (line, rest) := by
  have hline : ∀ c ∈ line, decide (c ≠ '\n') = true := fun c hc =>
    decide_eq_true (ne_of_mem_of_not_mem hc h)
  unfold firstLine
  rw [List.takeWhile_append_of_pos hline, List.dropWhile_append_of_pos hline]
  simp

@[simp] theorem readDetail_detailText (detail : Option String) :
    readDetail (detailText detail).toList = detail := by
  cases detail with
  | none => rfl
  | some detail =>
      have hprefix : (detailText (some detail)).toList =
          "detail=".toList ++ (detail.toList ++ ['\n']) := by
        simp [detailText]
      have hlength : "detail=".length = "detail=".toList.length := by decide
      rw [readDetail, hprefix, if_neg (by simp), hlength, List.drop_left,
        List.dropLast_concat, String.ofList_toList]

@[simp] theorem readRelays_relaysText (relaysOk : Option Bool) :
    readRelays (relaysText relaysOk).toList = relaysOk := by
  cases relaysOk with
  | none => decide
  | some up => cases up <;> decide

theorem relaysText_oneLine (relaysOk : Option Bool) :
    '\n' ∉ (relaysText relaysOk).toList := by
  cases relaysOk with
  | none => decide
  | some up => cases up <;> decide

theorem read_render (r : Readiness) : read r.render = r := by
  have hstate : '\n' ∉ (stateText r.ready).toList := by
    cases r.ready <;> decide
  have hstore : '\n' ∉ (storeText r.storeOk).toList := by
    cases r.storeOk <;> decide
  have hrelays := relaysText_oneLine r.relaysOk
  have htext : r.render.toList = (stateText r.ready).toList ++ '\n' ::
      ((storeText r.storeOk).toList ++ '\n' ::
        ((relaysText r.relaysOk).toList ++ '\n' ::
          (detailText r.detail).toList)) := by
    simp [render_eq]
  have hready : decide ((stateText r.ready).toList = "ready".toList) =
      r.ready := by
    cases r.ready <;> decide
  have hok : decide ((storeText r.storeOk).toList = "store=ok".toList) =
      r.storeOk := by
    cases r.storeOk <;> decide
  simp only [read, htext, firstLine_append hstate, firstLine_append hstore,
    firstLine_append hrelays, hready, hok, readRelays_relaysText,
    readDetail_detailText]

end Readiness

section Probing

variable {describe : StoreError → String} {store : StoreAnswers}
  {relays : RelayAnswers} {withRelays : Bool} {now : Int}

def Ready (describe : StoreError → String) (store : StoreAnswers)
    (relays : RelayAnswers) (withRelays : Bool) (now : Int) : Prop :=
  (∃ queues, store.gather describe now = .ok queues) ∧
    (withRelays = true → ∃ health, relays.gather = .ok health ∧
      ∃ relay ∈ health, relay.connected = true)

structure Readiness.Tells (report : Readiness) (describe : StoreError → String)
    (store : StoreAnswers) (relays : RelayAnswers) (withRelays : Bool)
    (now : Int) : Prop where
  ready : report.ready = true ↔ Ready describe store relays withRelays now
  storeOk : report.storeOk = true ↔
    ∃ queues, store.gather describe now = .ok queues
  relaysOk : report.relaysOk.isSome = withRelays
  reason : report.detail = none ↔ report.ready = true
  storeFirst : ∀ e, store.gather describe now = .error e →
    report.detail = some e

theorem probeRelays_eq (relays : RelayAnswers) :
    probeRelays relays = .ok true ↔ ∃ health, relays.gather = .ok health ∧
      ∃ relay ∈ health, relay.connected = true := by
  unfold probeRelays RelayAnswers.gather RelayAnswers.connect
  cases relays.keys with
  | error e => simp [bind, Except.bind]
  | ok _ =>
      cases relays.urls with
      | error e => simp [bind, Except.bind]
      | ok urls =>
          by_cases hurls : urls = []
          · simp [bind, Except.bind, hurls]
          · cases relays.health with
            | error e => simp [bind, Except.bind, hurls]
            | ok health => simp [bind, Except.bind, hurls]

theorem gatherReadiness_tells (describe : StoreError → String)
    (store : StoreAnswers) (relays : RelayAnswers) (withRelays : Bool)
    (now : Int) :
    (gatherReadiness describe store relays withRelays now).Tells describe store
      relays withRelays now := by
  have hprobe := probeRelays_eq relays
  unfold gatherReadiness
  cases hstore : store.gather describe now with
  | error e =>
      cases withRelays with
      | false =>
          constructor <;> simp [Ready, hstore, errorText, Except.toOption]
      | true =>
          constructor <;> simp [Ready, hstore, errorText, Except.toOption]
  | ok queues =>
      cases withRelays with
      | false =>
          constructor <;> simp [Ready, hstore, errorText, Except.toOption]
      | true =>
          cases hrelays : probeRelays relays with
          | error e =>
              rw [hrelays] at hprobe
              constructor <;>
                simp [Ready, hstore, errorText, Except.toOption, ← hprobe]
          | ok up =>
              rw [hrelays] at hprobe
              cases up <;> constructor <;>
                simp [Ready, hstore, errorText, Except.toOption, ← hprobe]

end Probing

/-! ## What a client is told -/

/--
The body is parsed, each queue of the table is in it with the statistics that
were taken of it, and each relay with its health.
-/
def Scraped (store : StoreAnswers) (relays : RelayAnswers)
    (withRelays : Bool) (now : Int) (body : String) : Prop :=
  ∃ table queues found families, store.queues = .ok table ∧
    (queues.map Prod.fst).Perm (table.map QueueRow.name) ∧
    (∀ queue ∈ queues, store.Taken now queue) ∧
    found.isSome = withRelays ∧
    (∀ health ∈ found, relays.gather = .ok health) ∧
    Exposition.parse body = some families ∧
    families = (measured queues found).map Exposition.Gauge.family ∧
    (∀ metric ∈ queueMetrics, ∀ queue ∈ queues,
      Shows families "queue" Prod.fst queue metric) ∧
    ∀ health ∈ found, ∀ metric ∈ relayMetrics, ∀ relay ∈ health,
      Shows families "url" RelayHealth.url relay metric

namespace MetricsConnection

/-- Queue names are a primary key, and a pool has one relay for a URL. -/
def Keyed : MetricsAction → Prop
  | .answer store relays _ =>
      (∀ table, store.queues = .ok table →
        (table.map QueueRow.name).Nodup) ∧
      ∀ health, relays.health = .ok health → (health.map RelayHealth.url).Nodup
  | _ => True

section Answers

variable {describe : StoreError → String} {store : StoreAnswers}
  {relays : RelayAnswers} {withRelays : Bool} {now : Int}
  {request out body : String} {taken : List MetricsAction}
  {c : MetricsConnection}

theorem scraped_of_gather (hkeyed : Keyed (.answer store relays now))
    (h : gatherMetrics describe store relays withRelays now = .ok body) :
    Scraped store relays withRelays now body := by
  obtain ⟨queues, found, hqueues, rfl, hfound, hhealth⟩ := gatherMetrics_eq h
  obtain ⟨table, htable, hnames, htaken⟩ := StoreAnswers.gather_taken hqueues
  have hdistinct : (queues.map Prod.fst).Nodup :=
    hnames.nodup_iff.mpr (hkeyed.1 table htable)
  have hurls : ∀ health ∈ found, (health.map RelayHealth.url).Nodup :=
    fun health hmem => hkeyed.2 health (RelayAnswers.gather_health (hhealth health hmem))
  refine ⟨table, queues, found, _, htable, hnames, htaken, hfound, hhealth,
    Exposition.parse_gauges escapes (toList_renderPrometheus queues found)
      (measured_wellFormed hdistinct hurls) measured_names, rfl, ?_, ?_⟩
  · intro metric hmetric queue hqueue
    apply shows_gauge (List.mem_map_of_mem _) hdistinct hqueue
    exact List.mem_append_left _ (List.mem_map_of_mem hmetric)
  · intro health hhealth metric hmetric relay hrelay
    apply shows_gauge (List.mem_map_of_mem _) (hurls health hhealth) hrelay
    exact List.mem_append_right _ (List.mem_flatMap.mpr
      ⟨health, Option.mem_toList.mpr hhealth, List.mem_map_of_mem hmetric⟩)

theorem answered {P : MetricsConnection → MetricsAction → Prop}
    (h : (system describe withRelays).Trace P taken c)
    (hout : c.phase = .closed (some out))
    (hasks : Asks c.received c.shut request) :
    ∃ store relays now, .answer store relays now ∈ taken ∧
      respond describe withRelays request store relays now = some out := by
  have hfollows := follows h
  unfold Follows at hfollows
  simp only [hout] at hfollows
  obtain ⟨first, store, relays, now, hsettled, hmem, hrespond⟩ := hfollows
  have heq := (hsettled _ _ (.refl _ _) request).mp hasks
  exact ⟨store, relays, now, hmem, heq ▸ hrespond⟩

/--
A scraper that asks for the metrics can read the response and parse its body,
and finds each queue of the table there with the statistics that were taken.
-/
theorem scrape_decodes {P : MetricsConnection → MetricsAction → Prop}
    (h : (system describe withRelays).Trace P taken c)
    (hkeyed : ∀ a ∈ taken, Keyed a) (hout : c.phase = .closed (some out))
    (hasks : Asks c.received c.shut request)
    (hpath : methodAndPath request = ("GET", "/metrics")) :
    ∃ store relays now response, .answer store relays now ∈ taken ∧
      Http.readResponse out = some response ∧
      response.status = "HTTP/1.1 200 OK" ∧
      Scraped store relays withRelays now response.body := by
  obtain ⟨store, relays, now, hmem, hrespond⟩ := answered h hout hasks
  simp only [respond, hpath] at hrespond
  obtain ⟨body, hbody, rfl⟩ := Option.map_eq_some_iff.mp hrespond
  cases hgather : gatherMetrics describe store relays withRelays now with
  | error e =>
      rw [hgather] at hbody
      contradiction
  | ok metrics =>
      rw [hgather] at hbody
      cases hbody
      exact ⟨store, relays, now, _, hmem,
        readResponse_httpResponse _ (by decide) (by decide), rfl,
        scraped_of_gather (hkeyed _ hmem) hgather⟩

/--
A probe of readiness is answered with a report that can be read back from the
response: it is ready if and only if the status says so, and gives a reason if
and only if it is not.
-/
theorem probe_tells {P : MetricsConnection → MetricsAction → Prop}
    (h : (system describe withRelays).Trace P taken c)
    (hout : c.phase = .closed (some out))
    (hasks : Asks c.received c.shut request)
    (hpath : methodAndPath request = ("GET", "/readyz")) :
    ∃ store relays now response, .answer store relays now ∈ taken ∧
      Http.readResponse out = some response ∧
      (Readiness.read response.body).Tells describe store relays withRelays
        now ∧
      response.status = (if (Readiness.read response.body).ready
        then "HTTP/1.1 200 OK" else "HTTP/1.1 503 Service Unavailable") := by
  obtain ⟨store, relays, now, hmem, hrespond⟩ := answered h hout hasks
  have htells := gatherReadiness_tells describe store relays withRelays now
  simp only [respond, hpath] at hrespond
  cases hrespond
  refine ⟨store, relays, now, _, hmem,
    readResponse_httpResponse _ ?_ (by decide), ?_, ?_⟩
  · split <;> decide
  · rw [responseOf, Readiness.read_render]
    exact htells
  · rw [responseOf, Readiness.read_render]

end Answers

/-! ## A scrape and a probe -/

def isAnswered (c : MetricsConnection) : Bool :=
  match c.phase with
  | .closed (some _) => true
  | _ => false

def sentLine (line : String) : List UInt8 := line.toUTF8.data.toList

def hostLine : List UInt8 := sentLine "Host: localhost\r\n"

def sentRequest (line : String) : List UInt8 :=
  sentLine line ++ hostLine ++ sentLine "\r\n"

def watchedStore : StoreAnswers where
  queues := .ok
    [.ofConfig (.workQueue "weird \"queue\"\n") 0, .ofConfig (.pubsub "a") 0]
  messages := fun _ => .ok .empty

def watchedRelays : RelayAnswers where
  keys := .ok ()
  urls := .ok ["wss://relay"]
  health := .ok [⟨"wss://relay", true, some 12⟩]

def watchedRun (line : String) : List MetricsAction :=
  [.receive (sentRequest line), .read, .read, .read,
    .answer watchedStore watchedRelays 100]

theorem watchedRun_keyed (line : String) :
    ∀ a ∈ watchedRun line, Keyed a := by
  simp only [watchedRun, List.forall_mem_cons]
  refine ⟨trivial, trivial, trivial, trivial, ⟨?_, ?_⟩, by simp⟩
  · rintro table ⟨⟩
    decide
  · rintro health ⟨⟩
    decide

theorem watchedRun_answered (line : String)
    (hrun : ((system (fun _ => "") true).run System.Free accepted
      (watchedRun line)).any (fun c => c.received = sentRequest line &&
        !c.shut && c.isAnswered) = true) :
    ∃ c out, (system (fun _ => "") true).Trace System.Free (watchedRun line) c ∧
      c.received = sentRequest line ∧ c.shut = false ∧
      c.phase = .closed (some out) := by
  obtain ⟨c, hc, htest⟩ := (Option.any_eq_true _ _).mp hrun
  have htrace : (system (fun _ => "") true).Trace System.Free [] accepted :=
    .init rfl
  simp only [Bool.and_eq_true, decide_eq_true_eq, Bool.not_eq_true'] at htest
  obtain ⟨⟨hreceived, hshut⟩, hanswered⟩ := htest
  unfold isAnswered at hanswered
  split at hanswered
  · next out hphase =>
      exact ⟨c, out, htrace.of_run hc, hreceived, hshut, hphase⟩
  · contradiction

theorem headersEnd_host : HeadersEnd false (hostLine ++ sentLine "\r\n") :=
  .more (show nextLine _ false = some hostLine by decide +kernel)
    (show decodeLine _ = some "Host: localhost\r\n" by decide +kernel)
    (by decide +kernel)
    (.ends (show nextLine _ false = some [13, 10] by decide +kernel)
      (show decodeLine _ = some "\r\n" by decide +kernel) (by decide +kernel))

theorem scrape_decodes_watched :
    ∃ (out : String) (store : StoreAnswers) (relays : RelayAnswers) (now : Int)
      (response : Http.Response),
      .answer store relays now ∈ watchedRun "GET /metrics HTTP/1.1\r\n" ∧
      Http.readResponse out = some response ∧
      response.status = "HTTP/1.1 200 OK" ∧
      Scraped store relays true now response.body := by
  obtain ⟨c, out, htrace, hreceived, hshut, hout⟩ :=
    watchedRun_answered "GET /metrics HTTP/1.1\r\n" (by decide +kernel)
  have hasks : Asks c.received c.shut "GET /metrics HTTP/1.1\r\n" := by
    rw [hreceived, hshut]
    exact ⟨sentLine "GET /metrics HTTP/1.1\r\n", by decide +kernel,
      by decide +kernel, by decide +kernel, headersEnd_host⟩
  exact ⟨out, scrape_decodes htrace (watchedRun_keyed _) hout hasks
    (by decide +kernel)⟩

theorem probe_tells_watched :
    ∃ (out : String) (store : StoreAnswers) (relays : RelayAnswers) (now : Int)
      (response : Http.Response),
      .answer store relays now ∈ watchedRun "GET /readyz HTTP/1.1\r\n" ∧
      Http.readResponse out = some response ∧
      (Readiness.read response.body).Tells (fun _ => "") store relays true now ∧
      response.status = (if (Readiness.read response.body).ready
        then "HTTP/1.1 200 OK" else "HTTP/1.1 503 Service Unavailable") := by
  obtain ⟨c, out, htrace, hreceived, hshut, hout⟩ :=
    watchedRun_answered "GET /readyz HTTP/1.1\r\n" (by decide +kernel)
  have hasks : Asks c.received c.shut "GET /readyz HTTP/1.1\r\n" := by
    rw [hreceived, hshut]
    exact ⟨sentLine "GET /readyz HTTP/1.1\r\n", by decide +kernel,
      by decide +kernel, by decide +kernel, headersEnd_host⟩
  exact ⟨out, probe_tells htrace hout hasks (by decide +kernel)⟩

end MetricsConnection

end NostrQ.Cli
