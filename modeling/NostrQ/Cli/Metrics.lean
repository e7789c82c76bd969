import NostrQ.Database.DeadLetters
import NostrQ.Foundation.Exposition

/-!
# The metrics of a node

The statistics of every queue, and the health of every relay if it was asked
for, as a text of one family after the other.
-/

namespace NostrQ.Cli

open NostrQ.Foundation NostrQ.Database

structure RelayHealth where
  url : String
  connected : Bool
  latencyMs : Option U64
  deriving DecidableEq

def escapeChar : Char → List Char
  | '\\' => ['\\', '\\']
  | '"' => ['\\', '"']
  | '\n' => ['\\', 'n']
  | c => [c]

def escapeLabelValue (s : String) : String :=
  String.ofList (s.toList.flatMap escapeChar)

def gaugeFamily (out name help : String) : String :=
  out ++ ("# HELP " ++ name ++ " " ++ help ++ "\n") ++
    ("# TYPE " ++ name ++ " gauge\n")

def gauge (out name help label : String) (points : List (String × Int)) :
    String :=
  points.foldl (fun out (value, n) => out ++ (name ++ "\x7b" ++ label ++ "=\"" ++
    escapeLabelValue value ++ "\"\x7d " ++ showInt n ++ "\n"))
      (gaugeFamily out name help)

def queueGauge (queues : List (String × QueueStats)) (out name help : String)
    (value : QueueStats → Int) : String :=
  gauge out name help "queue" (queues.map fun (queue, stats) =>
    (queue, value stats))

def relayGauge (relays : List RelayHealth) (out name help : String)
    (value : RelayHealth → Int) : String :=
  gauge out name help "url" (relays.map fun r => (r.url, value r))

def renderPrometheus (queues : List (String × QueueStats))
    (relays : Option (List RelayHealth)) : String :=
  let out := queueGauge queues "" "nostrq_queue_pending"
    "Number of pending messages in the queue." fun stats => stats.pending.val
  let out := queueGauge queues out "nostrq_queue_in_flight"
    "Number of claimed (in-flight) messages in the queue." fun stats =>
      stats.inFlight.val
  let out := queueGauge queues out "nostrq_queue_acked"
    "Number of acknowledged messages in the queue." fun stats =>
      stats.acked.val
  let out := queueGauge queues out "nostrq_queue_dead"
    "Number of dead-lettered messages in the queue." fun stats =>
      stats.dead.val
  let out := queueGauge queues out "nostrq_queue_expired"
    "Number of expired messages in the queue." fun stats => stats.expired.val
  let out := queueGauge queues out "nostrq_queue_oldest_pending_seconds"
    ("Age in seconds of the oldest pending message in the queue " ++
      "(0 when there is none).") fun stats => stats.oldestPendingAgeSecs.getD 0
  match relays with
  | none => out
  | some relays =>
      let out := relayGauge relays out "nostrq_relay_up"
        "Whether the relay is currently connected (1) or not (0)." fun r =>
          if r.connected then 1 else 0
      relayGauge relays out "nostrq_relay_latency_ms"
        ("Relay round-trip latency in milliseconds " ++
          "(0 when unknown or down).") fun r =>
            ((r.latencyMs.getD 0).val : Int)

/-! ## What was measured -/

structure Metric (α : Type) where
  name : String
  help : String
  value : α → Int

def queueMetrics : List (Metric (String × QueueStats)) :=
  [⟨"nostrq_queue_pending", "Number of pending messages in the queue.",
      fun (_, stats) => stats.pending.val⟩,
    ⟨"nostrq_queue_in_flight",
      "Number of claimed (in-flight) messages in the queue.",
      fun (_, stats) => stats.inFlight.val⟩,
    ⟨"nostrq_queue_acked", "Number of acknowledged messages in the queue.",
      fun (_, stats) => stats.acked.val⟩,
    ⟨"nostrq_queue_dead", "Number of dead-lettered messages in the queue.",
      fun (_, stats) => stats.dead.val⟩,
    ⟨"nostrq_queue_expired", "Number of expired messages in the queue.",
      fun (_, stats) => stats.expired.val⟩,
    ⟨"nostrq_queue_oldest_pending_seconds",
      "Age in seconds of the oldest pending message in the queue " ++
        "(0 when there is none).",
      fun (_, stats) => stats.oldestPendingAgeSecs.getD 0⟩]

def relayMetrics : List (Metric RelayHealth) :=
  [⟨"nostrq_relay_up",
      "Whether the relay is currently connected (1) or not (0).",
      fun r => if r.connected then 1 else 0⟩,
    ⟨"nostrq_relay_latency_ms",
      "Relay round-trip latency in milliseconds (0 when unknown or down).",
      fun r => ((r.latencyMs.getD 0).val : Int)⟩]

namespace Metric

variable {α : Type}

def gauge (label : String) (key : α → String) (items : List α)
    (metric : Metric α) : Exposition.Gauge :=
  ⟨metric.name, metric.help, label,
    items.map fun item => (key item, metric.value item)⟩

def sample (label : String) (key : α → String) (item : α) (metric : Metric α) :
    Exposition.Sample :=
  ⟨metric.name, [(label, key item)], metric.value item⟩

end Metric

def measured (queues : List (String × QueueStats))
    (relays : Option (List RelayHealth)) : List Exposition.Gauge :=
  queueMetrics.map (Metric.gauge "queue" Prod.fst queues) ++
    (relays.toList.flatMap fun relays =>
      relayMetrics.map (Metric.gauge "url" RelayHealth.url relays))

/-- The family has exactly one sample of this item, and it is this one. -/
def Shows {α : Type} (families : List Exposition.Family) (label : String)
    (key : α → String) (item : α) (metric : Metric α) : Prop :=
  ∃ family ∈ families, family.name = metric.name ∧
    family.help = metric.help ∧ family.kind = .gauge ∧
    family.samples.filter (fun s => s.labels = [(label, key item)]) =
      [metric.sample label key item]

/-! ## The text of the metrics -/

theorem escapes : Exposition.Escapes escapeChar where
  read := by
    intro c rest
    unfold escapeChar
    split
    · rfl
    · rfl
    · rfl
    · next hslash hquote _ =>
        rw [List.singleton_append, Exposition.readValue]
        · exact fun h => hquote h
        · exact fun _ _ h _ => hslash h
  oneLine := by
    intro c
    unfold escapeChar
    split
    · decide
    · decide
    · decide
    · next hfeed =>
        rw [List.mem_singleton]
        exact fun h => hfeed h.symm

theorem toList_gauge (out name help label : String)
    (points : List (String × Int)) :
    (gauge out name help label points).toList = out.toList ++
      Exposition.joinLines
        (Exposition.Gauge.lines escapeChar ⟨name, help, label, points⟩) := by
  have hpoints (points : List (String × Int)) (out : String) :
      (points.foldl (fun out (value, n) => out ++ (name ++ "\x7b" ++ label ++
        "=\"" ++ escapeLabelValue value ++ "\"\x7d " ++ showInt n ++ "\n"))
          out).toList = out.toList ++ Exposition.joinLines
        (points.map fun (value, n) =>
          Exposition.sampleLine escapeChar name label value n) := by
    induction points generalizing out with
    | nil => simp [Exposition.joinLines]
    | cons point points ih =>
        rw [List.foldl_cons, ih]
        simp [Exposition.joinLines, Exposition.sampleLine, escapeLabelValue]
  rw [gauge, hpoints, gaugeFamily]
  simp [Exposition.joinLines, Exposition.Gauge.lines, Exposition.helpLine,
    Exposition.typeLine]

theorem toList_renderPrometheus (queues : List (String × QueueStats))
    (relays : Option (List RelayHealth)) :
    (renderPrometheus queues relays).toList = Exposition.joinLines
      ((measured queues relays).flatMap
        (Exposition.Gauge.lines escapeChar)) := by
  have happend (lines more : List (List Char)) :
      Exposition.joinLines (lines ++ more) =
        Exposition.joinLines lines ++ Exposition.joinLines more :=
    List.flatMap_append
  cases relays with
  | none =>
      simp only [renderPrometheus, queueGauge, toList_gauge, measured,
        queueMetrics, List.map_cons, List.map_nil, Option.toList_none,
        List.flatMap_nil, List.append_nil, List.flatMap_cons, happend,
        List.append_assoc, String.toList_empty, List.nil_append]
      rfl
  | some relays =>
      simp only [renderPrometheus, queueGauge, relayGauge, toList_gauge,
        measured, queueMetrics, relayMetrics, List.map_cons, List.map_nil,
        Option.toList_some, List.flatMap_nil, List.append_nil,
        List.flatMap_cons, List.flatMap_append, happend, List.append_assoc,
        String.toList_empty, List.nil_append]
      rfl

def Metric.Plain {α : Type} (metric : Metric α) : Prop :=
  Exposition.isName metric.name.toList = true ∧
    Exposition.isPlain metric.help.toList = true

theorem queueMetrics_plain : ∀ metric ∈ queueMetrics, metric.Plain := by
  simp only [queueMetrics, List.forall_mem_cons, Metric.Plain]
  decide +kernel

theorem relayMetrics_plain : ∀ metric ∈ relayMetrics, metric.Plain := by
  simp only [relayMetrics, List.forall_mem_cons, Metric.Plain]
  decide +kernel

section Decoding

variable {α : Type} {label : String} {key : α → String} {items : List α}
  {metric : Metric α}

theorem gauge_wellFormed (hlabel : Exposition.isName label.toList = true)
    (hmetric : metric.Plain) (h : (items.map key).Nodup) :
    (metric.gauge label key items).WellFormed where
  name := hmetric.1
  label := hlabel
  help := hmetric.2
  points := by
    simpa [Metric.gauge, Function.comp_def] using h

theorem filter_key (h : (items.map key).Nodup) {item : α}
    (hitem : item ∈ items) :
    items.filter (fun other => key other = key item) = [item] := by
  induction items with
  | nil => contradiction
  | cons first items ih =>
      rw [List.map_cons, List.nodup_cons] at h
      have hfirst : ∀ other ∈ items, key other ≠ key first :=
        fun other hother hkey => h.1 (List.mem_map.mpr ⟨other, hother, hkey⟩)
      rcases List.mem_cons.mp hitem with rfl | hitem
      · rw [List.filter_cons_of_pos (by simp), List.cons.injEq]
        exact ⟨rfl, List.filter_eq_nil_iff.mpr fun other hother => by
          simpa using hfirst other hother⟩
      · rw [List.filter_cons_of_neg (by simpa using (hfirst item hitem).symm)]
        exact ih h.2 hitem

theorem filter_samples (h : (items.map key).Nodup) {item : α}
    (hitem : item ∈ items) :
    (metric.gauge label key items).family.samples.filter
        (fun s => s.labels = [(label, key item)]) =
      [metric.sample label key item] := by
  have hsamples : (metric.gauge label key items).family.samples =
      items.map (metric.sample label key) := by
    simp [Exposition.Gauge.family, Metric.gauge, Exposition.Gauge.sample,
      Metric.sample]
  rw [hsamples, List.filter_map]
  have hsame : ((fun s : Exposition.Sample =>
      decide (s.labels = [(label, key item)])) ∘ metric.sample label key) =
      fun other => decide (key other = key item) := by
    funext other
    simp [Metric.sample]
  rw [hsame, filter_key h hitem]
  rfl

theorem shows_gauge {families : List Exposition.Family}
    (hmem : (metric.gauge label key items).family ∈ families)
    (h : (items.map key).Nodup) {item : α} (hitem : item ∈ items) :
    Shows families label key item metric :=
  ⟨_, hmem, rfl, rfl, rfl, filter_samples h hitem⟩

end Decoding

section Measured

variable {queues : List (String × QueueStats)}
  {relays : Option (List RelayHealth)}

theorem measured_wellFormed (hqueues : (queues.map Prod.fst).Nodup)
    (hrelays : ∀ found ∈ relays, (found.map RelayHealth.url).Nodup) :
    ∀ g ∈ measured queues relays, g.WellFormed := by
  intro g hg
  rcases List.mem_append.mp hg with hg | hg
  · obtain ⟨metric, hmetric, rfl⟩ := List.mem_map.mp hg
    exact gauge_wellFormed (by decide) (queueMetrics_plain metric hmetric)
      hqueues
  · obtain ⟨found, hfound, hg⟩ := List.mem_flatMap.mp hg
    obtain ⟨metric, hmetric, rfl⟩ := List.mem_map.mp hg
    exact gauge_wellFormed (by decide) (relayMetrics_plain metric hmetric)
      (hrelays found (Option.mem_toList.mp hfound))

theorem measured_names :
    ((measured queues relays).map Exposition.Gauge.name).Nodup := by
  cases relays with
  | none =>
      simp only [measured, queueMetrics, List.map_cons, List.map_nil,
        Option.toList_none, List.flatMap_nil, List.append_nil, Metric.gauge]
      decide +kernel
  | some relays =>
      simp only [measured, queueMetrics, relayMetrics, List.map_cons,
        List.map_nil, Option.toList_some, List.flatMap_cons, List.flatMap_nil,
        List.append_nil, List.map_append, Metric.gauge]
      decide +kernel

/--
The text is read as exactly the families that were measured, in which each queue
and each relay has one sample of each of its metrics.
-/
theorem metrics_decode (hqueues : (queues.map Prod.fst).Nodup)
    (hrelays : ∀ found ∈ relays, (found.map RelayHealth.url).Nodup) :
    ∃ families,
      Exposition.parse (renderPrometheus queues relays) = some families ∧
      families = (measured queues relays).map Exposition.Gauge.family ∧
      (∀ metric ∈ queueMetrics, ∀ queue ∈ queues,
        Shows families "queue" Prod.fst queue metric) ∧
      ∀ found ∈ relays, ∀ metric ∈ relayMetrics, ∀ relay ∈ found,
        Shows families "url" RelayHealth.url relay metric := by
  refine ⟨_, Exposition.parse_gauges escapes
    (toList_renderPrometheus queues relays)
    (measured_wellFormed hqueues hrelays) measured_names, rfl, ?_, ?_⟩
  · intro metric hmetric queue hqueue
    refine shows_gauge (List.mem_map_of_mem ?_) hqueues hqueue
    exact List.mem_append_left _ (List.mem_map_of_mem hmetric)
  · intro found hfound metric hmetric relay hrelay
    refine shows_gauge (List.mem_map_of_mem ?_) (hrelays found hfound) hrelay
    refine List.mem_append_right _ (List.mem_flatMap.mpr
      ⟨found, Option.mem_toList.mpr hfound, List.mem_map_of_mem hmetric⟩)

end Measured

def weirdQueue : String × QueueStats :=
  ("weird\\name\"with\nnewline", ⟨1, 0, 0, 0, 0, none⟩)

def sampleQueues : List (String × QueueStats) :=
  [weirdQueue, ("jobs", ⟨0, 2, 0, 0, 0, some (-5)⟩)]

def sampleRelays : List RelayHealth := [⟨"wss://relay", true, none⟩]

theorem metrics_decode_weird :
    ∃ families,
      Exposition.parse (renderPrometheus sampleQueues (some sampleRelays)) =
        some families ∧
      ∀ metric ∈ queueMetrics,
        Shows families "queue" Prod.fst weirdQueue metric := by
  have hnames : (sampleQueues.map Prod.fst).Nodup := by decide
  have hurls : ∀ found ∈ some sampleRelays,
      (found.map RelayHealth.url).Nodup := by
    rintro _ ⟨⟩
    decide
  obtain ⟨families, hparse, -, hqueues, -⟩ := metrics_decode hnames hurls
  exact ⟨families, hparse, fun metric hmetric =>
    hqueues metric hmetric weirdQueue List.mem_cons_self⟩

end NostrQ.Cli
