import ForkliftSafety.Application.AlertIds
import ForkliftSafety.Application.RateLimit
import ForkliftSafety.Infrastructure.AlertFeed
import ForkliftSafety.Library.Funnel

/-! The alerts of all cameras on their way to a dashboard. `main` builds one publisher and hands it
to every pipeline. -/
namespace ForkliftSafety
open Transition Threads Publisher Dashboard

abbrev PipelineState (p : Pipeline) :=
  Config (Fin p.cfg.inferenceWorkers) (PipelineShared p.cfg.inferenceWorkers) Worker

abbrev PipelineLabel (p : Pipeline) := Label (Fin p.cfg.inferenceWorkers) WorkerStep PipelineEvent

/-- The alert that a step of the pipeline hands to `publish`, if any. -/
def emittedAlert (p : Pipeline) (c : PipelineState p) : PipelineLabel p → Option Alert
  | .thread w _ => (c.locals w).handing p
  | .env _ => none

/-- What happens to the publisher and its dashboard besides the calls of `publish`. -/
def ownEvent : AlertFeed.Event → Bool
  | .publisher (.publish _) => false
  | _ => true

/-- The cameras of one process, with the times at which their pipelines were started. -/
structure Site (ι : Type*) where
  pipeline : ι → Pipeline
  startedAt : ι → TimePoint := fun _ => 0

namespace Site
variable {ι : Type*} [DecidableEq ι] (S : Site ι)

/-- `publish` appends to the queue of the publisher and always succeeds. -/
def funnel : Funnel ι (fun i => PipelineState (S.pipeline i))
    (fun i => PipelineLabel (S.pipeline i)) AlertFeed AlertFeed.Event Alert where
  sourceStart i := started (S.pipeline i) (S.startedAt i)
  sourceNext i := (pipelineProgram (S.pipeline i) fun _ _ => .ok ()).step
  emits i := emittedAlert (S.pipeline i)
  sinkStart := {}
  sinkNext := AlertFeed.next
  feed a := .publisher (.publish a)
  own := ownEvent

abbrev State := Funnel.State ι (fun i => PipelineState (S.pipeline i)) AlertFeed Alert

def system : LTS S.State
    (Funnel.Move ι (fun i => PipelineLabel (S.pipeline i)) AlertFeed.Event) := S.funnel.system

end Site

section OneCamera
variable {p : Pipeline} {publish : Fin p.cfg.inferenceWorkers → ℕ → PublishResult}
  {now : TimePoint} {c d : PipelineState p}

theorem step_alerts {label : PipelineLabel p}
    (h : (pipelineProgram p publish).step c label = some d) :
    d.shared.alerts = c.shared.alerts ++ (emittedAlert p c label).toList := by
  unfold PipelineShared.alerts
  cases label with
  | env e =>
    have hstep : ((pipelineProgram p publish).system c).step c (.env e) d := h
    obtain ⟨g, hg, rfl⟩ := Program.system_env hstep
    show g.published.map Prod.snd = c.shared.published.map Prod.snd ++ []
    rw [(pipelineEnv_shared hg).2.2, List.append_nil]
  | thread w step =>
    have hstep : ((pipelineProgram p publish).system c).step c (.thread w step) d := h
    obtain ⟨g, l, hnext, rfl⟩ := Program.system_thread hstep
    show g.published.map Prod.snd =
      c.shared.published.map Prod.snd ++ ((c.locals w).handing p).toList
    rw [(workerNext_shared p hnext).2.2, List.map_append, List.map_map]
    cases (c.locals w).handing p <;> rfl

/-- What a worker has handed over, a `CameraRun` hands over. -/
theorem publishedBy_cameraRun (hc : (pipelineSystem p publish now).Reachable c)
    (w : Fin p.cfg.inferenceWorkers) :
    ∃ r : CameraRun, r.pipeline = p ∧ c.shared.publishedBy w <+: r.handed := by
  obtain ⟨ds, h⟩ := worker_followsLoop hc w
  exact ⟨⟨p, publish w, ds⟩, rfl, h.published_prefix p⟩

theorem offers_cameraId (p : Pipeline) (d : Delivery) :
    ∀ o ∈ offers p d, o.1.cameraId = p.cameraId := by
  intro o ho
  unfold offers at ho
  split_ifs at ho
  · simp at ho
  · cases hinfer : d.infer <;> simp only [hinfer] at ho
    case detections =>
      obtain ⟨a, ha, rfl⟩ := List.mem_map.mp ho
      obtain ⟨f, q, _, rfl⟩ := (mem_evaluate_iff _ _ _ _ a).mp ha
      rfl
    all_goals simp at ho

theorem CameraRun.handed_cameraId (r : CameraRun) :
    ∀ a ∈ r.handed, a.cameraId = r.pipeline.cameraId := by
  intro a ha
  rw [CameraRun.handed, handedAlerts_eq] at ha
  obtain ⟨o, ho, rfl⟩ := List.mem_map.mp ha
  obtain ⟨d, _, hod⟩ := List.mem_flatMap.mp ((Throttle.admitted_sublist _ _ _).subset ho)
  exact offers_cameraId r.pipeline d o hod

/-- Every alert bears the name of its camera, and its id begins with it. -/
theorem alerts_named (hc : (pipelineSystem p publish now).Reachable c) :
    ∀ a ∈ c.shared.alerts, a.cameraId = p.cameraId ∧
      a.alertId = makeAlertId p.cameraId a.forkliftTrackId a.personTrackId a.timestamp := by
  intro a ha
  obtain ⟨⟨w, b⟩, hb, rfl⟩ := List.mem_map.mp ha
  obtain ⟨r, hr, hbegins⟩ := publishedBy_cameraRun hc w
  have hown : b ∈ c.shared.publishedBy w :=
    List.mem_map_of_mem (List.mem_filter.mpr ⟨hb, decide_eq_true rfl⟩)
  have hcamera := r.handed_cameraId b (hbegins.subset hown)
  have hid := r.handed_alertId b (hbegins.subset hown)
  rw [hr] at hcamera hid
  exact ⟨hcamera, hid⟩

/-- With one worker no id is handed over twice. -/
theorem alerts_ids (hone : p.cfg.inferenceWorkers ≤ 1) (hcool : 1 ≤ p.cfg.alertCooldown)
    (hc : (pipelineSystem p publish now).Reachable c) :
    (c.shared.alerts.map Alert.alertId).Nodup := by
  have hsub : Subsingleton (Fin p.cfg.inferenceWorkers) := Fin.subsingleton_iff_le_one.mpr hone
  cases hpublished : c.shared.published with
  | nil => simp [PipelineShared.alerts, hpublished]
  | cons x xs =>
    obtain ⟨r, hr, hbegins⟩ := publishedBy_cameraRun hc x.1
    have hall : (c.shared.published.filter fun y => y.1 = x.1) = c.shared.published := by
      rw [List.filter_eq_self]
      intro y _
      exact decide_eq_true (Subsingleton.elim y.1 x.1)
    rw [PipelineShared.publishedBy, hall] at hbegins
    have hids := r.handed_ids (hr ▸ hcool)
    exact hids.sublist (hbegins.sublist.map Alert.alertId)

/-- A digit or a sign needs no escape. -/
theorem plain_toString (n : ℤ) : Json.PlainText (toString n).toList := by
  intro ch hch
  refine ⟨?_, ?_, ?_⟩
  · rintro rfl
    exact Decimal.notMem_toString (by decide) (by decide) n hch
  · rintro rfl
    exact Decimal.notMem_toString (by decide) (by decide) n hch
  · by_contra hlow
    have hdigit : ch.isDigit = false := by
      simp only [Char.isDigit, Bool.and_eq_false_iff, decide_eq_false_iff_not, ge_iff_le]
      left
      intro hle
      have hnat : (48 : ℕ) ≤ ch.toNat := UInt32.le_iff_toNat_le.mp hle
      omega
    have hsign : ch ≠ '-' := by
      rintro rfl
      exact hlow (by decide)
    exact Decimal.notMem_toString hdigit hsign n hch

theorem plain_append {xs ys : List Char} (hx : Json.PlainText xs) (hy : Json.PlainText ys) :
    Json.PlainText (xs ++ ys) := by
  intro ch hch
  rcases List.mem_append.mp hch with h | h
  · exact hx ch h
  · exact hy ch h

theorem plain_makeAlertId {cameraId : String} (h : Json.PlainText cameraId.toList) (f q : ℤ)
    (ts : TimePoint) : Json.PlainText (makeAlertId cameraId f q ts).toList := by
  have hcons : ∀ {ch : Char} {xs : List Char}, Json.Plain ch → Json.PlainText xs →
      Json.PlainText (ch :: xs) := by
    intro ch xs hch hxs
    exact List.forall_mem_cons.mpr ⟨hch, hxs⟩
  have hcolon : Json.Plain ':' := by decide
  rw [makeAlertId_toList]
  apply plain_append (plain_append (plain_append h _) _)
  · exact hcons hcolon (plain_toString ts)
  · exact hcons hcolon (hcons (by decide) (plain_toString f))
  · exact hcons hcolon (hcons (by decide) (plain_toString q))

/-- What `addAlert` puts into the template for an alert of the camera. -/
def cameraLabel (cameraId : String) : Json.Value :=
  .string (if cameraId.toList.isEmpty then ['?'] else cameraId.toList)

theorem listedCamera_serialize {a : Alert} (hid : Json.PlainText a.alertId.toList)
    (hcamera : Json.PlainText a.cameraId.toList) :
    listedCamera (serialize a).toList = some (cameraLabel a.cameraId) := by
  have hmember : property "camera_id".toList (printedMembers a) = .string a.cameraId.toList := rfl
  rw [listedCamera, parse_serialize_printed hid hcamera, Option.bind_some]
  simp only [alertCamera, hmember, truthy, cameraLabel]
  cases a.cameraId.toList <;> rfl

end OneCamera

namespace Site
variable {ι : Type*} [DecidableEq ι] {S : Site ι} {s : S.State}

theorem camera_reachable (h : S.system.Reachable s) (i : ι) :
    (pipelineSystem (S.pipeline i) (fun _ _ => .ok ()) (S.startedAt i)).Reachable (s.sources i) :=
  Funnel.source_reachable h i

theorem feed_reachable (h : S.system.Reachable s) : AlertFeed.system.Reachable s.sink :=
  Funnel.sink_reachable h

theorem handed_eq_alerts (h : S.system.Reachable s) (i : ι) :
    s.handed i = (s.sources i).shared.alerts := by
  apply Funnel.handed_eq i (fun c : PipelineState (S.pipeline i) => c.shared.alerts) rfl _ h
  intro c label d hstep
  exact step_alerts hstep

/-- Only `publish` adds to the published alerts. -/
theorem own_published {u v : AlertFeed} {e : AlertFeed.Event} (hown : ownEvent e = true)
    (hstep : AlertFeed.next u e = some v) : v.publisher.published = u.publisher.published := by
  rcases AlertFeed.next_publisher hstep with hsame | ⟨a, ha, hevent⟩
  · rw [hsame]
  · cases next_queueStep ha with
    | publish alert hpublish _ =>
      rcases hevent with rfl | haccept
      · rw [hpublish] at hown
        contradiction
      · simp [haccept] at hpublish
    | drain _ hpublished _ _ => exact hpublished
    | same _ hpublished _ _ => exact hpublished

/-- The publisher has queued the texts of the alerts in the order in which the workers handed them
over. -/
theorem published_payloads (h : S.system.Reachable s) :
    s.sink.publisher.published.map Message.payload = s.log.map fun x => serialize x.2 := by
  apply Funnel.fed_eq (fun u : AlertFeed => u.publisher.published.map Message.payload) serialize
    rfl _ _ h
  · intro u alert v hstep
    have hfeed : some { u with publisher := publish u.publisher alert } = some v := hstep
    obtain rfl := Option.some.inj hfeed
    simp [publish]
  · intro u e v hown hstep
    exact congrArg (List.map Message.payload) (own_published hown hstep)

/-- The alerts of one camera among those of several. -/
def ofCamera (i : ι) (alerts : List (ι × Alert)) : List Alert :=
  (alerts.filter fun x => x.1 = i).map Prod.snd

/-- The messages are the texts of `alerts`, which come in the order in which they were handed over,
those of each camera in the order in which its pipeline raised them. -/
structure Carries (s : S.State) (messages : List Message) (alerts : List (ι × Alert)) : Prop where
  payloads : messages.map Message.payload = alerts.map fun x => serialize x.2
  ordered : alerts.Sublist s.log
  cameras : ∀ i, (ofCamera i alerts).Sublist (s.sources i).shared.alerts

theorem exists_carries (h : S.system.Reachable s) {messages : List Message}
    (hpublished : messages.Sublist s.sink.publisher.published) :
    ∃ alerts, Carries s messages alerts := by
  have htexts := hpublished.map Message.payload
  rw [published_payloads h] at htexts
  obtain ⟨alerts, hordered, hpayloads⟩ := List.sublist_map_iff.mp htexts
  refine ⟨alerts, hpayloads, hordered, ?_⟩
  intro i
  rw [← handed_eq_alerts h i]
  exact (hordered.filter _).map Prod.snd

def dockAndGate : Site Bool where
  pipeline gate := { cameraId := if gate then "gate" else "dock" }

/-- A camera sees a person next to a forklift. -/
def raiseAlarm (gate : Bool) :
    List (Funnel.Move Bool (fun i => PipelineLabel (dockAndGate.pipeline i)) AlertFeed.Event) :=
  ([none, some liveFrame, none].map fun read => .source gate (.env (.capture read))) ++
    (alarmSteps (dockAndGate.pipeline gate)).map fun a =>
      .source gate (.thread (⟨0, Nat.zero_lt_one⟩ : Fin 1) a)

/-- The alert of the dock goes out while the dashboard is connected, that of the gate later. -/
def alarmsSeen :
    List (Funnel.Move Bool (fun i => PipelineLabel (dockAndGate.pipeline i)) AlertFeed.Event) :=
  [.publisher .start, .accepted 0, .publisher (.handshake 0 true), .opened 0].map .sink ++
    raiseAlarm false ++ raiseAlarm true ++
    [.publisher .post, .publisher .drain, .publisher .dispatch, .message 0, .clear,
      .publisher .dispatch, .publisher (.writeDone 0 true), .message 0].map .sink

theorem alarmsSeen_run : ∃ s : dockAndGate.State, dockAndGate.system.Reachable s ∧
    s.log.map Prod.fst = [false, true] ∧ s.sink.received.map Message.place = [0, 1] ∧
    s.sink.listed.map Message.place = [1] := by
  have hrun : (exec dockAndGate.funnel.next
      { sources := dockAndGate.funnel.sourceStart, sink := {} } alarmsSeen).map (fun s =>
        (s.log.map Prod.fst, s.sink.received.map Message.place,
          s.sink.listed.map Message.place)) = some ([false, true], [0, 1], [1]) := by
    decide +kernel
  obtain ⟨s, hs, hview⟩ := Option.map_eq_some_iff.mp hrun
  simp only [Prod.mk.injEq] at hview
  exact ⟨s, reachable_of_exec hs, hview⟩

/-- Whatever the cameras, the publisher, its clients and the dashboard do, and in which order: the
dashboard and every other client get alerts of the cameras in the order of the cameras. -/
theorem site_delivers (h : S.system.Reachable s) :
    (∃ alerts, Carries s s.sink.received alerts) ∧
      ∀ k, ∃ alerts, Carries s (s.sink.publisher.clients k).taken alerts := by
  have hpublisher := AlertFeed.publisher_reachable (feed_reachable h)
  refine ⟨exists_carries h (AlertFeed.received_sublist (feed_reachable h)), ?_⟩
  intro k
  have hstaged := staged_of_reachable hpublisher
  have htaken := taken_behind (n := 0) (hstaged.stage k).tookRun rfl
  exact exists_carries h (htaken.trans (dispatched_sublist hpublisher).1)

theorem alarmsSeen_delivered : ∃ s : dockAndGate.State, s.log.map Prod.fst = [false, true] ∧
    (∃ alerts, Carries s s.sink.received alerts) ∧
      ∀ k, ∃ alerts, Carries s (s.sink.publisher.clients k).taken alerts := by
  obtain ⟨s, hs, hlog, _⟩ := alarmsSeen_run
  exact ⟨s, hlog, site_delivers hs⟩

theorem mem_alerts (h : S.system.Reachable s) {x : ι × Alert} (hx : x ∈ s.log) :
    x.2 ∈ (s.sources x.1).shared.alerts := by
  rw [← handed_eq_alerts h]
  exact Funnel.mem_handed hx

/-- Alerts of one camera differ in the id where those of its pipeline do, and those of two cameras
where the names of the cameras do. -/
theorem Carries.ids {messages : List Message} {alerts : List (ι × Alert)}
    (hs : Carries s messages alerts) (h : S.system.Reachable s)
    (hnames : Function.Injective fun i => (S.pipeline i).cameraId)
    (hids : ∀ i, ((s.sources i).shared.alerts.map Alert.alertId).Nodup) :
    (alerts.map fun x => x.2.alertId).Nodup := by
  rw [List.Nodup, List.pairwise_map]
  have hnamed : ∀ x ∈ alerts, x.2.alertId = makeAlertId (S.pipeline x.1).cameraId
      x.2.forkliftTrackId x.2.personTrackId x.2.timestamp := by
    intro x hx
    have hmem := mem_alerts h (hs.ordered.subset hx)
    exact (alerts_named (camera_reachable h x.1) x.2 hmem).2
  have hapart : alerts.Pairwise fun x y => x.1 = y.1 → x.2.alertId ≠ y.2.alertId := by
    rw [List.pairwise_iff_forall_sublist]
    intro x y hxy hsame hid
    have hpair : (ofCamera x.1 [x, y]).Sublist (s.sources x.1).shared.alerts :=
      ((hxy.filter _).map Prod.snd).trans (hs.cameras x.1)
    have hdistinct := (hids x.1).sublist (hpair.map Alert.alertId)
    simp [ofCamera, hsame, hid] at hdistinct
  apply hapart.imp_of_mem
  intro x y hx hy hxy hid
  rw [hnamed x hx, hnamed y hy] at hid
  have hcamera := (makeAlertId_injective hid).1
  exact hxy (hnames hcamera) (by rw [hnamed x hx, hnamed y hy, hid])

/-- With one worker for each camera and cameras of different names, a dashboard never gets two
alerts of one id, nor two alerts of one track within the cooldown of its camera. -/
theorem site_spaces {S : Site ι} {s : S.State} (hone : ∀ i, (S.pipeline i).cfg.inferenceWorkers ≤ 1)
    (hcool : ∀ i, 1 ≤ (S.pipeline i).cfg.alertCooldown)
    (hnames : Function.Injective fun i => (S.pipeline i).cameraId) (h : S.system.Reachable s) :
    ∃ alerts, Carries s s.sink.received alerts ∧ (alerts.map fun x => x.2.alertId).Nodup ∧
      ∀ i, RateLimited (S.pipeline i).cfg.alertCooldown (ofCamera i alerts) := by
  obtain ⟨alerts, hs⟩ := exists_carries h (AlertFeed.received_sublist (feed_reachable h))
  refine ⟨alerts, hs, hs.ids h hnames fun i => ?_, fun i => ?_⟩
  · exact alerts_ids (hone i) (hcool i) (camera_reachable h i)
  · exact (rateLimited_of_one_worker (hone i) (camera_reachable h i)).sublist (hs.cameras i)

theorem alarmsSeen_spaced : ∃ s : dockAndGate.State, s.log.map Prod.fst = [false, true] ∧
    ∃ alerts, Carries s s.sink.received alerts ∧ (alerts.map fun x => x.2.alertId).Nodup ∧
      ∀ i, RateLimited (dockAndGate.pipeline i).cfg.alertCooldown (ofCamera i alerts) := by
  obtain ⟨s, hs, hlog, _⟩ := alarmsSeen_run
  have hnames : Function.Injective fun i => (dockAndGate.pipeline i).cameraId := by
    intro i j
    cases i <;> cases j <;> simp [dockAndGate]
  exact ⟨s, hlog, site_spaces (by decide) (by decide) hnames hs⟩

/-- What one alert of the log adds to the list of a dashboard. -/
theorem listed_of_mem (h : S.system.Reachable s)
    (hplain : ∀ i, Json.PlainText (S.pipeline i).cameraId.toList) {x : ι × Alert}
    (hx : x ∈ s.log) :
    listedCamera (serialize x.2).toList = some (cameraLabel (S.pipeline x.1).cameraId) := by
  obtain ⟨hcamera, hid⟩ := alerts_named (camera_reachable h x.1) x.2 (mem_alerts h hx)
  have hname := hplain x.1
  have hplainId : Json.PlainText x.2.alertId.toList := by
    rw [hid]
    exact plain_makeAlertId hname _ _ _
  rw [← hcamera] at hname ⊢
  exact listedCamera_serialize hplainId hname

theorem Carries.items {messages : List Message} {alerts : List (ι × Alert)}
    (hs : Carries s messages alerts) (h : S.system.Reachable s)
    (hplain : ∀ i, Json.PlainText (S.pipeline i).cameraId.toList) :
    (messages.map fun m => m.payload.toList).filterMap listedCamera =
      alerts.map fun x => cameraLabel (S.pipeline x.1).cameraId := by
  have htexts : (messages.map fun m => m.payload.toList) =
      alerts.map fun x => (serialize x.2).toList := by
    have hmap := congrArg (List.map String.toList) hs.payloads
    rwa [List.map_map, List.map_map] at hmap
  have hall : ∀ x ∈ alerts, listedCamera (serialize x.2).toList =
      some (cameraLabel (S.pipeline x.1).cameraId) :=
    fun x hx => listed_of_mem h hplain (hs.ordered.subset hx)
  rw [htexts]
  generalize listedCamera = lists at hall ⊢
  rw [List.filterMap_map, ← List.filterMap_eq_map]
  exact List.filterMap_congr hall

end Site
end ForkliftSafety
