import GpuNetwork.ControlPlane.Numbers

/-!
# Metrics

A node reports samples of its GPUs, and the control plane keeps one row for each GPU.  All
samples of a report go into one `INSERT … ON CONFLICT DO UPDATE`.

* `recordMetrics` — the service behind `pushMetrics`.
* `lastSample`, `Pushed` — the rows a report is to leave.
* `leads_recordMetrics` — what comes of a report.
* `LastWins`, `metrics_last_win_iff` — the last sample of a GPU wins.
-/

namespace GpuNetwork

open ReadCommitted ReadCommitted.Spec

/-- `record_metrics`. -/
def recordMetrics (node : Node) (samples : List NodeMetricSample) : Handler Unit := do
  upsertSamples node.id samples
  updateLastSeen node
  commit

theorem pushMetrics_eq (app : App) (bearer : Option Str) (nodeId : Uuid)
    (samples : List NodeMetricSample) :
    pushMetrics app bearer nodeId samples = (do
      let node ← currentNode app bearer
      if node.id ≠ nodeId then .throw .agentMismatch
      else do
        recordMetrics node samples
        pure .noContent) := by
  simp only [recordMetrics, Prog.bind_assoc]
  rfl

/-- The last sample of a GPU. -/
def lastSample (samples : List NodeMetricSample) (gpuIndex : Int) : Option NodeMetricSample :=
  samples.reverse.find? fun x => decide (x.gpuIndex = gpuIndex)

/-- The report of a node has been recorded at `t`. -/
structure Pushed (db db' : Database) (n : Node) (samples : List NodeMetricSample)
    (t : Time) : Prop where
  /-- Each GPU has the row of its last sample, or the one it had. -/
  metrics : ∀ g, db'.get (.nodeMetric n.id g) = match lastSample samples g with
    | some x => some (.nodeMetric (x.metric n.id t))
    | none => db.get (.nodeMetric n.id g)
  /-- The node has been seen. -/
  node : ∃ seen, db'.node n.id = some { n with lastSeenAt := some seen }
  /-- Nothing else has changed. -/
  others : ∀ k, k ≠ .node n.id → (∀ g, k ≠ .nodeMetric n.id g) → db'.get k = db.get k

/-- No two samples are of one GPU, and their amounts of memory fit. -/
structure OnePerGpu (samples : List NodeMetricSample) : Prop where
  nodup : (samples.map NodeMetricSample.gpuIndex).Nodup
  inRange : ∀ x ∈ samples, x.InRange

/-! ## One statement -/

/-- The rows of a report. -/
def metricRows (nodeId : Uuid) (t : Time) (samples : List NodeMetricSample) : List Row :=
  samples.map fun x => .nodeMetric (x.metric nodeId t)

/-- The order does not matter where no two samples are of one GPU. -/
theorem lastSample_eq {samples : List NodeMetricSample}
    (h : (samples.map NodeMetricSample.gpuIndex).Nodup) (g : Int) :
    lastSample samples g = samples.find? fun x => decide (x.gpuIndex = g) := by
  have hunique : ∀ x ∈ samples, ∀ y ∈ samples, x.gpuIndex = y.gpuIndex → x = y :=
    fun x hx y hy he => List.inj_on_of_nodup_map h hx hy he
  unfold lastSample
  cases hlast : samples.reverse.find? fun x => decide (x.gpuIndex = g) with
  | none =>
    symm
    rw [List.find?_eq_none] at hlast ⊢
    exact fun x hx => hlast x (List.mem_reverse.2 hx)
  | some x =>
    have hx := List.mem_reverse.1 (List.mem_of_find?_eq_some hlast)
    have hxg : x.gpuIndex = g := by simpa using List.find?_some hlast
    cases hfirst : samples.find? fun x => decide (x.gpuIndex = g) with
    | none =>
      rw [List.find?_eq_none] at hfirst
      exact absurd (hfirst x hx) (by simp [hxg])
    | some y =>
      have hyg : y.gpuIndex = g := by simpa using List.find?_some hfirst
      rw [hunique x hx y (List.mem_of_find?_eq_some hfirst) (hxg.trans hyg.symm)]

/-- Samples of different GPUs go into one statement: there are 64 indices. -/
theorem length_le_of_nodup {samples : List NodeMetricSample}
    (h : (samples.map NodeMetricSample.gpuIndex).Nodup) : samples.length ≤ 64 := by
  have hsub : samples.map NodeMetricSample.gpuIndex ⊆ (List.range 64).map Int.ofNat := by
    intro g hg
    obtain ⟨x, -, rfl⟩ := List.mem_map.1 hg
    obtain ⟨hlow, hhigh⟩ := x.gpuIndex_range
    exact List.mem_map.2 ⟨x.gpuIndex.toNat, List.mem_range.2 (by omega), Int.toNat_of_nonneg hlow⟩
  have hlen := (List.subperm_of_subset h hsub).length_le
  simpa using hlen

theorem fits_metricRows {nodeId : Uuid} {t : Time} {samples : List NodeMetricSample} :
    (metricRows nodeId t samples).all Schema.fits = true ↔ ∀ x ∈ samples, x.InRange := by
  rw [List.all_eq_true]
  constructor
  · intro h x hx
    exact fits_metric.1 (h _ (List.mem_map_of_mem hx))
  · intro h r hr
    obtain ⟨x, hx, rfl⟩ := List.mem_map.1 hr
    exact fits_metric.2 (h x hx)

/-- A report without two samples of one GPU is sent exactly when its amounts of memory fit. -/
theorem sendable_metricRows {nodeId : Uuid} {t : Time} {samples : List NodeMetricSample}
    (h : (samples.map NodeMetricSample.gpuIndex).Nodup) :
    sendable (metricRows nodeId t samples) = true ↔ ∀ x ∈ samples, x.InRange := by
  have hsum : parametersOf (metricRows nodeId t samples) ≤ maxParameters := by
    have hseven : ∀ r ∈ metricRows nodeId t samples, Schema.parameters r = 7 := by
      intro r hr
      obtain ⟨x, -, rfl⟩ := List.mem_map.1 hr
      rfl
    have hlen := length_le_of_nodup h
    rw [parametersOf_eq hseven, metricRows, List.length_map, maxParameters]
    omega
  have hstorable : (metricRows nodeId t samples).all storable =
      (metricRows nodeId t samples).all Schema.fits := by
    rw [Bool.eq_iff_iff, List.all_eq_true, List.all_eq_true]
    refine forall₂_congr fun r hr => ?_
    obtain ⟨x, -, rfl⟩ := List.mem_map.1 hr
    exact Bool.eq_iff_iff.1 (Bool.and_true _)
  rw [sendable, decide_eq_true hsum, Bool.and_true, hstorable, fits_metricRows]

theorem nodup_metricRows {nodeId : Uuid} {t : Time} {samples : List NodeMetricSample} :
    ((metricRows nodeId t samples).map Row.key).Nodup ↔
      (samples.map NodeMetricSample.gpuIndex).Nodup := by
  have hkeys : (metricRows nodeId t samples).map Row.key =
      (samples.map NodeMetricSample.gpuIndex).map (Key.nodeMetric nodeId) := by
    rw [metricRows, List.map_map, List.map_map]
    rfl
  rw [hkeys]
  exact List.nodup_map_iff fun a b hab => (Key.nodeMetric.inj hab).2

/-- A row of a report replaces the one that is there. -/
theorem merge_nodeMetric {m : NodeMetric} {old : Row} (h : old.key = (Row.nodeMetric m).key) :
    old.merge (.nodeMetric m) old = .nodeMetric m := by
  cases old with
  | nodeMetric o =>
    obtain ⟨hnode, hgpu⟩ := Key.nodeMetric.inj h
    show Row.nodeMetric (o.merge m o) = _
    simp [NodeMetric.merge, hnode, hgpu]
  | _ => cases h

/-- The rows of a report are the last of each GPU. -/
theorem get_metricRows {db : Database} {nodeId : Uuid} {t : Time}
    {samples : List NodeMetricSample} (h : (samples.map NodeMetricSample.gpuIndex).Nodup)
    (g : Int) :
    (applyAll ((metricRows nodeId t samples).map (upsertWrite db)) db).get (.nodeMetric nodeId g) =
      match lastSample samples g with
      | some x => some (.nodeMetric (x.metric nodeId t))
      | none => db.get (.nodeMetric nodeId g) := by
  have hmerge : ∀ r ∈ metricRows nodeId t samples, ∀ old, db.get r.key = some old →
      old.merge r old = r := by
    intro r hr old hold
    obtain ⟨x, hx, rfl⟩ := List.mem_map.1 hr
    exact merge_nodeMetric (Db.key_of_get hold)
  have hpred : ((fun r : Row => decide (Schema.key r = Key.nodeMetric nodeId g)) ∘
      fun x : NodeMetricSample => Row.nodeMetric (x.metric nodeId t)) =
      fun x => decide (x.gpuIndex = g) := by
    funext x
    simp [Row.key, NodeMetricSample.metric]
  rw [get_upserts (nodup_metricRows.2 h) hmerge, lastSample_eq h, metricRows,
    List.find?_map, hpred]
  cases samples.find? fun x => decide (x.gpuIndex = g) <;> rfl

/-- Everything but the rows of a report stays as it is. -/
theorem get_metricRows_of_ne {db : Database} {nodeId : Uuid} {t : Time}
    {samples : List NodeMetricSample} {k : Key} (hk : ∀ g, k ≠ .nodeMetric nodeId g) :
    (applyAll ((metricRows nodeId t samples).map (upsertWrite db)) db).get k = db.get k := by
  refine get_applyAll_of_not_target (fun w hw ht => ?_) db
  obtain ⟨r, hr, rfl⟩ := List.mem_map.1 hw
  obtain ⟨x, hx, rfl⟩ := List.mem_map.1 hr
  rw [target_upsertWrite] at ht
  exact hk x.gpuIndex ht.symm

/-! ## One report -/

/-- The node is seen, and the transaction committed. -/
theorem leads_seen {w : Scene} {n : Node} {Q : Unit → Scene → Prop} {E : Scene → Prop}
    (hn : (w.ses.tx.view w.db).get (.node n.id) = some (.node n)) (hfits : Fits (Row.node n))
    (h : ∀ seen w', w'.db.node n.id = some { n with lastSeenAt := some seen } →
      (∀ k, k ≠ .node n.id → w'.db.get k = (w.ses.tx.view w.db).get k) → Q () w') :
    (do updateLastSeen n; commit : Handler Unit).Leads .database w Q E := by
  refine leads_bind (leads_bind (leads_now (leads_ret ?_)))
  let seen : Node := { n with lastSeenAt := some (w.moments 0).now }
  show Prog.Leads ApiError.database (flush (.node n) (.node seen)) _ _ _
  unfold flush
  by_cases hsame : Row.node seen = .node n
  · rw [if_pos hsame]
    refine leads_ret (leads_commit (leads_ret (h (w.moments 0).now _ ?_ fun k _ => rfl)))
    exact (Db.get_node_iff.1 hn).trans (congrArg some (Row.node.inj hsame).symm)
  · rw [if_neg hsame]
    have hseen : storableOver (Row.node n) (.node seen) = true := storableOver_of_texts hfits rfl
    have hrefs : newRefs (Row.node n) (.node seen) = [] := by
      simp [newRefs, Schema.refs, Row.refs, seen]
    have hmerge : n.merge seen n = seen := by simp [Node.merge, seen]
    have hcur : ((w.next w.db w.ses).ses.tx.view (w.next w.db w.ses).db).get
        (Schema.key (Row.node n)) = some (.node n) := hn
    have hview := ((w.next w.db w.ses).adds_takes (.update (.node n) (.node seen))
      [.update (.node n) (.node seen)] (updateLocks (Row.node n) (.node seen))).view
    refine leads_bind (leads_update_of hcur hseen hrefs (leads_ret ?_))
    refine leads_ret (leads_commit (leads_ret (h (w.moments 0).now _ ?_ fun k hk => ?_)))
    · refine Db.get_node_iff.1 ((congrArg (fun db => db.get (.node n.id)) hview).trans ?_)
      show ((w.ses.tx.view w.db).update (.node n) (.node seen)).get (.node n.id) = _
      rw [Db.get_update, hn]
      exact (if_pos rfl).trans (congrArg (some ∘ Row.node) hmerge)
    · refine (congrArg (fun db => db.get k) hview).trans ?_
      exact Db.get_update_of_ne hk

/-- **What comes of a report**: its rows are written, or it is refused for two samples of one
GPU or for an amount of memory. -/
theorem leads_recordMetrics {db : Database} {n : Node} {samples : List NodeMetricSample}
    {moments : Nat → Moment} (hn : db.node n.id = some n) (hfits : Fits (Row.node n)) :
    (recordMetrics n samples).Leads .database ({ db, moments } : Scene)
      (fun _ w => OnePerGpu samples ∧ ∃ t, Pushed db w.db n samples t)
      (fun _ => ¬ OnePerGpu samples) := by
  have hget : db.get (.node n.id) = some (.node n) := Db.get_node_iff.2 hn
  unfold recordMetrics
  refine leads_bind ?_
  unfold upsertSamples
  by_cases hempty : samples = []
  · rw [if_pos (by simp [hempty])]
    refine leads_ret (leads_seen hget hfits fun seen w hnode hothers => ?_)
    refine ⟨⟨by simp [hempty], by simp [hempty]⟩, 0, fun g => ?_, ⟨seen, hnode⟩,
      fun k hk _ => hothers k hk⟩
    subst hempty
    exact hothers _ (by simp)
  · rw [if_neg (by simpa using hempty)]
    refine leads_bind (leads_now (leads_ret ?_))
    show Prog.Leads ApiError.database
      (Prog.exec (.upsert (metricRows n.id (moments 0).now samples)))
      _ _ _
    refine leads_upsert (fun r hr => ?_) (fun hnot hone => ?_) fun hrange hnd => ?_
    · obtain ⟨x, hx, rfl⟩ := List.mem_map.1 hr
      show present db [Key.node n.id] = true
      simp [present, hget]
    · exact hnot ⟨(sendable_metricRows hone.nodup).2 hone.inRange, nodup_metricRows.2 hone.nodup⟩
    · have hdistinct := nodup_metricRows.1 hnd
      have hone : OnePerGpu samples := ⟨hdistinct, (sendable_metricRows hdistinct).1 hrange⟩
      let w : Scene := { db, moments := fun k => moments (k + 1) }
      have hview := (w.adds_takes (.upsert (metricRows n.id (moments 0).now samples))
        ((metricRows n.id (moments 0).now samples).map (upsertWrite db))
        (insertLocks (metricRows n.id (moments 0).now samples))).view
      have hnode : (applyAll ((metricRows n.id (moments 0).now samples).map (upsertWrite db))
          db).get (.node n.id) = some (.node n) :=
        (get_metricRows_of_ne (by simp)).trans hget
      refine leads_ret (leads_seen ((congrArg (fun d => d.get (.node n.id)) hview).trans hnode)
        hfits
        fun seen w' hseen hothers => ?_)
      refine ⟨hone, (moments 0).now, fun g => ?_, ⟨seen, hseen⟩, fun k hk hmetric => ?_⟩
      · rw [hothers _ (by simp)]
        exact (congrArg (fun d => d.get (.nodeMetric n.id g)) hview).trans
          (get_metricRows hone.nodup g)
      · rw [hothers k hk]
        exact (congrArg (fun d => d.get k) hview).trans (get_metricRows_of_ne hmetric)

/-! ## The last sample wins -/

/-- A row of a metric without the time at which it was recorded. -/
def Row.untimed : Row → Row
  | .nodeMetric m => .nodeMetric { m with recordedAt := 0 }
  | r => r

/-- A report goes through and leaves the last sample of each GPU; sent again it goes through
and changes only the time. -/
def LastWins (db : Database) (n : Node) (samples : List NodeMetricSample) : Prop :=
  ∀ moments, ∃ w t,
    (recordMetrics n samples).alone .database ({ db, moments } : Scene) = (.ok (), w) ∧
    Pushed db w.db n samples t ∧
    ∀ n' later, w.db.node n.id = some n' → ∃ w' t',
      (recordMetrics n' samples).alone .database ({ db := w.db, moments := later } : Scene) =
        (.ok (), w') ∧
      Pushed w.db w'.db n' samples t' ∧
      ∀ k, k ≠ .node n.id → (w'.db.get k).map Row.untimed = (w.db.get k).map Row.untimed

/-- The same report leaves the same rows, whenever it comes. -/
theorem Pushed.again {db db₁ db₂ : Database} {n n' : Node} {samples : List NodeMetricSample}
    {t t' : Time} (h : Pushed db db₁ n samples t) (h' : Pushed db₁ db₂ n' samples t')
    (hid : n'.id = n.id) {k : Key} (hk : k ≠ .node n.id) :
    (db₂.get k).map Row.untimed = (db₁.get k).map Row.untimed := by
  by_cases hmetric : ∃ g, k = .nodeMetric n.id g
  · obtain ⟨g, rfl⟩ := hmetric
    have hsecond := h'.metrics g
    rw [hid] at hsecond
    rw [hsecond]
    cases hlast : lastSample samples g with
    | none => rfl
    | some x =>
      have hfirst := h.metrics g
      rw [hlast] at hfirst
      rw [hfirst]
      rfl
  · have hother : ∀ g, k ≠ .nodeMetric n'.id g := by
      intro g he
      exact hmetric ⟨g, he.trans (by rw [hid])⟩
    rw [h'.others k (by rw [hid]; exact hk) hother]

/-- A report without two samples of one GPU is recorded. -/
theorem exists_recorded {db : Database} {n : Node} {samples : List NodeMetricSample}
    (hn : db.node n.id = some n) (hfits : Fits (Row.node n)) (h : OnePerGpu samples)
    (moments : Nat → Moment) :
    ∃ w t, (recordMetrics n samples).alone .database ({ db, moments } : Scene) = (.ok (), w) ∧
      Pushed db w.db n samples t := by
  obtain ⟨u, w, hok, t, hrec⟩ := (leads_recordMetrics hn hfits).exists_ok_iff.2 h
  exact ⟨w, t, hok, hrec⟩

theorem lastWins_of_onePerGpu {db : Database} {n : Node} {samples : List NodeMetricSample}
    (hn : db.node n.id = some n) (hfits : Fits (Row.node n)) (h : OnePerGpu samples) :
    LastWins db n samples := by
  intro moments
  obtain ⟨w, t, hok, hrec⟩ := exists_recorded hn hfits h moments
  refine ⟨w, t, hok, hrec, fun n' later hn' => ?_⟩
  obtain ⟨seen, hseen⟩ := hrec.node
  rw [hseen, Option.some.injEq] at hn'
  subst hn'
  have hfits' : Fits (Row.node { n with lastSeenAt := some seen }) := hfits
  obtain ⟨w', t', hok', hrec'⟩ := exists_recorded hseen hfits' h later
  exact ⟨w', t', hok', hrec', fun k hk => hrec.again hrec' rfl hk⟩

/-- **The last sample of a GPU wins, exactly when no two samples are of one GPU** and every
amount of memory fits its column.  Otherwise the report is refused. -/
theorem metrics_last_win_iff (app : App) {T : Terms Row Request ApiError Response}
    {db : Database} {clock : Time} {s : System} (hdb : db.Every Fits)
    (h : Reach (controlPlane app) T (idle db clock) s) {n : Node} (hn : s.db.node n.id = some n)
    (samples : List NodeMetricSample) : LastWins s.db n samples ↔ OnePerGpu samples := by
  have hfits : Fits (Row.node n) :=
    fits_of_reach hdb h _ (Db.mem_of_get (Db.get_node_iff.2 hn))
  refine ⟨fun hwins => ?_, lastWins_of_onePerGpu hn hfits⟩
  obtain ⟨w, t, hok, -⟩ := hwins (still 0 fun _ => 0)
  exact ((leads_recordMetrics hn hfits).of_ok hok).1

/-- A sample of a GPU. -/
def sampleOf (gpuIndex : Fin 64) (utilizationPct : Fin 101) : NodeMetricSample where
  gpuIndex := gpuIndex
  utilizationPct := utilizationPct
  memoryUsedBytes := 1024
  memoryTotalBytes := 4096
  temperatureC := 50
  gpuIndex_range := by omega
  utilizationPct_range := by omega
  memoryUsedBytes_nonneg := by decide
  memoryTotalBytes_nonneg := by decide
  temperatureC_range := by decide

theorem metrics_last_win_at_two_gpus :
    (numbersDb []).node 2 = some sampleNode ∧ OnePerGpu [sampleOf 1 10, sampleOf 0 20] ∧
      LastWins (numbersDb []) sampleNode [sampleOf 1 10, sampleOf 0 20] := by
  have hone : OnePerGpu [sampleOf 1 10, sampleOf 0 20] := by
    refine ⟨by decide, fun x hx => ?_⟩
    simp only [List.mem_cons, List.not_mem_nil, or_false] at hx
    rcases hx with rfl | rfl <;> exact ⟨by decide, by decide⟩
  have hreach : Reach (controlPlane plainApp) anyTerms (idle (numbersDb []) 0)
      (idle (numbersDb []) 0) := Reach.refl
  exact ⟨rfl, hone,
    (metrics_last_win_iff plainApp (every_fits_numbersDb []) hreach rfl _).2 hone⟩

/-- **Two samples of one GPU are refused**, and the report with them. -/
theorem two_samples_of_one_gpu_are_refused :
    ¬ LastWins (numbersDb []) sampleNode [sampleOf 0 10, sampleOf 0 20] := by
  intro hwins
  obtain ⟨w, t, hok, -⟩ := hwins (still 0 fun _ => 0)
  have hleads : (recordMetrics sampleNode [sampleOf 0 10, sampleOf 0 20]).Leads .database
      ({ db := numbersDb [], moments := still 0 fun _ => 0 } : Scene)
      (fun _ w => OnePerGpu _ ∧ ∃ t, Pushed _ w.db _ _ t) (fun _ => ¬ OnePerGpu _) :=
    leads_recordMetrics rfl (every_fits_numbersDb [] _ (by simp [numbersDb]))
  exact absurd (hleads.of_ok hok).1.nodup (by decide)

end GpuNetwork
