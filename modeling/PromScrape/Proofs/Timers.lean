import PromScrape.Implementation.Timers
import PromScrape.Proofs.Lifecycle
import PromScrape.Proofs.Targets

set_option autoImplicit false

/-! # Which configurations have safe timers

Validation does not look at durations, and a duration may be zero. Each timer that is started is safe
exactly when its own period is not zero. Which are started depends on more than the configuration: on
whether the endpoints can be constructed, on whether a job's client and credentials can be had, and, for
a job's scrape interval, on whether the job ever has a target. -/

namespace PromScrape

open Fallible (isOk_iff map_eq_ok bind_eq_ok exists_both_ok mem_takeWhile_isOk)
open Regex (Engine)

/-! ## One timer -/

theorem tokioInterval_ok_iff {period : Duration} :
    (∃ ticker, tokioInterval period = .ok ticker) ↔ period ≠ .zero := by
  unfold tokioInterval
  by_cases h : period = .zero
  · simp [h]
  · simp [h]

theorem nanosU64_toNat (d : Duration) : (nanosU64 d).toNat = min d.nanos (2 ^ 64 - 1) := by
  rw [nanosU64]
  split
  · next h =>
      rw [UInt64.toNat_ofNat_of_lt' h]
      omega
  · next h =>
      rw [Nat.min_eq_right (by omega)]
      rfl

theorem nanosU64_eq_zero_iff {d : Duration} : nanosU64 d = 0 ↔ d = .zero := by
  rw [← UInt64.toNat_inj, nanosU64_toNat, Duration.zero]
  cases d with
  | mk nanos =>
      rw [Duration.mk.injEq]
      simp only [UInt64.toNat_zero]
      omega

section

variable {E : Engine}

/-- The offset is less than the interval. -/
theorem scrapeOffset_lt {target : Target E} {offset : Duration}
    (h : scrapeOffset target = .ok offset) : offset.nanos < target.interval.nanos := by
  unfold scrapeOffset at h
  split at h
  · cases h
  · next hne =>
      cases h
      have hpos : 0 < (nanosU64 target.interval).toNat := by
        rw [Nat.pos_iff_ne_zero]
        intro hzero
        exact hne (UInt64.toNat_inj.mp hzero)
      have hlt := Nat.mod_lt (hashBytes (Utf8.utf8Bytes target.url)).toNat hpos
      rw [nanosU64_toNat] at hlt
      simp only [UInt64.toNat_mod, nanosU64_toNat]
      omega

/-- **A scrape loop starts exactly when its interval is not zero**, and then within it. -/
theorem startScrapeLoop_ok_iff {target : Target E} :
    (∃ offset ticker, startScrapeLoop target = .ok (offset, ticker) ∧
      offset.nanos < target.interval.nanos) ↔ target.interval ≠ .zero := by
  constructor
  · rintro ⟨offset, ticker, h, -⟩
    obtain ⟨_, _, h⟩ := bind_eq_ok.mp h
    obtain ⟨ticker', hticker, -⟩ := bind_eq_ok.mp h
    exact tokioInterval_ok_iff.mp ⟨ticker', hticker⟩
  · intro hne
    have hoffset : scrapeOffset target =
        .ok ⟨(hashBytes (Utf8.utf8Bytes target.url) % nanosU64 target.interval).toNat⟩ := by
      rw [scrapeOffset, if_neg (mt nanosU64_eq_zero_iff.mp hne)]
    obtain ⟨ticker, hticker⟩ := tokioInterval_ok_iff.mpr hne
    refine ⟨_, ticker, ?_, scrapeOffset_lt hoffset⟩
    rw [startScrapeLoop, hoffset, hticker]
    rfl

theorem fileSdRefresh_ne_zero_iff {configs : List FileSdConfig} :
    fileSdRefresh configs ≠ .zero ↔ ∀ c ∈ configs, c.refreshInterval.asDuration ≠ .zero := by
  have hnanos : ∀ d : Duration, d ≠ .zero ↔ 0 < d.nanos := by
    intro d
    cases d
    simp [Duration.zero, Nat.pos_iff_ne_zero]
  simp only [hnanos, fileSdRefresh]
  cases hmin : (configs.map fun c => c.refreshInterval.asDuration.nanos).min? with
  | none =>
      rw [List.min?_eq_none_iff, List.map_eq_nil_iff] at hmin
      subst hmin
      simp [Duration.fromSecs]
  | some nanos =>
      obtain ⟨hmem, hle⟩ := List.min?_eq_some_iff.mp hmin
      obtain ⟨c₀, hc₀, rfl⟩ := List.mem_map.mp hmem
      constructor
      · intro hpos c hc
        exact lt_of_lt_of_le hpos (hle _ (List.mem_map_of_mem hc))
      · intro h
        exact h c₀ hc₀

theorem startFileSd_ok_iff {job : ScrapeConfig E} :
    (∃ ticker, startFileSd job = .ok ticker) ↔
      ∀ c ∈ job.fileSdConfigs, c.refreshInterval.asDuration ≠ .zero := by
  rw [← fileSdRefresh_ne_zero_iff, ← tokioInterval_ok_iff]
  unfold startFileSd
  split
  · next hempty =>
      rw [List.isEmpty_iff.mp hempty]
      exact iff_of_true ⟨none, rfl⟩ ⟨_, rfl⟩
  · constructor
    · rintro ⟨_, h⟩
      obtain ⟨ticker, hticker, -⟩ := map_eq_ok.mp h
      exact ⟨ticker, hticker⟩
    · rintro ⟨ticker, hticker⟩
      exact ⟨some ticker, map_eq_ok.mpr ⟨ticker, hticker, rfl⟩⟩

end

/-! ## The tasks that are started -/

section

variable {E : Engine}

/-- A job's client builds, and the secret that it uses can be had. -/
structure JobReady (deps : ClientDeps) (world : World) (global : GlobalConfig)
    (job : ScrapeConfig E) : Prop where
  tls : TlsReady deps world (job.timeout global) job.tlsConfig
  credentials : CredentialsReady world job.basicAuth job.authorization job.bearerToken
    job.bearerTokenFile

theorem connectJob_ok_iff {deps : ClientDeps} {world : World} {global : GlobalConfig}
    {job : ScrapeConfig E} :
    (∃ connection, connectJob deps world global job = .ok connection) ↔
      JobReady deps world global job := by
  rw [connectJob, exists_both_ok, buildClient_ok_iff, resolve_ok_iff]
  exact ⟨fun h => ⟨h.1, h.2⟩, fun h => ⟨h.tls, h.credentials⟩⟩

/-- The configuration validates and has somewhere to write to. -/
def Accepted (config : Config E) : Prop :=
  config.validate = .ok () ∧ config.remoteWrite ≠ []

/-- The configuration is accepted, and its endpoints can be constructed. -/
structure ComesUp (deps : LifecycleDeps) (atStart : World) (config : Config deps.relabel.engine) :
    Prop where
  accepted : Accepted config
  endpoints : ∀ c ∈ config.remoteWrite, EndpointReady deps.client atStart c

variable {deps : LifecycleDeps} {atStart : World}
  {atJob : ScrapeConfig deps.relabel.engine → World} {config : Config deps.relabel.engine}

theorem accepted_iff :
    (config.validate.isOk && !config.remoteWrite.isEmpty) = true ↔ Accepted config := by
  rw [Bool.and_eq_true, isOk_iff, Bool.not_eq_true', List.isEmpty_eq_false_iff, Unique.exists_iff]
  rfl

theorem startTasks_of_not_accepted (h : ¬ Accepted config) :
    startTasks deps atStart atJob config = {} := by
  rw [startTasks, if_neg (mt accepted_iff.mp h)]

theorem startTasks_of_comesUp (h : ComesUp deps atStart config) :
    startTasks deps atStart atJob config = {
      senders := config.remoteWrite
      monitor := true
      jobs := config.scrapeConfigs.filter fun job =>
        (connectJob deps.client (atJob job) config.global job).isOk } := by
  obtain ⟨connections, hconnections⟩ := startSenders_ok_iff.mpr h.endpoints
  rw [startTasks, if_pos (accepted_iff.mpr h.accepted), hconnections]

theorem startTasks_of_not_comesUp (haccepted : Accepted config)
    (h : ¬ ComesUp deps atStart config) :
    startTasks deps atStart atJob config = {
      senders := config.remoteWrite.takeWhile fun c =>
        (Connection.new deps.client deps.relabel.toLowercase atStart c).isOk } := by
  cases hstart : startSenders deps atStart config.remoteWrite with
  | ok connections => exact absurd ⟨haccepted, startSenders_ok_iff.mp ⟨_, hstart⟩⟩ h
  | error err => rw [startTasks, if_pos (accepted_iff.mpr haccepted), hstart]

/-- Only senders are started before all endpoints are constructed. -/
theorem only_senders_of_not_comesUp (h : ¬ ComesUp deps atStart config) :
    (startTasks deps atStart atJob config).monitor = false ∧
      (startTasks deps atStart atJob config).jobs = [] := by
  by_cases haccepted : Accepted config
  · rw [startTasks_of_not_comesUp haccepted h]
    exact ⟨rfl, rfl⟩
  · rw [startTasks_of_not_accepted haccepted]
    exact ⟨rfl, rfl⟩

theorem monitor_started_iff :
    (startTasks deps atStart atJob config).monitor = true ↔ ComesUp deps atStart config := by
  by_cases h : ComesUp deps atStart config
  · rw [startTasks_of_comesUp h]
    exact iff_of_true rfl h
  · rw [(only_senders_of_not_comesUp h).1]
    exact iff_of_false Bool.false_ne_true h

theorem mem_jobs_iff {job : ScrapeConfig deps.relabel.engine} :
    job ∈ (startTasks deps atStart atJob config).jobs ↔
      ComesUp deps atStart config ∧ job ∈ config.scrapeConfigs ∧
        JobReady deps.client (atJob job) config.global job := by
  by_cases h : ComesUp deps atStart config
  · rw [startTasks_of_comesUp h, and_iff_right h, List.mem_filter, isOk_iff, connectJob_ok_iff]
  · rw [(only_senders_of_not_comesUp h).2]
    exact iff_of_false List.not_mem_nil fun hjob => h hjob.1

/-- A sender is started if its endpoint and all in front of it can be constructed. -/
theorem mem_senders_iff {c : RemoteWriteConfig deps.relabel.engine} :
    c ∈ (startTasks deps atStart atJob config).senders ↔
      Accepted config ∧ ∃ before after, config.remoteWrite = before ++ c :: after ∧
        ∀ c' ∈ before ++ [c], EndpointReady deps.client atStart c' := by
  by_cases haccepted : Accepted config
  · rw [and_iff_right haccepted]
    by_cases h : ComesUp deps atStart config
    · -- All senders are started, so each has its endpoints in front of it ready.
      rw [startTasks_of_comesUp h]
      dsimp only
      constructor
      · intro hc
        obtain ⟨before, after, hsplit⟩ := List.append_of_mem hc
        refine ⟨before, after, hsplit, fun c' hc' => h.endpoints c' ?_⟩
        rw [hsplit, List.append_cons]
        exact List.mem_append_left _ hc'
      · rintro ⟨before, after, hsplit, -⟩
        simp [hsplit]
    · rw [startTasks_of_not_comesUp haccepted h, mem_takeWhile_isOk]
      simp only [connection_ok_iff]
  · rw [startTasks_of_not_accepted haccepted]
    exact iff_of_false (by simp) fun hc => haccepted hc.1

end

/-! ## A whole configuration -/

section

variable (deps : LifecycleDeps)
  (found : ScrapeConfig deps.relabel.engine → List TargetGroup → Prop) (trackStaleness : Bool)
  (atStart : World) (atJob : ScrapeConfig deps.relabel.engine → World)

/-- The group lists that discovery can publish for a job, where `found` says what the job's dynamic
sources can find. -/
def Published (job : ScrapeConfig deps.relabel.engine) (groups : List TargetGroup) : Prop :=
  groups = staticGroups job ∨
    hasDynamicSources job = true ∧ ∃ dynamic, found job dynamic ∧ groups = staticGroups job ++ dynamic

/-- Some group list gives the job this target, if the job is started at all. -/
def CanScrape (global : GlobalConfig) (job : ScrapeConfig deps.relabel.engine)
    (target : Target deps.relabel.engine) : Prop :=
  ∃ groups targets, Published deps found job groups ∧
    buildTargets deps.relabel job global global.externalLabelList trackStaleness groups = .ok targets ∧
    target ∈ targets

/-- No task that is started for the configuration panics on its timers, and no scrape offset reaches
the interval it is taken from. -/
structure TimersSafe (config : Config deps.relabel.engine) : Prop where
  monitor : (startTasks deps atStart atJob config).monitor = true →
    ∃ ticker, startSelfMonitor config.global = .ok ticker
  endpoints : ∀ c ∈ (startTasks deps atStart atJob config).senders,
    ∃ ticker, startEndpoint c = .ok ticker
  fileSd : ∀ job ∈ (startTasks deps atStart atJob config).jobs,
    ∃ ticker, startFileSd job = .ok ticker
  loops : ∀ job ∈ (startTasks deps atStart atJob config).jobs, ∀ target,
    CanScrape deps found trackStaleness config.global job target →
    ∃ offset ticker, startScrapeLoop target = .ok (offset, ticker) ∧
      offset.nanos < target.interval.nanos

/-- The durations that must not be zero, and what around the configuration makes it so. -/
structure PeriodsNonzero (config : Config deps.relabel.engine) : Prop where
  monitor : ComesUp deps atStart config → config.global.scrapeInterval.asDuration ≠ .zero
  endpoints : Accepted config → ∀ before c after, config.remoteWrite = before ++ c :: after →
    (∀ c' ∈ before ++ [c], EndpointReady deps.client atStart c') →
    c.queueConfig.batchSendDeadline.asDuration ≠ .zero
  fileSd : ComesUp deps atStart config → ∀ job ∈ config.scrapeConfigs,
    JobReady deps.client (atJob job) config.global job →
    ∀ c ∈ job.fileSdConfigs, c.refreshInterval.asDuration ≠ .zero
  jobs : ComesUp deps atStart config → ∀ job ∈ config.scrapeConfigs,
    JobReady deps.client (atJob job) config.global job →
    (∃ target, CanScrape deps found trackStaleness config.global job target) →
    job.interval config.global ≠ .zero

/-- **The timers are safe exactly when no period is zero** of those that the started tasks use. -/
theorem timersSafe_iff (config : Config deps.relabel.engine) :
    TimersSafe deps found trackStaleness atStart atJob config ↔
      PeriodsNonzero deps found trackStaleness atStart atJob config := by
  -- All targets of a job have the job's interval.
  have hinterval : ∀ job target, CanScrape deps found trackStaleness config.global job target →
      target.interval = job.interval config.global := by
    rintro job target ⟨groups, targets, -, htargets, htarget⟩
    exact congrArg Target.interval (buildTargets_ofJob htargets target htarget).settings
  constructor
  · intro h
    refine ⟨fun hup => ?_, fun haccepted before c after hsplit hready => ?_,
      fun hup job hjob hready => ?_, fun hup job hjob hready => ?_⟩
    · exact tokioInterval_ok_iff.mp (h.monitor (monitor_started_iff.mpr hup))
    · exact tokioInterval_ok_iff.mp
        (h.endpoints c (mem_senders_iff.mpr ⟨haccepted, before, after, hsplit, hready⟩))
    · exact startFileSd_ok_iff.mp (h.fileSd job (mem_jobs_iff.mpr ⟨hup, hjob, hready⟩))
    · rintro ⟨target, htarget⟩
      rw [← hinterval job target htarget]
      exact startScrapeLoop_ok_iff.mp
        (h.loops job (mem_jobs_iff.mpr ⟨hup, hjob, hready⟩) target htarget)
  · intro h
    refine ⟨fun hmonitor => ?_, fun c hc => ?_, fun job hjob => ?_, fun job hjob target htarget => ?_⟩
    · exact tokioInterval_ok_iff.mpr (h.monitor (monitor_started_iff.mp hmonitor))
    · obtain ⟨haccepted, before, after, hsplit, hready⟩ := mem_senders_iff.mp hc
      exact tokioInterval_ok_iff.mpr (h.endpoints haccepted before c after hsplit hready)
    · obtain ⟨hup, hjob, hready⟩ := mem_jobs_iff.mp hjob
      exact startFileSd_ok_iff.mpr (h.fileSd hup job hjob hready)
    · obtain ⟨hup, hjob, hready⟩ := mem_jobs_iff.mp hjob
      refine startScrapeLoop_ok_iff.mpr ?_
      rw [hinterval job target htarget]
      exact h.jobs hup job hjob hready ⟨target, htarget⟩

end

/-- The one job of the configuration below. -/
def staticJob : ScrapeConfig fragmentDeps.engine where
  jobName := "node"
  staticConfigs := [{ targets := ["h:1"] }]

/-- An accepted configuration whose scrape interval is zero. -/
def zeroIntervalConfig : Config twoFilesDeps.relabel.engine where
  global := { scrapeInterval := ⟨.zero⟩ }
  scrapeConfigs := [staticJob]
  remoteWrite := [{ url := "http://r/w" }]

/-- **A zero interval gets past validation**, panics the self-monitoring task and divides by zero in
    the scrape loop of the job's target, both of which are started. -/
theorem zeroIntervalConfig_faults :
    PromDuration.parse "0" = .ok zeroIntervalConfig.global.scrapeInterval ∧
      zeroIntervalConfig.validate = .ok () ∧
      (startTasks twoFilesDeps (oneFileWorld plainYaml) (fun _ => oneFileWorld plainYaml)
        zeroIntervalConfig).monitor = true ∧
      startSelfMonitor zeroIntervalConfig.global = .error .zeroPeriod ∧
      ∃ job ∈ (startTasks twoFilesDeps (oneFileWorld plainYaml) (fun _ => oneFileWorld plainYaml)
        zeroIntervalConfig).jobs, ∃ target,
        CanScrape twoFilesDeps (fun _ _ => False) false zeroIntervalConfig.global job target ∧
          startScrapeLoop target = .error .divisionByZero := by
  obtain ⟨targets, htargets, hcheck⟩ := Fallible.exists_ok_of_any
    (x := buildTargets fragmentDeps staticJob zeroIntervalConfig.global [] false [⟨["h:1"], {}⟩])
    (p := fun targets => targets.any fun target =>
      decide (startScrapeLoop target = .error .divisionByZero)) (by decide +kernel)
  obtain ⟨target, htarget, hfault⟩ := List.any_eq_true.mp hcheck
  have hvalidate : zeroIntervalConfig.validate = .ok () := by rfl
  have hup : ComesUp twoFilesDeps (oneFileWorld plainYaml) zeroIntervalConfig :=
    ⟨⟨hvalidate, by simp [zeroIntervalConfig]⟩, startSenders_ok_iff.mp ⟨_, rfl⟩⟩
  exact ⟨by decide +kernel, hvalidate, monitor_started_iff.mpr hup, rfl, staticJob,
    mem_jobs_iff.mpr ⟨hup, List.mem_singleton_self _, connectJob_ok_iff.mp ⟨_, rfl⟩⟩, target,
    ⟨_, targets, .inl rfl, htargets, htarget⟩, of_decide_eq_true hfault⟩

end PromScrape
