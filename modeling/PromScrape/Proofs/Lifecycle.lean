import PromScrape.Library.Fallible
import PromScrape.Implementation.Lifecycle
import PromScrape.Proofs.Relabel

set_option autoImplicit false

/-! # What a reload does to the running process

Loading reads, parses and validates the configuration, but the endpoints are only constructed after
the reload has been answered and the old pipeline has ended. So a reload that fails keeps the pipeline
exactly if it fails to load: when the endpoints of a configuration that loads cannot be constructed,
the process exits, and it takes up nothing before the old pipeline has ended. -/

namespace PromScrape

open Fallible (map_eq_ok exists_map_ok bind_eq_ok exists_both_ok exists_mapM_iff)
open Regex (Engine)

theorem withContext_eq_ok {α : Type} {context : String} {result : Except String α} {a : α} :
    withContext context result = .ok a ↔ result = .ok a := by
  cases result with
  | ok b => exact Iff.rfl
  | error err => exact iff_of_false nofun nofun

/-! ## When an endpoint can be constructed -/

/-- The certificates that a client adds to its roots. -/
def RootsAre (deps : ClientDeps) (world : World) (roots : List deps.Cert) : Option String → Prop
  | none => roots = []
  | some path => ∃ pem, world.read path = .ok pem ∧ deps.pemBundle pem = .ok roots

/-- There is no client certificate, the CA file can be read and parsed, and the client builds. -/
structure TlsReady (deps : ClientDeps) (world : World) (timeout : Duration) (tls : TlsConfig) :
    Prop where
  noCertFile : tls.certFile = none
  noKeyFile : tls.keyFile = none
  builds : ∃ roots, RootsAre deps world roots tls.caFile ∧
    deps.build {
      timeout := timeout
      acceptInvalidCerts := tls.insecureSkipVerify
      rootCertificates := roots } = .ok ()

/-- The secret is given once at most, and if in a file, the file is readable text. -/
def SecretReady (world : World) (inlined file : Option String) : Prop :=
  (inlined = none ∨ file = none) ∧ ∀ path, file = some path → ∃ text, world.readToString path = .ok text

/-- The secret that is used can be had. -/
def CredentialsReady (world : World) (basicAuth : Option BasicAuth)
    (authorization : Option Authorization) (bearerToken bearerTokenFile : Option String) : Prop :=
  match basicAuth, authorization with
  | some auth, _ => SecretReady world auth.password auth.passwordFile
  | none, some auth => SecretReady world auth.credentials auth.credentialsFile
  | none, none => bearerToken = none → SecretReady world none bearerTokenFile

/-- What constructing an endpoint needs of the files around it. -/
structure EndpointReady {E : Engine} (deps : ClientDeps) (world : World)
    (config : RemoteWriteConfig E) : Prop where
  tls : TlsReady deps world config.remoteTimeout.asDuration config.tlsConfig
  credentials : CredentialsReady world config.basicAuth config.authorization config.bearerToken none

theorem loadRoots_eq_ok {deps : ClientDeps} {world : World} {caFile : Option String}
    {roots : List deps.Cert} :
    loadRoots deps world caFile = .ok roots ↔ RootsAre deps world roots caFile := by
  cases caFile with
  | none => exact ⟨fun h => (Except.ok.inj h).symm, fun h => congrArg _ h.symm⟩
  | some path =>
      rw [loadRoots, bind_eq_ok]
      simp only [withContext_eq_ok]
      rfl

theorem buildClient_ok_iff {deps : ClientDeps} {world : World} {timeout : Duration}
    {tls : TlsConfig} :
    (∃ client, buildClient deps world timeout tls = .ok client) ↔
      TlsReady deps world timeout tls := by
  constructor
  · rintro ⟨client, h⟩
    obtain ⟨roots, hroots, h⟩ := bind_eq_ok.mp h
    split at h
    · cases h
    · next hcert =>
        obtain ⟨⟨⟩, hbuild, -⟩ := map_eq_ok.mp h
        rw [Bool.or_eq_true, not_or, Option.not_isSome_iff_eq_none,
          Option.not_isSome_iff_eq_none] at hcert
        exact ⟨hcert.1, hcert.2, roots, loadRoots_eq_ok.mp hroots, withContext_eq_ok.mp hbuild⟩
  · rintro ⟨hcert, hkey, roots, hroots, hbuild⟩
    have hno : ¬ (tls.certFile.isSome || tls.keyFile.isSome) = true := by simp [hcert, hkey]
    refine ⟨{
      timeout := timeout
      acceptInvalidCerts := tls.insecureSkipVerify
      rootCertificates := roots }, bind_eq_ok.mpr ⟨roots, loadRoots_eq_ok.mpr hroots, ?_⟩⟩
    rw [if_neg hno]
    exact map_eq_ok.mpr ⟨(), withContext_eq_ok.mpr hbuild, rfl⟩

theorem readSecretFile_ok_iff {world : World} {path : String} :
    (∃ secret, readSecretFile world path = .ok secret) ↔
      ∃ text, world.readToString path = .ok text := by
  simp only [readSecretFile, map_eq_ok, withContext_eq_ok]
  constructor
  · rintro ⟨_, text, htext, -⟩
    exact ⟨text, htext⟩
  · rintro ⟨text, htext⟩
    exact ⟨_, text, htext, rfl⟩

theorem resolveSecret_ok_iff {world : World} (exclusive : String) {inlined file : Option String} :
    (∃ secret, resolveSecret world exclusive inlined file = .ok secret) ↔
      SecretReady world inlined file := by
  cases inlined with
  | none =>
      cases file with
      | none => exact iff_of_true ⟨"", rfl⟩ ⟨.inl rfl, by simp⟩
      | some path =>
          rw [SecretReady, and_iff_right (.inl rfl), resolveSecret, readSecretFile_ok_iff]
          simp
  | some secret =>
      cases file with
      | none => exact iff_of_true ⟨secret, rfl⟩ ⟨.inr rfl, by simp⟩
      | some path =>
          refine iff_of_false ?_ ?_
          · rintro ⟨_, h⟩
            cases h
          · rintro ⟨h | h, -⟩ <;> cases h

theorem resolve_ok_iff {world : World} {basicAuth : Option BasicAuth}
    {authorization : Option Authorization} {bearerToken bearerTokenFile : Option String} :
    (∃ credentials, Credentials.resolve world basicAuth authorization bearerToken bearerTokenFile
      = .ok credentials) ↔
      CredentialsReady world basicAuth authorization bearerToken bearerTokenFile := by
  unfold CredentialsReady
  cases basicAuth with
  | some auth =>
      simp only [Credentials.resolve, exists_map_ok]
      exact resolveSecret_ok_iff _
  | none =>
      cases authorization with
      | some auth =>
          simp only [Credentials.resolve, exists_map_ok]
          exact resolveSecret_ok_iff _
      | none =>
          cases bearerToken with
          | some token => exact iff_of_true ⟨_, rfl⟩ (by simp)
          | none =>
              cases bearerTokenFile with
              | none => exact iff_of_true ⟨_, rfl⟩ fun _ => ⟨.inl rfl, by simp⟩
              | some path =>
                  simp only [Credentials.resolve, exists_map_ok, readSecretFile_ok_iff]
                  simp [SecretReady]

/-- **An endpoint is constructed exactly when its files are in order.** -/
theorem connection_ok_iff {E : Engine} {deps : ClientDeps} {toLowercase : String → String}
    {world : World} {config : RemoteWriteConfig E} :
    (∃ connection, Connection.new deps toLowercase world config = .ok connection) ↔
      EndpointReady deps world config := by
  rw [Connection.new, exists_both_ok]
  simp only [withContext_eq_ok]
  rw [buildClient_ok_iff, resolve_ok_iff]
  exact ⟨fun h => ⟨h.1, h.2⟩, fun h => ⟨h.tls, h.credentials⟩⟩

theorem startSenders_ok_iff {deps : LifecycleDeps} {world : World}
    {configs : List (RemoteWriteConfig deps.relabel.engine)} :
    (∃ connections, startSenders deps world configs = .ok connections) ↔
      ∀ config ∈ configs, EndpointReady deps.client world config := by
  rw [startSenders, exists_mapM_iff]
  exact forall₂_congr fun _ _ => connection_ok_iff

/-! ## One reload -/

section

variable {deps : LifecycleDeps} {path : String}

namespace Reload

/-- The new configuration fails at some stage of bringing it up: it does not load, or its endpoints
    cannot be constructed. -/
def Fails (path : String) (r : Reload deps) : Prop :=
  (∃ err, loadConfig deps path r.atLoad = .error err) ∨
    ∃ config world err, loadConfig deps path r.atLoad = .ok config ∧ r.atStart = some world ∧
      startSenders deps world config.remoteWrite = .error err

/-- A reload that fails leaves the pipeline it found running, and says so if it was asked for over
    HTTP. -/
def KeepsRunning (path : String) (r : Reload deps) : Prop :=
  r.Fails path → r.after = .running r.before ∧
    ∀ response, r.response = some response → response.1 = "500 Internal Server Error"

/-- The reload has taken effect, or it has left the pipeline it found running and said so if it was
    asked for over HTTP. -/
def Atomic (path : String) (r : Reload deps) : Prop :=
  (∃ config connections, loadConfig deps path r.atLoad = .ok config ∧
      r.after = .running ⟨config, connections, r.before.generation + 1⟩) ∨
    r.after = .running r.before ∧
      ∀ response, r.response = some response → response.1 = "500 Internal Server Error"

/-- If the new configuration loads and the old pipeline has ended, its endpoints can be
    constructed. -/
def Ready (path : String) (r : Reload deps) : Prop :=
  ∀ config world, loadConfig deps path r.atLoad = .ok config → r.atStart = some world →
    ∀ c ∈ config.remoteWrite, EndpointReady deps.client world c

/-- If the new configuration loads, the old pipeline has ended. -/
def Ended (path : String) (r : Reload deps) : Prop :=
  ∀ config, loadConfig deps path r.atLoad = .ok config → ∃ world, r.atStart = some world

/-- How far a reload has got. -/
inductive Course (path : String) (r : Reload deps) : Prop where
  | refused {err : String} (hload : loadConfig deps path r.atLoad = .error err)
      (hresponse : ∀ response, r.response = some response → response = reloadResponse (.error err))
      (hafter : r.after = .running r.before)
  /-- The old pipeline is torn down. -/
  | underway {config : Config deps.relabel.engine}
      (hload : loadConfig deps path r.atLoad = .ok config) (hstart : r.atStart = none)
      (hafter : r.after = .stopping r.before (.reload config))
  | restarted {config : Config deps.relabel.engine} {world : World}
      (hload : loadConfig deps path r.atLoad = .ok config) (hstart : r.atStart = some world)
      (hafter : r.after = bringUp deps world config (r.before.generation + 1))

end Reload

theorem bringUp_of_ok {world : World} {config : Config deps.relabel.engine} {generation : Nat}
    {connections : List (Connection deps.client.Cert)}
    (h : startSenders deps world config.remoteWrite = .ok connections) :
    bringUp deps world config generation = .running ⟨config, connections, generation⟩ := by
  unfold bringUp
  rw [h]
  rfl

theorem bringUp_of_error {world : World} {config : Config deps.relabel.engine} {generation : Nat}
    {err : String} (h : startSenders deps world config.remoteWrite = .error err) :
    bringUp deps world config generation =
      .exited (.error ("starting remote-write senders: " ++ err)) := by
  unfold bringUp
  rw [h]
  rfl

/-- Bringing up a configuration comes to an end. -/
theorem bringUp_ne_stopping {world : World} {config : Config deps.relabel.engine} {generation : Nat}
    {pipeline : Pipeline deps} {reason : StopReason deps} :
    bringUp deps world config generation ≠ .stopping pipeline reason := by
  cases hstart : startSenders deps world config.remoteWrite with
  | ok connections => simp [bringUp_of_ok hstart]
  | error err => simp [bringUp_of_error hstart]

theorem launch_ne_stopping {world : World} {pipeline : Pipeline deps} {reason : StopReason deps} :
    launch deps path world ≠ .stopping pipeline reason := by
  unfold launch
  split
  · exact bringUp_ne_stopping
  · simp

theorem reloadPipeline_of_ok {pipeline : Pipeline deps} {http : Bool} {atLoad : World}
    {config : Config deps.relabel.engine} (h : loadConfig deps path atLoad = .ok config) :
    reloadPipeline deps path pipeline http atLoad = {
      before := pipeline
      atLoad := atLoad
      response := if http then some (reloadResponse (.ok ())) else none
      after := .stopping pipeline (.reload config) } := by
  unfold reloadPipeline
  rw [h]

theorem reloadPipeline_of_error {pipeline : Pipeline deps} {http : Bool} {atLoad : World}
    {err : String} (h : loadConfig deps path atLoad = .error err) :
    reloadPipeline deps path pipeline http atLoad = {
      before := pipeline
      atLoad := atLoad
      response := if http then some (reloadResponse (.error err)) else none
      after := .running pipeline } := by
  unfold reloadPipeline
  rw [h]

/-- A reload begins as refused or underway. -/
theorem reloadPipeline_course (pipeline : Pipeline deps) (http : Bool) (atLoad : World) :
    (reloadPipeline deps path pipeline http atLoad).Course path := by
  cases hload : loadConfig deps path atLoad with
  | error err =>
      rw [reloadPipeline_of_error hload]
      refine .refused hload (fun response hresponse => ?_) rfl
      dsimp only at hresponse
      split at hresponse
      · exact (Option.some.inj hresponse).symm
      · cases hresponse
  | ok config =>
      rw [reloadPipeline_of_ok hload]
      exact .underway hload rfl rfl

/-! ## What has come of a reload -/

namespace Reload

variable {r : Reload deps}

/-- **What its course says of a reload**: whether it keeps what it should, where the process is after
    it, and whether the old pipeline has ended. -/
theorem Course.spec (h : r.Course path) :
    (r.KeepsRunning path ↔ r.Ready path) ∧
      ((∃ pipeline, r.after = .running pipeline) ↔ r.Ready path ∧ r.Ended path) ∧
      ((∃ err, r.after = .exited (.error err)) ↔ ¬ r.Ready path) := by
  cases h with
  | refused hload hresponse hafter =>
      have hready : r.Ready path := fun config _ hconfig => by rw [hload] at hconfig; cases hconfig
      have hended : r.Ended path := fun config hconfig => by rw [hload] at hconfig; cases hconfig
      refine ⟨iff_of_true (fun _ => ⟨hafter, fun response hsome => ?_⟩) hready,
        iff_of_true ⟨_, hafter⟩ ⟨hready, hended⟩, iff_of_false ?_ (not_not.mpr hready)⟩
      · rw [hresponse response hsome]
        rfl
      · simp [hafter]
  | @underway config hload hstart hafter =>
      have hready : r.Ready path := fun _ _ _ hworld => by rw [hstart] at hworld; cases hworld
      refine ⟨iff_of_true ?_ hready, iff_of_false ?_ ?_, iff_of_false ?_ (not_not.mpr hready)⟩
      · rintro (⟨err, hfails⟩ | ⟨config', world, err, -, hworld, -⟩)
        · rw [hload] at hfails
          cases hfails
        · rw [hstart] at hworld
          cases hworld
      · simp [hafter]
      · rintro ⟨-, hended⟩
        obtain ⟨world, hworld⟩ := hended config hload
        rw [hstart] at hworld
        cases hworld
      · simp [hafter]
  | @restarted config world hload hstart hafter =>
      -- The files at the end of the teardown decide.
      have hended : r.Ended path := fun _ _ => ⟨world, hstart⟩
      have hready : r.Ready path ↔ ∃ connections,
          startSenders deps world config.remoteWrite = .ok connections := by
        rw [startSenders_ok_iff]
        constructor
        · intro h
          exact h config world hload hstart
        · intro h config' world' hload' hstart'
          rw [hload] at hload'
          rw [hstart] at hstart'
          cases hload'
          cases hstart'
          exact h
      cases hsenders : startSenders deps world config.remoteWrite with
      | ok connections =>
          rw [bringUp_of_ok hsenders] at hafter
          have hready : r.Ready path := hready.mpr ⟨connections, hsenders⟩
          refine ⟨iff_of_true ?_ hready, iff_of_true ⟨_, hafter⟩ ⟨hready, hended⟩,
            iff_of_false ?_ (not_not.mpr hready)⟩
          · rintro (⟨err, hfails⟩ | ⟨config', world', err, hconfig, hworld, hfails⟩)
            · rw [hload] at hfails
              cases hfails
            · rw [hload] at hconfig
              rw [hstart] at hworld
              cases hconfig
              cases hworld
              rw [hsenders] at hfails
              cases hfails
          · simp [hafter]
      | error err =>
          rw [bringUp_of_error hsenders] at hafter
          have hnot : ¬ r.Ready path := by
            rw [hready, hsenders]
            simp
          refine ⟨iff_of_false ?_ hnot, iff_of_false ?_ (fun h => hnot h.1),
            iff_of_true ⟨_, hafter⟩ hnot⟩
          · intro hkeeps
            obtain ⟨hkept, -⟩ := hkeeps (.inr ⟨config, world, err, hload, hstart, hsenders⟩)
            rw [hafter] at hkept
            cases hkept
          · simp [hafter]

/-- A reload is atomic exactly when it leaves a pipeline running. -/
theorem Course.atomic_iff (h : r.Course path) : r.Atomic path ↔ r.Ready path ∧ r.Ended path := by
  rw [← h.spec.2.1]
  constructor
  · rintro (⟨_, _, -, hafter⟩ | ⟨hafter, -⟩)
    · exact ⟨_, hafter⟩
    · exact ⟨_, hafter⟩
  · rintro ⟨pipeline, hrunning⟩
    cases h with
    | refused hload hresponse hafter =>
        refine .inr ⟨hafter, fun response hsome => ?_⟩
        rw [hresponse response hsome]
        rfl
    | underway hload hstart hafter =>
        rw [hafter] at hrunning
        cases hrunning
    | @restarted config world hload hstart hafter =>
        cases hsenders : startSenders deps world config.remoteWrite with
        | ok connections =>
            rw [bringUp_of_ok hsenders] at hafter
            exact .inl ⟨config, connections, hload, hafter⟩
        | error err =>
            rw [bringUp_of_error hsenders] at hafter
            rw [hafter] at hrunning
            cases hrunning

end Reload

/-! ## Runs -/

namespace AgentRun

variable {s : AgentRun deps} {first : Agent deps} {mayStop : Prop}

/-- Where the last reload has left the process, or `first` before any. -/
def last (first : Agent deps) (s : AgentRun deps) : Agent deps :=
  (s.reloads.getLast?.map Reload.after).getD first

/-- The process is about to end, or has ended, because it was asked to. -/
def Stopped (s : AgentRun deps) : Prop :=
  (∃ pipeline, s.agent = .stopping pipeline .shutdown) ∨ s.agent = .exited (.ok ())

/-- Every reload takes its course, one after the other, and the process is where the last one has left
    it unless it was stopped. -/
structure Inv (path : String) (first : Agent deps) (mayStop : Prop) (s : AgentRun deps) : Prop where
  course : ∀ r ∈ s.reloads, r.Course path
  settled : ∀ r ∈ s.reloads.dropLast, r.Ready path ∧ r.Ended path
  agent : s.agent = s.last first ∨ mayStop ∧ s.Stopped

theorem last_concat (reloads : List (Reload deps)) (r : Reload deps) (agent : Agent deps) :
    (⟨agent, reloads ++ [r]⟩ : AgentRun deps).last first = r.after := by
  simp [last]

/-- A run begins, or has a last reload. -/
theorem reloads_cases (s : AgentRun deps) :
    s.reloads = [] ∨ ∃ before r, s.reloads = before ++ [r] := by
  rcases List.eq_nil_or_concat s.reloads with hnil | ⟨before, r, hconcat⟩
  · exact .inl hnil
  · exact .inr ⟨before, r, by simpa using hconcat⟩

theorem Inv.not_stopped (h : Inv path first mayStop s) (hagent : ¬ s.Stopped) :
    s.agent = s.last first :=
  h.agent.resolve_right fun hstopped => hagent hstopped.2

/-- While a pipeline runs, every reload so far has been ready and its teardown has ended. -/
theorem Inv.all_settled (h : Inv path first mayStop s) {pipeline : Pipeline deps}
    (hrunning : s.agent = .running pipeline) : ∀ r ∈ s.reloads, r.Ready path ∧ r.Ended path := by
  have hlast := h.not_stopped (by simp [Stopped, hrunning])
  rcases s.reloads_cases with hnil | ⟨before, r, hconcat⟩
  · simp [hnil]
  · intro q hq
    rw [hconcat, List.mem_append, List.mem_singleton] at hq
    rcases hq with hq | rfl
    · refine h.settled q ?_
      rw [hconcat, List.dropLast_concat]
      exact hq
    · refine (h.course q (by simp [hconcat])).spec.2.1.mp ⟨pipeline, ?_⟩
      rw [← hrunning, hlast, last, hconcat]
      simp

theorem Inv.reload (h : Inv path first mayStop s) (http : Bool) (atLoad : World) :
    Inv path first mayStop (s.reload path http atLoad) := by
  unfold AgentRun.reload
  split
  · next pipeline hrunning =>
      -- A reload is taken up by a running pipeline only, so all before it are settled.
      have hsettled := h.all_settled hrunning
      refine ⟨?_, ?_, .inl (last_concat _ _ _).symm⟩
      · intro r hr
        rcases List.mem_append.mp hr with hr | hr
        · exact h.course r hr
        · rw [List.mem_singleton.mp hr]
          exact reloadPipeline_course pipeline http atLoad
      · rw [List.dropLast_concat]
        exact hsettled
  · exact h

theorem Inv.stop (h : Inv path first mayStop s) (hstop : mayStop) :
    Inv path first mayStop s.stop := by
  unfold AgentRun.stop
  split
  · exact ⟨h.course, h.settled, .inr ⟨hstop, .inl ⟨_, rfl⟩⟩⟩
  · exact h

/-- A teardown for a reload is that of the last one. -/
theorem Inv.underway (h : Inv path first mayStop s)
    (hfirst : ∀ pipeline reason, first ≠ .stopping pipeline reason) {pipeline : Pipeline deps}
    {config : Config deps.relabel.engine} (hagent : s.agent = .stopping pipeline (.reload config)) :
    ∃ before r, s.reloads = before ++ [r] ∧ r.before = pipeline ∧
      loadConfig deps path r.atLoad = .ok config := by
  have hlast := h.not_stopped (by simp [Stopped, hagent])
  rw [hagent, last] at hlast
  rcases s.reloads_cases with hnil | ⟨before, r, hconcat⟩
  · rw [hnil] at hlast
    exact absurd hlast.symm (hfirst _ _)
  · refine ⟨before, r, hconcat, ?_⟩
    rw [hconcat, List.getLast?_concat, Option.map_some, Option.getD_some] at hlast
    cases h.course r (by simp [hconcat]) with
    | refused _ _ hafter => simp [hafter] at hlast
    | underway hload _ hafter =>
        rw [hafter] at hlast
        cases hlast
        exact ⟨rfl, hload⟩
    | restarted _ _ hafter =>
        rw [hafter] at hlast
        exact absurd hlast.symm bringUp_ne_stopping

theorem Inv.ended (h : Inv path first mayStop s)
    (hfirst : ∀ pipeline reason, first ≠ .stopping pipeline reason) (world : World) :
    Inv path first mayStop (s.ended world) := by
  unfold AgentRun.ended
  split
  · next hagent =>
      have hstop : mayStop := by
        rcases h.agent with hlast | ⟨hstop, -⟩
        · rw [hagent, last] at hlast
          rcases s.reloads_cases with hnil | ⟨before, r, hconcat⟩
          · rw [hnil] at hlast
            exact absurd hlast.symm (hfirst _ _)
          · rw [hconcat, List.getLast?_concat, Option.map_some, Option.getD_some] at hlast
            cases h.course r (by simp [hconcat]) with
            | refused _ _ hafter | underway _ _ hafter => simp [hafter] at hlast
            | restarted _ _ hafter =>
                rw [hafter] at hlast
                exact absurd hlast.symm bringUp_ne_stopping
        · exact hstop
      exact ⟨h.course, h.settled, .inr ⟨hstop, .inr rfl⟩⟩
  · next pipeline config hagent =>
      -- The reload that asked for the teardown is the last one, and this is the end of its course.
      obtain ⟨before, r, hconcat, rfl, hload⟩ := h.underway hfirst hagent
      have hcourse := h.course
      have hsettled := h.settled
      simp only [hconcat, List.dropLast_concat] at hcourse hsettled
      simp only [hconcat, List.dropLast_concat, List.getLast?_concat, Option.map_some,
        Option.toList_some]
      refine ⟨?_, ?_, .inl ?_⟩
      · intro q hq
        rcases List.mem_append.mp hq with hq | hq
        · exact hcourse q (List.mem_append_left _ hq)
        · rw [List.mem_singleton.mp hq]
          exact .restarted hload rfl rfl
      · simpa using hsettled
      · rw [last_concat]
  · exact h

theorem inv_after {start : World} {events : List AgentEvent} (hstop : AgentEvent.stop ∈ events → mayStop) :
    Inv path (launch deps path start) mayStop (runAgent deps path start events) := by
  refine Transition.run_invariant_of_mem (fun e he s h => ?_) ⟨by simp, by simp, .inl rfl⟩
  cases e with
  | hangup world => exact h.reload false world
  | reload world => exact h.reload true world
  | stop => exact h.stop (hstop he)
  | ended world => exact h.ended (fun _ _ => launch_ne_stopping) world

/-- The process goes on: a pipeline runs, and a reload request is answered, with an error and no other
    effect if the configuration does not load. -/
structure Serves (path : String) (s : AgentRun deps) : Prop where
  running : ∃ pipeline, s.agent = .running pipeline
  answers : ∀ world, ∃ response,
    (s.step path (.reload world)).responses = s.responses ++ [response] ∧
      ∀ err, loadConfig deps path world = .error err →
        response.1 = "500 Internal Server Error" ∧ (s.step path (.reload world)).agent = s.agent

theorem serves_iff : s.Serves path ↔ ∃ pipeline, s.agent = .running pipeline := by
  refine ⟨Serves.running, fun ⟨pipeline, hrunning⟩ => ⟨⟨pipeline, hrunning⟩, fun world => ?_⟩⟩
  have hstep : s.step path (.reload world) =
      ⟨(reloadPipeline deps path pipeline true world).after,
        s.reloads ++ [reloadPipeline deps path pipeline true world]⟩ := by
    rw [step, AgentRun.reload, hrunning]
  rw [hstep]
  cases hload : loadConfig deps path world with
  | ok config =>
      rw [reloadPipeline_of_ok hload]
      exact ⟨reloadResponse (.ok ()), by simp [responses], by simp⟩
  | error err =>
      rw [reloadPipeline_of_error hload]
      exact ⟨reloadResponse (.error err), by simp [responses], fun _ _ => ⟨rfl, hrunning.symm⟩⟩

end AgentRun

end

/-- **Reloads that cannot take effect.** In every run of the process, each reload keeps the running
    pipeline whenever the new configuration fails at any stage, and answers with an error, if and only
    if the endpoints of every configuration that a reload loaded could be constructed once the old
    pipeline had ended; and each has taken effect or has kept the running pipeline if and only if,
    besides, each pipeline that was torn down has ended. If nothing asks it to stop, the process exits
    exactly if some endpoints could not be constructed; and it goes on running a pipeline and answering
    exactly if all could and each pipeline that was torn down has ended. -/
theorem runAgent_keepsRunning_iff (deps : LifecycleDeps) (path : String) (start : World)
    (events : List AgentEvent) :
    ((∀ r ∈ (runAgent deps path start events).reloads, r.KeepsRunning path) ↔
      ∀ r ∈ (runAgent deps path start events).reloads, r.Ready path) ∧
    ((∀ r ∈ (runAgent deps path start events).reloads, r.Atomic path) ↔
      ∀ r ∈ (runAgent deps path start events).reloads, r.Ready path ∧ r.Ended path) ∧
    ∀ pipeline, launch deps path start = .running pipeline → AgentEvent.stop ∉ events →
      ((∃ err, (runAgent deps path start events).agent = .exited (.error err)) ↔
        ∃ r ∈ (runAgent deps path start events).reloads, ¬ r.Ready path) ∧
      ((runAgent deps path start events).Serves path ↔
        ∀ r ∈ (runAgent deps path start events).reloads, r.Ready path ∧ r.Ended path) := by
  have hcourse : ∀ r ∈ (runAgent deps path start events).reloads, r.Course path :=
    (AgentRun.inv_after fun _ => trivial).course
  refine ⟨forall₂_congr fun r hr => (hcourse r hr).spec.1,
    forall₂_congr fun r hr => (hcourse r hr).atomic_iff, ?_⟩
  intro pipeline hlaunch hstop
  have h : AgentRun.Inv path (launch deps path start) False (runAgent deps path start events) :=
    AgentRun.inv_after hstop
  obtain ⟨s, hs⟩ : ∃ s, runAgent deps path start events = s := ⟨_, rfl⟩
  rw [hs, hlaunch] at h
  rw [hs, AgentRun.serves_iff]
  have hagent : s.agent = s.last (.running pipeline) :=
    h.agent.resolve_right fun hstopped => hstopped.1
  rcases s.reloads_cases with hnil | ⟨before, r, hconcat⟩
  · rw [AgentRun.last, hnil] at hagent
    rw [hnil, hagent]
    simp
  · -- All but the last reload are settled, and the process is where that one has left it.
    rw [AgentRun.last, hconcat, List.getLast?_concat] at hagent
    have hsettled : ∀ q ∈ before, q.Ready path ∧ q.Ended path := by
      intro q hq
      refine h.settled q ?_
      rw [hconcat, List.dropLast_concat]
      exact hq
    obtain ⟨-, hrunning, hexited⟩ := (h.course r (by simp [hconcat])).spec
    rw [hagent, Option.map_some, Option.getD_some, hrunning, hexited, hconcat]
    constructor
    · constructor
      · intro hready
        exact ⟨r, by simp, hready⟩
      · rintro ⟨q, hq, hready⟩
        rcases List.mem_append.mp hq with hq | hq
        · exact absurd (hsettled q hq).1 hready
        · rwa [← List.mem_singleton.mp hq]
    · constructor
      · intro hlast q hq
        rcases List.mem_append.mp hq with hq | hq
        · exact hsettled q hq
        · rwa [List.mem_singleton.mp hq]
      · intro hall
        exact hall r (by simp)

/-! ## A reload that ends the process -/

def plainYaml : String := "remote_write:\n- url: http://r/w\n"

/-- The CA file does not exist. -/
def missingCaYaml : String :=
  "remote_write:\n- url: http://r/w\n  tls_config:\n    ca_file: /ca.pem\n"

/-- The YAML of the two files. -/
def twoFilesDeps : LifecycleDeps where
  relabel := fragmentDeps
  client := {
    Cert := Unit
    pemBundle := fun _ => .ok [()]
    build := fun _ => .ok () }
  parseYaml := fun text =>
    if text = plainYaml then .ok { remoteWrite := [{ url := "http://r/w" }] }
    else if text = missingCaYaml then
      .ok { remoteWrite := [{ url := "http://r/w", tlsConfig := { caFile := some "/ca.pem" } }] }
    else .error "unexpected text"
  debugStr := id

/-- There is one file. -/
def oneFileWorld (yaml : String) : World where
  read := fun path =>
    if path = "prometheus.yml" then .ok (Utf8.utf8Bytes yaml)
    else .error "No such file or directory (os error 2)"
  env := fun _ => none

/-- **A reload that ends the process**: it is answered with success, and the pipeline is torn down; when
    that has come to an end, the new endpoint cannot be constructed. -/
theorem runAgent_exits :
    (∃ pipeline, launch twoFilesDeps "prometheus.yml" (oneFileWorld plainYaml) = .running pipeline) ∧
    (∃ r pipeline config, (runAgent twoFilesDeps "prometheus.yml" (oneFileWorld plainYaml)
        [.reload (oneFileWorld missingCaYaml)]).reloads = [r] ∧
      r.response = some ("200 OK", "Configuration reloaded.\n") ∧
      r.after = .stopping pipeline (.reload config)) ∧
    ∃ r, (runAgent twoFilesDeps "prometheus.yml" (oneFileWorld plainYaml)
        [.reload (oneFileWorld missingCaYaml), .ended (oneFileWorld missingCaYaml)]).reloads = [r] ∧
      r.Fails "prometheus.yml" ∧ r.response = some ("200 OK", "Configuration reloaded.\n") ∧
      r.after = .exited (.error ("starting remote-write senders: remote_write http://r/w: " ++
        "building client: reading ca_file /ca.pem: No such file or directory (os error 2)")) := by
  have hload : loadConfig twoFilesDeps "prometheus.yml" (oneFileWorld missingCaYaml)
      = .ok { remoteWrite := [
          { url := "http://r/w", tlsConfig := { caFile := some "/ca.pem" } }] } := by rfl
  have hstart : startSenders twoFilesDeps (oneFileWorld missingCaYaml)
      [{ url := "http://r/w", tlsConfig := { caFile := some "/ca.pem" } }]
      = .error ("remote_write http://r/w: building client: reading ca_file /ca.pem: " ++
          "No such file or directory (os error 2)") := by rfl
  exact ⟨⟨_, rfl⟩, ⟨_, _, _, rfl, rfl, rfl⟩, _, rfl, .inr ⟨_, _, _, hload, rfl, hstart⟩, rfl, rfl⟩

end PromScrape
