import CkbSail.ProofSupport.ExactRun
import CkbSail.Scripts.EphemeralVm

/-!
# The disks a launch leaves

From the `try` on, every way out goes through `destroy` of both disks.  The secrets disk
is made before it, so what fails between leaves that disk behind.
-/

namespace CkbSail.Scripts.EphemeralVm

open ProofSupport

variable {host : Host} {args : Arguments} {environment : Environment} {disks : Disks}
  {α β : Type}

/-- Neither the secrets disk nor the overlay exists. -/
structure Gone (disks : Disks) : Prop where
  secrets : disks .secrets = false
  overlay : disks .overlay = false

/-- The file operations of `destroy` succeed. -/
structure Host.Destroys (host : Host) : Prop where
  overwrite : ∀ disk, host.overwrite disk = .ok ()
  unlink : ∀ disk, host.unlink disk = .ok ()

/-! ## Programs that make and remove no disk -/

def Steady (program : Launch α) : Prop := ∀ disks, (program disks).state = disks

namespace Steady

variable {program : Launch α} {next : α → Launch β}

theorem pure {a : α} : Steady (Pure.pure a : Launch α) := fun _ => rfl

theorem check {test : Disks → Except Failure α} : Steady (Program.check test) := fun _ => rfl

theorem get : Steady (Program.get : Launch Disks) := fun _ => rfl

theorem raise {failure : Failure} : Steady (Program.raise failure : Launch α) := fun _ => rfl

theorem step {s : Step} : Steady (step host s) := check

theorem require {condition : Bool} {message : String} : Steady (require condition message) := check

theorem bind (hprogram : Steady program) (hnext : ∀ a, Steady (next a)) :
    Steady (program >>= next) := by
  intro disks
  show (Program.bind program next disks).state = disks
  cases hresult : (program disks).result with
  | error failure => simp only [Program.bind, hresult, hprogram disks]
  | ok a => simp only [Program.bind, hresult, hprogram disks, hnext a disks]

theorem andFinally {last : Launch Unit} (hprogram : Steady program) (hlast : Steady last) :
    Steady (program.andFinally last) := by
  intro disks
  rw [Program.andFinally, hprogram disks, hlast disks]

/-- What holds of the disks stays. -/
theorem keeps (h : Steady program) (P : Disks → Prop) :
    Triple (fun _ _ => True) (fun _ => True) P program fun _ => P := by
  intro disks hdisks
  refine ⟨fun a _ => ?_, fun _ _ => trivial, fun _ _ => trivial⟩
  rwa [h disks]

/-- It also holds of the disks the program raises with. -/
theorem keeps_raising (h : Steady program) (P : Disks → Prop) :
    Triple (fun _ => P) (fun _ => True) P program fun _ => P := by
  intro disks hdisks
  refine ⟨fun a _ => ?_, fun _ _ => ?_, fun _ _ => trivial⟩
  · rwa [h disks]
  · rwa [h disks]

end Steady

theorem describe_steady : Steady (describe host) :=
  .bind .step fun _ => .bind .step fun _ => .bind .step fun _ => .step

theorem fill_steady : Steady (fill host environment) :=
  .bind (.andFinally (.bind .check fun _ => .step) .step) fun _ => .step

theorem copyAll_steady (copies : List (String × String)) : Steady (copyAll host copies) := by
  induction copies with
  | nil => exact .pure
  | cons copy copies ih => exact .bind .step fun _ => ih

theorem collect_steady (qemu : Int) : Steady (collect host qemu) :=
  .bind .require fun _ => .bind .require fun _ => .bind .step fun _ => .bind .check fun _ =>
    .bind .require fun _ => .bind .check fun _ => .bind .require fun _ => .bind .step fun _ =>
      .bind (copyAll_steady _) fun _ => .bind .step fun _ => .pure

/-! ## Destroying a disk -/

theorem destroy_run (h : host.Destroys) (disk : Disk) (disks : Disks) :
    (destroy host disk disks).result = .ok true ∧
      (destroy host disk disks).state = Function.update disks disk false := by
  cases hdisk : disks disk with
  | false =>
      have hupdate : Function.update disks disk false = disks := by
        rw [← hdisk, Function.update_eq_self]
      rw [hupdate]
      simp [destroy, bind, Program.bind, Program.get, hdisk, pure]
  | true =>
      simp [destroy, bind, Program.bind, Program.get, Program.check, Program.perform, hdisk, pure,
        h.overwrite, h.unlink]

/-- What holds once the disk is gone holds after `destroy`, which does not raise. -/
theorem destroy_triple (h : host.Destroys) (disk : Disk) {P Q : Disks → Prop}
    {E : Failure → Disks → Prop}
    (hgone : ∀ disks, P disks → Q (Function.update disks disk false)) :
    Triple E (fun _ => True) P (destroy host disk) fun _ => Q := by
  intro disks hdisks
  obtain ⟨hresult, hstate⟩ := destroy_run h disk disks
  refine ⟨fun gone _ => ?_, fun e he => ?_, fun _ _ => trivial⟩
  · rw [hstate]
    exact hgone disks hdisks
  · rw [hresult] at he
    cases he

theorem destroyBoth_triple (h : host.Destroys) :
    Triple (fun _ _ => True) (fun _ => True) (fun disks => disks .secrets = false)
      (destroyBoth host) fun _ => Gone := by
  have hoverlay : Triple (fun _ _ => True) (fun _ => True) (fun disks => disks .secrets = false)
      (destroy host .overlay) fun _ => Gone := by
    refine destroy_triple h .overlay fun disks hdisks => ⟨?_, Function.update_self ..⟩
    rwa [Function.update_of_ne (by decide)]
  have hevidence : Triple (fun _ _ => True) (fun _ => True) Gone (destroy host .evidence)
      fun _ => Gone := by
    refine destroy_triple h .evidence fun disks hdisks => ⟨?_, ?_⟩
    · rw [Function.update_of_ne (by decide), hdisks.secrets]
    · rw [Function.update_of_ne (by decide), hdisks.overlay]
  exact hoverlay.bind fun gone => .ite (fun _ => hevidence) fun _ => Steady.pure.keeps _

/-! ## The guarded part -/

/-- Where the body returns, it has destroyed both disks. -/
theorem body_triple (h : host.Destroys) :
    Triple (fun _ _ => True) (fun _ => True) (fun _ => True) (body host args) fun _ => Gone := by
  have hsecrets : Triple (fun _ _ => True) (fun _ => True) (fun _ => True)
      (destroy host .secrets) fun _ disks => disks .secrets = false :=
    destroy_triple h .secrets fun disks _ => Function.update_self ..
  exact Triple.trivially.bind fun qemu => hsecrets.bind fun _ => (Steady.require.keeps _).bind
    fun _ => ((collect_steady qemu).keeps _).bind fun _ => (destroyBoth_triple h).bind
      fun _ => (Steady.require.keeps _).bind fun _ => (Steady.step.keeps _).bind
        fun _ => (Steady.step.keeps _).bind fun _ => (Steady.step.keeps _).bind
          fun _ => Steady.pure.keeps _

/-- The handler destroys both disks before it does anything that may raise. -/
theorem cleanUp_triple (h : host.Destroys) (failure : Failure) :
    Triple (fun _ => Gone) (fun _ => True) (fun _ => True) (cleanUp host failure)
      fun _ => Gone := by
  have hsecrets : Triple (fun _ => Gone) (fun _ => True) (fun _ => True)
      (destroy host .secrets) fun _ disks => disks .secrets = false :=
    destroy_triple h .secrets fun disks _ => Function.update_self ..
  have hoverlay : Triple (fun _ => Gone) (fun _ => True) (fun disks => disks .secrets = false)
      (destroy host .overlay) fun _ => Gone := by
    refine destroy_triple h .overlay fun disks hdisks => ⟨?_, Function.update_self ..⟩
    rwa [Function.update_of_ne (by decide)]
  have hrecord : ∀ disks : Disks, Steady (α := Summary) (do
      let _ ← Program.check fun _ => host.writeFailure ⟨failure, !disks .secrets, !disks .overlay⟩
      Program.raise failure) := fun disks => .bind .check fun _ => .raise
  exact hsecrets.bind fun _ => hoverlay.bind fun _ =>
    (Steady.bind .step fun _ => .bind .get hrecord).keeps_raising Gone

theorem guarded_gone (h : host.Destroys) (disks : Disks) :
    Gone (((body host args).handle (cleanUp host)) disks).state := by
  have hbody : Triple (fun _ _ => True) (fun _ => True) (fun _ => True) (body host args)
      fun _ => Gone := body_triple h
  have hrun := hbody.handle (fun e => cleanUp_triple h e) disks trivial
  cases hresult : (((body host args).handle (cleanUp host)) disks).result with
  | ok summary => exact hrun.returned summary hresult
  | error failure => exact hrun.raised failure hresult

/-! ## The part before the `try` -/

/-- The steps up to the creation of the secrets disk succeed. -/
structure SecretsOpened (host : Host) : Prop where
  environmentId : host.step .environmentId = .ok ()
  started : host.step .started = .ok ()
  userData : host.step .userData = .ok ()
  metaData : host.step .metaData = .ok ()
  opened : host.step .openSecrets = .ok ()

/-- The secrets can be written down, and the steps that write them succeed. -/
def SecretsFilled (host : Host) (environment : Environment) : Prop :=
  ∃ blob, secretsBlob environment = .ok blob ∧ host.step (.writeSecrets blob) = .ok () ∧
    host.step .closeSecrets = .ok () ∧ host.step .chmodSecrets = .ok ()

theorem describe_result (disks : Disks) : (describe host disks).result = .ok () ↔
    host.step .environmentId = .ok () ∧ host.step .started = .ok () ∧
      host.step .userData = .ok () ∧ host.step .metaData = .ok () := by
  simp only [describe, Program.bind_result_eq_ok]
  constructor
  · rintro ⟨_, hid, _, hstarted, _, huser, hmeta⟩
    exact ⟨hid, hstarted, huser, hmeta⟩
  · rintro ⟨hid, hstarted, huser, hmeta⟩
    exact ⟨(), hid, (), hstarted, (), huser, hmeta⟩

theorem fill_result (disks : Disks) :
    (fill host environment disks).result = .ok () ↔ SecretsFilled host environment := by
  simp only [fill, Program.bind_result_eq_ok, Program.andFinally_result_eq_ok]
  constructor
  · rintro ⟨_, ⟨⟨blob, hblob, hwrite⟩, hclose⟩, hchmod⟩
    exact ⟨blob, hblob, hwrite, hclose, hchmod⟩
  · rintro ⟨blob, hblob, hwrite, hclose, hchmod⟩
    exact ⟨(), ⟨⟨blob, hblob, hwrite⟩, hclose⟩, hchmod⟩

theorem create_of_ok {x : Step} (h : host.step x = .ok ()) (disk : Disk) (disks : Disks) :
    (create host x disk disks).result = .ok () ∧
      (create host x disk disks).state = Function.update disks disk true := by
  rw [create, Program.perform, h]
  exact ⟨rfl, rfl⟩

theorem create_of_not_ok {x : Step} (h : host.step x ≠ .ok ()) (disk : Disk) (disks : Disks) :
    (create host x disk disks).result ≠ .ok () ∧ (create host x disk disks).state = disks := by
  rw [create, Program.perform]
  cases hstep : host.step x with
  | error failure => exact ⟨nofun, rfl⟩
  | ok u => exact absurd hstep h

/-- Once the secrets disk is made, the preparation leaves it, and returns only if the
secrets could be written. -/
theorem prepare_of_opened (h : SecretsOpened host) (environment : Environment) :
    (prepare host environment noDisks).state = Function.update noDisks .secrets true ∧
      ((prepare host environment noDisks).result = .ok () ↔ SecretsFilled host environment) := by
  have hdescribe : (describe host noDisks).result = .ok () :=
    (describe_result _).2 ⟨h.environmentId, h.started, h.userData, h.metaData⟩
  obtain ⟨hcreate, hstate⟩ := create_of_ok h.opened .secrets noDisks
  rw [prepare, Program.bind_state_of_ok hdescribe, describe_steady noDisks,
    Program.bind_state_of_ok hcreate, fill_steady, Program.bind_result_eq_ok, describe_steady noDisks]
  refine ⟨hstate, ⟨?_, fun hfilled => ?_⟩⟩
  · rintro ⟨_, -, hrest⟩
    obtain ⟨_, -, hfill⟩ := Program.bind_result_eq_ok.1 hrest
    exact (fill_result _).1 hfill
  · exact ⟨(), hdescribe, Program.bind_result_eq_ok.2 ⟨(), hcreate, (fill_result _).2 hfilled⟩⟩

theorem prepare_of_not_opened (h : ¬SecretsOpened host) (environment : Environment) :
    (prepare host environment noDisks).state = noDisks ∧
      (prepare host environment noDisks).result ≠ .ok () := by
  by_cases hdescribe : (describe host noDisks).result = .ok ()
  · have hopen : host.step .openSecrets ≠ .ok () := by
      obtain ⟨hid, hstarted, huser, hmeta⟩ := (describe_result noDisks).1 hdescribe
      exact fun hopened => h ⟨hid, hstarted, huser, hmeta, hopened⟩
    obtain ⟨hcreate, hstate⟩ := create_of_not_ok hopen .secrets noDisks
    have hraised : ∀ u, (create host .openSecrets .secrets noDisks).result ≠ .ok u := fun _ => hcreate
    rw [prepare, Program.bind_state_of_ok hdescribe, describe_steady noDisks,
      Program.bind_state_of_not_ok hraised, ne_eq, Program.bind_result_eq_ok, describe_steady noDisks]
    refine ⟨hstate, ?_⟩
    rintro ⟨_, -, hrest⟩
    obtain ⟨_, hopened, -⟩ := Program.bind_result_eq_ok.1 hrest
    exact hcreate hopened
  · have hraised : ∀ u, (describe host noDisks).result ≠ .ok u := fun _ => hdescribe
    rw [prepare, Program.bind_state_of_not_ok hraised, ne_eq, Program.bind_result_eq_ok]
    refine ⟨describe_steady noDisks, ?_⟩
    rintro ⟨_, hdescribed, -⟩
    exact hdescribe hdescribed

/-! ## What a launch leaves -/

/-- If `destroy` can do its work, neither disk is left after a launch, however it ends,
exactly if the secrets disk is not made or the secrets are written into it. -/
theorem launch_gone_iff (host : Host) (args : Arguments) (environment : Environment)
    (h : host.Destroys) :
    Gone (launch host args environment noDisks).state ↔
      (SecretsOpened host → SecretsFilled host environment) := by
  by_cases hopened : SecretsOpened host
  · obtain ⟨hstate, hresult⟩ := prepare_of_opened hopened environment
    by_cases hfilled : SecretsFilled host environment
    · rw [launch, Program.bind_state_of_ok (hresult.2 hfilled)]
      exact iff_of_true (guarded_gone h _) fun _ => hfilled
    · have hraised : ∀ u, (prepare host environment noDisks).result ≠ .ok u :=
        fun u hu => hfilled (hresult.1 hu)
      rw [launch, Program.bind_state_of_not_ok hraised, hstate]
      refine iff_of_false (fun hgone => ?_) fun hboth => hfilled (hboth hopened)
      have hsecrets := hgone.secrets
      rw [Function.update_self] at hsecrets
      cases hsecrets
  · obtain ⟨hstate, hresult⟩ := prepare_of_not_opened hopened environment
    have hraised : ∀ u, (prepare host environment noDisks).result ≠ .ok u := fun _ => hresult
    rw [launch, Program.bind_state_of_not_ok hraised, hstate]
    exact iff_of_true ⟨rfl, rfl⟩ fun h => absurd h hopened

/-- A host on which every step succeeds. -/
def obligingHost : Host where
  step := fun _ => .ok ()
  tool := fun tool _ _ disks =>
    (.ok 0, if tool = .qemuImg then Function.update disks .overlay true else disks)
  isFile := fun _ => true
  extract := .ok 3
  guestCode := .ok 0
  overwrite := fun _ => .ok ()
  unlink := fun _ => .ok ()
  writeFailure := fun _ => .ok ()

def vmArguments : Arguments :=
  ⟨"/work/vm", "/work/noble.img", "/usr/bin/qemu-system-x86_64", "/usr/bin/qemu-img",
    "/usr/bin/cloud-localds", 8, 16, 80, 8, 12⟩

def bearerUrls : Environment := SECRET_URLS.map fun name => (name, "https://example.org/" ++ name)

theorem obligingHost_destroys : obligingHost.Destroys := ⟨fun _ => rfl, fun _ => rfl⟩

theorem quotable_iff {value : String} :
    quotable value = true ↔ '\n' ∉ value.toList ∧ '\'' ∉ value.toList := by
  simp [quotable, String.contains_char_eq]

theorem secretLine_of_https {environment : Environment} {value : String} (name : String)
    (hvalue : environment.get name = value) (hhttps : "https://".toList <+: value.toList)
    (hquotable : '\n' ∉ value.toList ∧ '\'' ∉ value.toList) :
    secretLine environment name = .ok (name ++ "='" ++ value ++ "'") := by
  have hstarts : value.startsWith "https://" = true := by simpa using hhttps
  simp only [secretLine, hvalue, hstarts, quotable_iff.2 hquotable]
  rfl

theorem proxyLine_of_unset {environment : Environment} (name : String)
    (hvalue : environment.get name = "") : proxyLine environment name = .ok [] := by
  have hquotable : quotable "" = true := quotable_iff.2 (by simp)
  simp only [proxyLine, hvalue, hquotable]
  rfl

theorem mapM_eq_ok_map {α β : Type} {f : α → Except Failure β} {g : α → β} {items : List α}
    (h : ∀ item ∈ items, f item = .ok (g item)) : items.mapM f = .ok (items.map g) := by
  induction items with
  | nil => rfl
  | cons item items ih =>
      rw [List.forall_mem_cons] at h
      rw [List.mapM_cons, h.1, ih h.2]
      rfl

theorem secretsBlob_of_lines {environment : Environment} {secrets : List String}
    {proxies : List (List String)}
    (hsecrets : SECRET_URLS.mapM (secretLine environment) = .ok secrets)
    (hproxies : PROXY_VARIABLES.mapM (proxyLine environment) = .ok proxies)
    (hsize : ("\n".intercalate (secrets ++ proxies.flatten) ++ "\n").toUTF8.size <
      SECRETS_BYTES) :
    ∃ blob, secretsBlob environment = .ok blob := by
  have hfits (message : String) : requireThat (decide (_ < SECRETS_BYTES)) message = .ok () :=
    if_pos (decide_eq_true hsize)
  rw [secretsBlob, hsecrets, hproxies]
  change ∃ blob, (requireThat _ _ >>= fun _ => pure _) = Except.ok blob
  rw [hfits]
  exact ⟨_, rfl⟩

theorem secretsBlob_bearerUrls : ∃ blob, secretsBlob bearerUrls = .ok blob := by
  have hurls : ∀ name ∈ SECRET_URLS,
      bearerUrls.get name = "https://example.org/" ++ name ∧
        "https://".toList <+: ("https://example.org/" ++ name).toList ∧
        '\n' ∉ ("https://example.org/" ++ name).toList ∧
        '\'' ∉ ("https://example.org/" ++ name).toList := by
    decide +kernel
  have hunset : ∀ name ∈ PROXY_VARIABLES, bearerUrls.get name = "" := by decide +kernel
  have hsecrets (name : String) (h : name ∈ SECRET_URLS) : secretLine bearerUrls name =
      .ok (name ++ "='" ++ ("https://example.org/" ++ name) ++ "'") := by
    obtain ⟨hvalue, hhttps, hquotable⟩ := hurls name h
    exact secretLine_of_https name hvalue hhttps hquotable
  have hproxies (name : String) (h : name ∈ PROXY_VARIABLES) :
      proxyLine bearerUrls name = .ok [] := proxyLine_of_unset name (hunset name h)
  exact secretsBlob_of_lines (mapM_eq_ok_map hsecrets) (mapM_eq_ok_map hproxies)
    (by decide +kernel)

theorem launch_gone_iff_bearerUrls :
    Gone (launch obligingHost vmArguments bearerUrls noDisks).state := by
  refine (launch_gone_iff _ _ _ obligingHost_destroys).2 fun _ => ?_
  obtain ⟨blob, hblob⟩ := secretsBlob_bearerUrls
  exact ⟨blob, hblob, rfl, rfl, rfl⟩

/-- Without the URLs the launch raises and leaves the secrets disk. -/
theorem launch_without_urls_leaves_secrets :
    obligingHost.Destroys ∧
      (launch obligingHost vmArguments [] noDisks).result =
        .error (.required "missing/non-HTTPS WEEK6_INSTALL_ARCHIVE_URL") ∧
      ¬Gone (launch obligingHost vmArguments [] noDisks).state := by
  refine ⟨obligingHost_destroys, rfl, fun hgone => ?_⟩
  have hsecrets : (launch obligingHost vmArguments [] noDisks).state .secrets = true := by
    decide +kernel
  rw [hgone.secrets] at hsecrets
  cases hsecrets

end CkbSail.Scripts.EphemeralVm
