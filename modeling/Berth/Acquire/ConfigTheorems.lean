/-
Berth.Acquire.ConfigTheorems — what an accepted configuration guarantees.

A derived holder begins with its tenant root and a slash, so the tenant
rule gives it to that root and to nobody else (`derived_holder_owned`).
In runtime mode it ends with a separator and the Pod UID, and a UID that
passed the checks contains no separator: two Pods have two holders
(`runtime_holders_differ`). An explicit identity and a startup-gate holder
are not measured, so the server may refuse what the helper accepts
(`accepted_holder_ok_iff`). A number of seconds that fits an `int64` of
nanoseconds, and no other, reaches the server's records unchanged
(`ttl_agrees_iff`).
-/
import Berth.Acquire.Config
import Berth.Client.LeasesTheorems
import Mathlib.Algebra.GroupWithZero.Nat

namespace Berth.Acquire

open Berth.Api Berth.Checks Berth.Client Berth.GoTime Berth.Interleave Berth.Lease Berth.Tenant

/-! ## Checks -/

namespace Config

/-- What the checks on a derived runtime holder have found. -/
structure UniqueHolder (c : Config) : Prop where
  uid : c.podUID ≠ ""
  plain : containsAny c.podUID ":/ \t\r\n" = false
  trimmed : trimSpace c.podUID = c.podUID
  size : c.holder.utf8ByteSize ≤ 253

/-- What `check` has found of a configuration it accepts. -/
structure Checked (c : Config) : Prop where
  leaseName : c.leaseName ≠ ""
  leaseNamespace : c.leaseNamespace ≠ ""
  mode : c.mode = .startupGate ∨ c.mode = .runtimeSingleton
  enforce : c.enforce = .probe ∨ c.enforce = .signal
  target : c.mode = .runtimeSingleton → c.enforce = .signal → c.signalTarget ≠ ""
  holder : c.mode = .runtimeSingleton → c.holderIdentity = "" → c.UniqueHolder
  ttl_pos : 0 < c.ttl
  ttl_max : c.ttl ≤ maxInt32 * second
  beat_pos : 0 < c.heartbeatInterval
  beat_lt : c.heartbeatInterval < c.ttl
  grace : 0 ≤ c.enforceGrace
  apiServer : c.apiServer ≠ ""
  apiKey : c.apiKey = "" ∨ c.apiKeyFile = ""

variable {c : Config}

theorem checkRuntimeHolder_none : c.checkRuntimeHolder = none ↔ c.UniqueHolder := by
  simp only [checkRuntimeHolder, Option.orElse_eq_none, refuse_eq_none, not_or, not_not,
    Bool.not_eq_true, Nat.not_lt]
  constructor
  · rintro ⟨huid, ⟨hplain, htrim⟩, hsize⟩
    exact ⟨huid, hplain, htrim, hsize⟩
  · rintro ⟨huid, hplain, htrim, hsize⟩
    exact ⟨huid, ⟨hplain, htrim⟩, hsize⟩

theorem check_none : c.check = none ↔ c.Checked := by
  have hholder : (if c.mode = .runtimeSingleton ∧ c.holderIdentity = "" then c.checkRuntimeHolder
      else none) = none ↔ (c.mode = .runtimeSingleton → c.holderIdentity = "" → c.UniqueHolder) := by
    rw [← checkRuntimeHolder_none]
    split
    · next h => simp [h.1, h.2]
    · next h => exact ⟨fun _ hm hi => absurd ⟨hm, hi⟩ h, fun _ => rfl⟩
  simp only [check, Option.orElse_eq_none, refuse_eq_none, hholder, List.mem_cons, List.not_mem_nil,
    or_false, not_not, not_or, not_and, Int.not_le, Int.not_lt]
  constructor
  · rintro ⟨hname, hns, hmode, henf, htarget, hhold, ⟨hpos, hmax⟩, hb, hlt, hg, ha, hk⟩
    exact ⟨hname, hns, or_iff_not_imp_left.mpr hmode, or_iff_not_imp_left.mpr henf, htarget, hhold,
      hpos, hmax, hb, hlt, hg, ha, or_iff_not_imp_left.mpr hk⟩
  · rintro ⟨hname, hns, hmode, henf, htarget, hhold, hpos, hmax, hb, hlt, hg, ha, hk⟩
    exact ⟨hname, hns, or_iff_not_imp_left.mp hmode, or_iff_not_imp_left.mp henf, htarget, hhold,
      ⟨hpos, hmax⟩, hb, hlt, hg, ha, or_iff_not_imp_left.mp hk⟩

/-- The defaults of a configuration in which the texts are set. -/
theorem applyDefaults_of_set (hmode : c.mode ≠ .other "") (henf : c.enforce ≠ .other "")
    (hdir : c.stateDir ≠ "") (hns : c.leaseNamespace ≠ "") :
    c.applyDefaults = { c with
      heartbeatInterval :=
        if c.heartbeatInterval ≤ 0 ∧ 0 < c.ttl then c.ttl.tdiv 3 else c.heartbeatInterval
      releaseOnShutdown := some (c.releaseOnShutdown.getD (c.mode == .runtimeSingleton)) } := by
  simp only [applyDefaults, if_neg hmode, if_neg henf, if_neg hdir, if_neg hns]

/-! ## Holders -/

/-- The tenant a derived holder is meant for. -/
def tenantRoot (c : Config) : String := if c.clusterID ≠ "" then c.clusterID else c.podNamespace

/-- The first segment is the root. -/
theorem holderParts_root (h : c.tenantRoot ≠ "") :
    ∃ rest, c.holderParts = c.tenantRoot :: rest := by
  unfold tenantRoot at h ⊢
  unfold holderParts
  by_cases hc : c.clusterID = ""
  · rw [if_neg (not_not.mpr hc)] at h ⊢
    simp [hc, h]
  · rw [if_pos hc]
    simp [hc]

theorem holder_of_parts {p : String} {ps : List String} (hid : c.holderIdentity = "")
    (hparts : c.holderParts = p :: ps) (hps : ps ≠ []) :
    c.holder = p ++ "/" ++ ":".intercalate ps := by
  obtain ⟨q, qs, rfl⟩ := List.exists_cons_of_ne_nil hps
  simp [holder, hid, hparts]

theorem owns_root (hid : c.holderIdentity = "") (h : c.tenantRoot ≠ "") :
    DefaultAuthorizer.owns c.tenantRoot c.holder = true := by
  obtain ⟨rest, hparts⟩ := holderParts_root h
  by_cases hrest : rest = []
  · subst hrest
    simp [holder, hid, hparts, DefaultAuthorizer.owns]
  rw [holder_of_parts hid hparts hrest, DefaultAuthorizer.owns, Bool.or_eq_true,
    List.isPrefixOf_iff_prefix]
  right
  refine ⟨(":".intercalate rest).toList, ?_⟩
  rw [String.toList_append, String.toList_append]
  rfl

/-- A derived holder is accepted for the tenant its root names, and for
no other: whatever the other fields contain, and whether or not the
configuration was validated. -/
theorem derived_holder_owned (c : Config) (hid : c.holderIdentity = "") (hroot : c.tenantRoot ≠ "")
    (hslash : '/' ∉ c.tenantRoot.toList) (id : Identity) :
    DefaultAuthorizer.authorizeHolder (some id) c.holder = .ok () ↔ id.tenant = c.tenantRoot := by
  have hown := owns_root hid hroot
  rw [authorizeHolder_ok_iff]
  constructor
  · rintro ⟨i, heq, -, hs, ho⟩
    cases heq
    exact owns_unique hs hslash ho hown
  · intro heq
    refine ⟨id, rfl, ?_, ?_, ?_⟩
    · rw [heq]; exact hroot
    · rw [heq]; exact hslash
    · rw [heq]; exact hown

/-- A Pod as the webhook configures its sidecar. -/
def sample (uid : String) : Config :=
  { leaseName := "checkout", leaseNamespace := "prod", mode := .runtimeSingleton
    ttl := 30 * second, heartbeatInterval := 10 * second, clusterID := "east", podNamespace := "prod"
    podName := "checkout-0", podUID := uid, workloadKind := "StatefulSet"
    workloadName := "checkout", apiServer := "https://berth" }

theorem derived_holder_owned_sample :
    DefaultAuthorizer.authorizeHolder (some ⟨"key", "east", ""⟩) (sample "u1").holder = .ok () ∧
      DefaultAuthorizer.authorizeHolder (some ⟨"key", "prod", ""⟩) (sample "u1").holder ≠ .ok () := by
  constructor
  · exact (derived_holder_owned (sample "u1") rfl (by decide) (by decide) ⟨"key", "east", ""⟩).mpr rfl
  · intro h
    have := (derived_holder_owned (sample "u1") rfl (by decide) (by decide) ⟨"key", "prod", ""⟩).mp h
    exact absurd this (by decide)

/-- The characters between the segments of a holder. -/
def isSeparator (ch : Char) : Bool := ch == ':' || ch == '/'

/-- Outside startup-gate mode a derived holder ends with a separator and
the UID. -/
theorem holder_ends_with_uid (hid : c.holderIdentity = "") (hmode : c.mode = .runtimeSingleton) :
    ∃ front sep, isSeparator sep = true ∧ c.holder.toList = front ++ sep :: c.podUID.toList := by
  obtain ⟨init, hparts⟩ : ∃ init, c.holderParts = init ++ ["uid", c.podUID] := by
    unfold holderParts
    rw [hmode]
    exact ⟨_, (List.append_assoc _ _ _).symm⟩
  cases init with
  | nil =>
    refine ⟨"uid".toList, '/', rfl, ?_⟩
    rw [holder_of_parts hid hparts (by simp), String.intercalate_singleton, String.toList_append,
      String.toList_append]
    rfl
  | cons p ps =>
    have hholder : c.holder = p ++ "/" ++ (":".intercalate (ps ++ ["uid"]) ++ ":" ++ c.podUID) := by
      have hsplit : c.holderParts = p :: ((ps ++ ["uid"]) ++ [c.podUID]) := by simp [hparts]
      rw [holder_of_parts hid hsplit (by simp), String.intercalate_append_of_ne_nil (by simp) (by simp),
        String.intercalate_singleton]
    refine ⟨(p ++ "/" ++ ":".intercalate (ps ++ ["uid"])).toList, ':', rfl, ?_⟩
    rw [hholder]
    simp [String.toList_append]

/-- A UID that passed the checks has no separator. -/
theorem UniqueHolder.no_separator (h : c.UniqueHolder) :
    ∀ ch ∈ c.podUID.toList, isSeparator ch = false := by
  intro ch hch
  have hplain := h.plain
  simp only [containsAny, List.any_eq_false] at hplain
  have hnot := hplain ch hch
  rw [List.contains_iff_mem] at hnot
  have hcolon : ch ≠ ':' := fun heq => hnot (by rw [heq]; decide)
  have hslash : ch ≠ '/' := fun heq => hnot (by rw [heq]; decide)
  simp [isSeparator, hcolon, hslash]

/-- What stands after the last separator. -/
def lastSegment (s : String) : List Char :=
  (s.toList.reverse.takeWhile fun ch => !isSeparator ch).reverse

theorem lastSegment_holder (hid : c.holderIdentity = "") (hmode : c.mode = .runtimeSingleton)
    (h : c.UniqueHolder) : lastSegment c.holder = c.podUID.toList := by
  obtain ⟨front, sep, hsep, heq⟩ := holder_ends_with_uid hid hmode
  have huid : ∀ ch ∈ c.podUID.toList.reverse, (!isSeparator ch) = true := by
    intro ch hch
    rw [h.no_separator ch (List.mem_reverse.mp hch), Bool.not_false]
  rw [lastSegment, heq, List.reverse_append, List.reverse_cons, List.append_assoc,
    List.takeWhile_append_of_pos huid]
  simp [hsep]

/-- Accepted runtime configurations with different UIDs have different
holders. -/
theorem runtime_holders_differ (c d : Config) (hc : c.validate = none) (hd : d.validate = none)
    (hcm : c.applyDefaults.mode = .runtimeSingleton) (hdm : d.applyDefaults.mode = .runtimeSingleton)
    (hci : c.holderIdentity = "") (hdi : d.holderIdentity = "") (huid : c.podUID ≠ d.podUID) :
    c.applyDefaults.holder ≠ d.applyDefaults.holder := by
  intro heq
  have hcs : lastSegment c.applyDefaults.holder = c.podUID.toList :=
    lastSegment_holder (c := c.applyDefaults) hci hcm ((check_none.mp hc).holder hcm hci)
  have hds : lastSegment d.applyDefaults.holder = d.podUID.toList :=
    lastSegment_holder (c := d.applyDefaults) hdi hdm ((check_none.mp hd).holder hdm hdi)
  rw [heq, hds] at hcs
  exact huid (String.toList_inj.mp hcs).symm

theorem runtime_holders_differ_sample :
    (sample "u1").applyDefaults.holder ≠ (sample "u2").applyDefaults.holder :=
  runtime_holders_differ (sample "u1") (sample "u2") (by decide) (by decide) rfl rfl
    rfl rfl (by decide)

/-! ## Holders the server refuses -/

/-- The fields a derived startup-gate holder is made of. -/
def startupFields (c : Config) : List String :=
  [c.clusterID, c.podNamespace, c.workloadKind, c.workloadName] ++
    if c.workloadKind = "" ∧ c.workloadName = "" then [c.podName] else []

/-- The bytes of the fields that are set, and one separator between two of
them. -/
def joinedBytes (fields : List String) : Nat :=
  (fields.map String.utf8ByteSize).sum + ((fields.filter (· ≠ "")).length - 1)

/-- The fields make a holder that is not empty and within the server's
limit. Nothing is asked of a derived runtime holder: `Validate` has measured
that one. -/
def HolderFits (c : Config) : Prop :=
  if c.holderIdentity ≠ "" then c.holderIdentity.utf8ByteSize ≤ maxHolderBytes
  else c.mode = .startupGate →
    (∃ f ∈ c.startupFields, f ≠ "") ∧ joinedBytes c.startupFields ≤ maxHolderBytes

theorem validateHolder_ok_iff {holder : String} :
    validateHolder holder = .ok () ↔ holder ≠ "" ∧ holder.utf8ByteSize ≤ maxHolderBytes := by
  unfold validateHolder
  split
  · next h => simp [h]
  rename_i h
  split
  · next hlong => simp; omega
  · next hlong => simp [h]; omega

theorem utf8ByteSize_intercalate {ps : List String} (hps : ps ≠ []) :
    (":".intercalate ps).utf8ByteSize = (ps.map String.utf8ByteSize).sum + (ps.length - 1) := by
  induction ps with
  | nil => exact absurd rfl hps
  | cons p ps ih =>
    by_cases hnil : ps = []
    · simp [hnil]
    have hlen : 0 < ps.length := List.length_pos_iff.mpr hnil
    have hcolon : ":".utf8ByteSize = 1 := by decide
    rw [String.intercalate_cons_of_ne_nil hnil, String.utf8ByteSize_append,
      String.utf8ByteSize_append, ih hnil, hcolon]
    simp only [List.map_cons, List.sum_cons, List.length_cons]
    omega

/-- A derived holder has the bytes of its parts and the separators. -/
theorem utf8ByteSize_holder (hid : c.holderIdentity = "") :
    c.holder.utf8ByteSize =
      (c.holderParts.map String.utf8ByteSize).sum + (c.holderParts.length - 1) := by
  cases hparts : c.holderParts with
  | nil => simp [holder, hid, hparts]
  | cons p ps =>
    by_cases hnil : ps = []
    · simp [holder, hid, hparts, hnil]
    have hlen : 0 < ps.length := List.length_pos_iff.mpr hnil
    have hslash : "/".utf8ByteSize = 1 := by decide
    rw [holder_of_parts hid hparts hnil, String.utf8ByteSize_append, String.utf8ByteSize_append,
      utf8ByteSize_intercalate hnil, hslash]
    simp only [List.map_cons, List.sum_cons, List.length_cons]
    omega

theorem holderParts_startup (hmode : c.mode = .startupGate) :
    c.holderParts = c.startupFields.filter (· ≠ "") := by
  unfold holderParts startupFields
  rw [hmode, List.filter_append]
  dsimp only
  split <;> rfl

theorem sum_bytes_filter (fields : List String) :
    ((fields.filter (· ≠ "")).map String.utf8ByteSize).sum =
      (fields.map String.utf8ByteSize).sum := by
  induction fields with
  | nil => rfl
  | cons f fields ih =>
    by_cases hf : f = ""
    · subst hf
      simpa using ih
    · simp only [List.filter_cons, List.map_cons, List.sum_cons, ← ih]
      simp [hf]

/-- The limit in startup-gate mode, in terms of the fields. -/
theorem startup_holder_ok_iff (hid : c.holderIdentity = "") (hmode : c.mode = .startupGate) :
    validateHolder c.holder = .ok () ↔
      (∃ f ∈ c.startupFields, f ≠ "") ∧ joinedBytes c.startupFields ≤ maxHolderBytes := by
  have hsize : c.holder.utf8ByteSize = joinedBytes c.startupFields := by
    rw [utf8ByteSize_holder hid, holderParts_startup hmode, sum_bytes_filter, joinedBytes]
  have hempty : c.holder = "" ↔ ¬ ∃ f ∈ c.startupFields, f ≠ "" := by
    rw [← String.utf8ByteSize_eq_zero_iff, hsize, joinedBytes]
    constructor
    · rintro hzero ⟨f, hf, hne⟩
      have hsum : (c.startupFields.map String.utf8ByteSize).sum = 0 := by omega
      rw [List.sum_eq_zero_iff_forall_eq_nat] at hsum
      exact hne (String.utf8ByteSize_eq_zero_iff.mp (hsum _ (List.mem_map_of_mem hf)))
    · intro hall
      have hnil : c.startupFields.filter (· ≠ "") = [] := by
        rw [List.filter_eq_nil_iff]
        intro f hf hne
        exact hall ⟨f, hf, by simpa using hne⟩
      rw [← sum_bytes_filter, hnil]
      rfl
  rw [validateHolder_ok_iff, hsize, ne_eq, hempty, not_not]

/-- The holder of an accepted configuration is one the server accepts,
exactly when its fields fit. -/
theorem accepted_holder_ok_iff (c : Config) (hc : c.validate = none) :
    validateHolder c.applyDefaults.holder = .ok () ↔ c.HolderFits := by
  have hchecked : c.applyDefaults.Checked := check_none.mp hc
  unfold HolderFits
  by_cases hid : c.holderIdentity = ""
  · rw [if_neg (not_not.mpr hid)]
    by_cases hmode : c.mode = .startupGate
    · have hdefault : c.applyDefaults.mode = .startupGate := by simp [applyDefaults, hmode]
      rw [startup_holder_ok_iff (c := c.applyDefaults) hid hdefault]
      simp only [hmode, forall_const]
      rfl
    · have hruntime : c.applyDefaults.mode = .runtimeSingleton := by
        refine hchecked.mode.resolve_left ?_
        intro hs
        simp only [applyDefaults] at hs
        split at hs
        · cases hs
        · exact hmode hs
      have hunique := hchecked.holder hruntime hid
      have hne : c.applyDefaults.holder ≠ "" := by
        obtain ⟨front, sep, -, heq⟩ := holder_ends_with_uid (c := c.applyDefaults) hid hruntime
        intro h
        rw [h] at heq
        simp at heq
      simp only [hmode, IsEmpty.forall_iff, iff_true]
      exact validateHolder_ok_iff.mpr ⟨hne, hunique.size⟩
  · rw [if_pos hid, validateHolder_ok_iff]
    have hholder : c.applyDefaults.holder = c.holderIdentity := if_pos hid
    rw [hholder]
    exact and_iff_right hid

theorem accepted_holder_ok_sample :
    validateHolder (sample "u1").applyDefaults.holder = .ok () :=
  (accepted_holder_ok_iff (sample "u1") (by decide)).mpr (by simp [HolderFits, sample])

/-- An explicit identity of 254 bytes is accepted by the helper. -/
theorem explicit_holder_too_long :
    let c : Config := { sample "u1" with holderIdentity := String.ofList (List.replicate 254 'a') }
    c.validate = none ∧
      validateHolder c.applyDefaults.holder = .error (.new "holder must be at most 253 bytes") := by
  decide +kernel

end Config

/-! ## Seconds -/

/-- The number of seconds is an `int64` of nanoseconds. -/
def Fits (n : Int) : Prop := -maxInt64 - 1 ≤ n * second ∧ n * second ≤ maxInt64

theorem fits_of_le {n : Int} (h₀ : 0 ≤ n) (h : n ≤ 9223372036) : Fits n := by
  unfold Fits maxInt64 second
  omega

variable {get : String → String} {c : Config}

theorem secondsEnv_of_atoi {key : String} {n : Int} (hn : atoi (get key) = some n) :
    secondsEnv get key = .ok (toInt64 (n * second)) := by
  have hne : get key ≠ "" := by
    intro h
    rw [h] at hn
    cases hn
  rw [secondsEnv, if_neg hne, hn]

/-- What is read is an `int64`, whatever the number was. -/
theorem secondsEnv_le {key : String} {d : Duration} (h : secondsEnv get key = .ok d) :
    d ≤ maxInt64 := by
  unfold secondsEnv at h
  split at h
  · cases h
    decide
  split at h
  · cases h
  · cases h
    exact toInt64_le _

/-- The durations `configFromEnv` has read. -/
theorem configFromEnv_durations (h : configFromEnv get = .ok c) :
    secondsEnv get envTTLSeconds = .ok c.ttl ∧
      secondsEnv get envHeartbeatSecs = .ok c.heartbeatInterval ∧
      secondsEnv get envEnforceGrace = .ok c.enforceGrace := by
  simp only [configFromEnv, bind_eq_ok, pure_eq_ok] at h
  obtain ⟨ttl, httl, beat, hbeat, grace, hgrace, rel, -, ins, -, rfl⟩ := h
  exact ⟨httl, hbeat, hgrace⟩

/-- A number of seconds that fits is read as it is. -/
theorem seconds_exact {key : String} {n : Int} {d : Duration} (hd : secondsEnv get key = .ok d)
    (hn : atoi (get key) = some n) (hfit : Fits n) : d = n * second := by
  rw [secondsEnv_of_atoi hn, toInt64_of_range hfit.1 hfit.2] at hd
  exact (Except.ok.inj hd).symm

theorem heartbeat_applyDefaults (h : 0 < c.heartbeatInterval) :
    c.applyDefaults.heartbeatInterval = c.heartbeatInterval := by
  have hnot : ¬ (c.heartbeatInterval ≤ 0 ∧ 0 < c.ttl) := fun hle => absurd h (Int.not_lt.mpr hle.1)
  exact if_neg hnot

theorem second_pos : (0 : Int) < second := by decide

/-- The helper's requests that ask for its TTL. -/
def Asks (c : Config) (req : HttpRequest) : Prop :=
  req.endpoint = acquireEndpoint c.holder c.ttl ∨
    ∃ token, req.endpoint = renewEndpoint c.holder token c.ttl

section Server

variable {cfg : Server.Config} {t₀ : Time} {p : Pool (Server.machine cfg)} {req : HttpRequest}
variable {id : Nat} {τ : Time} {resp : Response} {res : AcquireResult}

theorem Asks.op (h : Asks c req) (hwire : toInt32 (c.ttl.tdiv second) * second = c.ttl) :
    Server.requestOp req = some (.acquire req.key c.holder c.ttl) ∨
      ∃ token, Server.requestOp req = some (.renew req.key c.holder token c.ttl) := by
  rcases h with h | ⟨token, h⟩
  · left
    simp only [Server.requestOp, h, acquireEndpoint, hwire]
  · refine .inr ⟨token, ?_⟩
    simp only [Server.requestOp, h, renewEndpoint, hwire]

/-- Whatever is written for such a request has the helper's TTL. -/
theorem Asks.stored_ttl (h : Asks c req) (hwire : toInt32 (c.ttl.tdiv second) * second = c.ttl)
    (hp : (Server.fresh cfg t₀).Reaches p) {x : Write Server.Call} (hx : x ∈ p.shared.writes)
    (hcall : x.call = .http req) : x.new.ttl = c.ttl := by
  have hok := Server.world_ok hp
  obtain ⟨op, t, hop, -, htr⟩ := hok.history.legit_of_mem hx
  have hreq : Server.requestOp req = some op := by
    have := (hok.called x hx).1
    rw [hop, hcall] at this
    exact this.symm
  refine htr.stored_ttl ?_
  rcases h.op hwire with h | ⟨token, h⟩
  · rw [hreq] at h
    cases h
    rfl
  · rw [hreq] at h
    cases h
    rfl

/-- A request that was granted has put off the expiry to its own start
plus the TTL, at least. -/
theorem Asks.deadline_le (h : Asks c req) (hwire : toInt32 (c.ttl.tdiv second) * second = c.ttl)
    (hclock : cfg.clock = .single) (hp : (Server.fresh cfg t₀).Reaches p) (hs : Sent p id req τ)
    (hr : reply? p id = some resp) (hd : decode resp = .ok res) (hacq : res.acquired = true) :
    ∃ x ∈ p.shared.writes, x.tid = id ∧ x.new.ttl = c.ttl ∧ res.expiresAt = x.new.expiresAt ∧
      τ + c.ttl ≤ x.new.expiresAt := by
  rcases h.op hwire with hop | ⟨token, hop⟩
  · obtain ⟨x, hx, hid, hg, hexp⟩ := acquired_grants hclock hp hop hs hr hd hacq
    exact ⟨x, hx, hid, hg.ttl, hexp, hg.deadline_le⟩
  · obtain ⟨-, x, hx, hid, hg, hexp⟩ := renewed_grants hclock hp hop hs hr hd hacq
    exact ⟨x, hx, hid, hg.ttl, hexp, hg.deadline_le⟩

end Server

/-- The TTL of a configuration is the number `n` of its environment, and the
TTL the server stores: in every run of the server, whatever else it is
asked. -/
structure TtlAgrees (get : String → String) (c : Config) (n : Int) : Prop where
  ttl : c.applyDefaults.ttl = n * second ∧ 1 ≤ n ∧ n ≤ maxInt32
  heartbeat : ∀ h, atoi (get envHeartbeatSecs) = some h → 0 < h →
    c.applyDefaults.heartbeatInterval = h * second ∧ h < n
  stored : ∀ (cfg : Server.Config) (t₀ : Time) (p : Pool (Server.machine cfg)),
    (Server.fresh cfg t₀).Reaches p → ∀ x ∈ p.shared.writes, ∀ req, x.call = .http req →
      Asks c.applyDefaults req → x.new.ttl = c.applyDefaults.ttl
  deadline : ∀ (cfg : Server.Config) (t₀ : Time) (p : Pool (Server.machine cfg)),
    cfg.clock = .single → (Server.fresh cfg t₀).Reaches p → ∀ id req τ resp res,
      Sent p id req τ → Asks c.applyDefaults req → reply? p id = some resp →
      decode resp = .ok res → res.acquired = true →
      ∃ x ∈ p.shared.writes, x.tid = id ∧ x.new.ttl = c.applyDefaults.ttl ∧
        res.expiresAt = x.new.expiresAt ∧ τ + c.applyDefaults.ttl ≤ x.new.expiresAt

/-- The TTL of an accepted environment agrees exactly when its numbers of
seconds, a heartbeat that is not positive apart, are an `int64` of
nanoseconds. -/
theorem ttl_agrees_iff (get : String → String) (c : Config) (hc : configFromEnv get = .ok c)
    (hv : c.validate = none) (n : Int) (hn : atoi (get envTTLSeconds) = some n) :
    TtlAgrees get c n ↔
      Fits n ∧ ∀ h, atoi (get envHeartbeatSecs) = some h → 0 < h → Fits h := by
  constructor
  · intro hagree
    obtain ⟨-, hpos, hmax⟩ := hagree.ttl
    unfold maxInt32 at hmax
    refine ⟨fits_of_le (by omega) (by omega), ?_⟩
    intro h hh hhpos
    have hlt := (hagree.heartbeat h hh hhpos).2
    exact fits_of_le (by omega) (by omega)
  · rintro ⟨hfit, hbeat⟩
    obtain ⟨httl, hhb, -⟩ := configFromEnv_durations hc
    have hok := Config.check_none.mp hv
    have hval : c.applyDefaults.ttl = n * second := seconds_exact httl hn hfit
    have hpos : 0 < n := by
      have hprod : 0 < n * second := hval ▸ hok.ttl_pos
      unfold second at hprod
      omega
    have hmax : n ≤ maxInt32 := by
      have := hok.ttl_max
      rw [hval] at this
      exact Int.le_of_mul_le_mul_right this second_pos
    have hwire : toInt32 (c.applyDefaults.ttl.tdiv second) * second = c.applyDefaults.ttl := by
      rw [hval]
      exact ttl_roundTrip (Int.le_of_lt hpos) hmax
    refine ⟨⟨hval, hpos, hmax⟩, ?_, ?_, ?_⟩
    · intro h hh hhpos
      have hb : c.heartbeatInterval = h * second := seconds_exact hhb hh (hbeat h hh hhpos)
      have hbpos : 0 < c.heartbeatInterval := by
        rw [hb]
        exact Int.mul_pos hhpos second_pos
      have hb' := (heartbeat_applyDefaults hbpos).trans hb
      refine ⟨hb', ?_⟩
      have hlt := hok.beat_lt
      rw [hb', hval] at hlt
      exact Int.lt_of_mul_lt_mul_right hlt (Int.le_of_lt second_pos)
    · intro cfg t₀ p hp x hx req hcall hask
      exact hask.stored_ttl hwire hp hx hcall
    · intro cfg t₀ p hclock hp id req τ resp res hs hask hr hd hacq
      exact hask.deadline_le hwire hclock hp hs hr hd hacq

/-- A helper's environment with this TTL. -/
def ttlEnv (ttl : String) : String → String := fun key =>
  if key = envTTLSeconds then ttl
  else if key = envLeaseName then "checkout"
  else if key = envPodNamespace then "prod"
  else if key = envPodUID then "u1"
  else if key = envAPIServer then "https://berth"
  else ""

theorem ttl_agrees_env :
    ∃ c, configFromEnv (ttlEnv "30") = .ok c ∧ c.validate = none ∧ TtlAgrees (ttlEnv "30") c 30 := by
  refine ⟨_, rfl, by decide, ?_⟩
  refine (ttl_agrees_iff (ttlEnv "30") _ rfl (by decide) 30 (by decide)).mpr ?_
  exact ⟨⟨by decide, by decide⟩, fun _ h => by cases h⟩

/-- Seconds are checked after the multiplication has wrapped: one number
far above the limit is accepted as 30 s, and another as a TTL that is no
whole number of seconds, of which the server keeps the whole seconds only. -/
theorem ttl_wraps :
    (∃ c, configFromEnv (ttlEnv "36028797018963998") = .ok c ∧ c.validate = none ∧
      c.applyDefaults.ttl = 30 * second) ∧
    ∃ c, configFromEnv (ttlEnv "20211507185753227") = .ok c ∧ c.validate = none ∧
      toInt32 (c.applyDefaults.ttl.tdiv second) * second < c.applyDefaults.ttl := by
  refine ⟨⟨_, rfl, ?_, ?_⟩, ⟨_, rfl, ?_, ?_⟩⟩ <;> decide

end Berth.Acquire
