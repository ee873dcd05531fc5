import Mathlib.Algebra.BigOperators.Group.List.Basic
import Kms.Core.RateLimit
import Kms.Core.Request
import Kms.Storage.Reads

/-!
# release の既定値の照合

`VerifyReleaseDefaults`。呼び出し側の hash を、有効な release の parameter と比べて、alias ごとの判定だけを返す。判定は値を
一 bit ずつ漏らすので、identity ごとに、要求の数と、一致しない判定の数を limiter で絞る。

* `evaluate` — 判定。読み出しごとに、その時の store を読む
* `Oracle` — 二つの limiter と、動いている呼び出し。どの呼び出しの一歩も、どの順にも起こる
* `OracleInv` — どの identity のどの窓についても、使った量と残りの token の和が収まる
* `verify_defaults_leak_bounded` — 窓の中で返した不一致の判定と、応じた呼び出しの数の上界
-/

namespace Kms.Core

open Kms.Infra Kms.Storage

/-! ## 判定 -/

structure VerifyDefaultsEntry where
  entryAlias : String
  contentType : String
  sha256 : String

structure VerifyReleaseDefaultsInput where
  ns : NamespaceRef
  releaseName : String
  schemaVersion : Option Nat
  schemaSHA256 : String
  entries : List VerifyDefaultsEntry

inductive VerifyVerdict where
  | matched
  | differs
  | missingInRelease
  | unknownAlias
  | secretAlias
  | unsupportedContentType
  deriving DecidableEq

structure VerifyReleaseDefaultsResult where
  releaseName : String
  schemaVersion : Nat
  releaseVersion : Nat
  activationRevision : Nat
  schemaMatches : Bool
  entries : List (String × VerifyVerdict)
  unverified : Nat

/-- 判定ごとの件数。`VerifyDefaultsSummary` の各欄である。 -/
def VerifyReleaseDefaultsResult.summary (r : VerifyReleaseDefaultsResult) (v : VerifyVerdict) :
    Nat :=
  r.entries.countP (fun e => decide (e.2 = v))

/-- `configstore.ParameterHash`。正準な値の hash で、読めない値には無い。 -/
class ParameterHashing where
  parameterHash : String → String → Option String

section Evaluate

variable [Hashing] [ParameterHashing]

def verifyDefaultsEntry (ctx : Ctx) (w : Shared) (entries : List ConfigurationReleaseEntry)
    (contract : List ApplicationContractField) (req : VerifyDefaultsEntry) :
    Except Err VerifyVerdict :=
  match entries.find? (fun e => decide (e.entryAlias = req.entryAlias)) with
  | none =>
    if contract.any (fun f => decide (f.fieldAlias = req.entryAlias)) then .ok .missingInRelease
    else .ok .unknownAlias
  | some entry =>
    if entry.kind ≠ .parameter then .ok .secretAlias
    else if entry.resourceNamespaceID = 0 then .ok .missingInRelease
    else
      match ctx.bindNamespaceIncarnation entry.ref.ns entry.resourceNamespaceID with
      | .error _ => .ok .missingInRelease
      | .ok bound =>
        match getParameter (bound.request w.now) w.store entry.ref entry.version none with
        | .error e => if e.is .notFound || e.is .aborted then .ok .missingInRelease else .error e
        | .ok p =>
          if Hashing.sha256Hex p.value ≠ entry.parameterDigest then .ok .differs
          else if p.contentType ≠ entry.contentType ∨ req.contentType ≠ entry.contentType then
            .ok .differs
          else
            match ParameterHashing.parameterHash entry.contentType p.value with
            | none => .ok .unsupportedContentType
            | some stored => if stored = req.sha256 then .ok .matched else .ok .differs

/-- alias ごとの判定。読み出しの失敗で止まる。 -/
def verifyEntries (ctx : Ctx) (view : Nat → Shared) (entries : List ConfigurationReleaseEntry)
    (contract : List ApplicationContractField) :
    Nat → List VerifyDefaultsEntry → Except Err (List (String × VerifyVerdict))
  | _, [] => .ok []
  | k, req :: reqs => do
    let v ← verifyDefaultsEntry ctx (view k) entries contract req
    let vs ← verifyEntries ctx view entries contract (k + 1) reqs
    pure ((req.entryAlias, v) :: vs)

/-- 選んだ schema の version と digest。version `0` は schema の無い系列である。 -/
def verifySchema (s : Store) (application releaseName : String)
    (input : VerifyReleaseDefaultsInput) : Except Err (Nat × String) :=
  match input.schemaVersion with
  | some 0 => .ok (0, "")
  | some v => do
    let schema ← getConfigurationSchema s application releaseName v
    pure (schema.version, schema.digest)
  | none => do
    let schema ← getConfigurationSchemaByDigest s application releaseName input.schemaSHA256
    pure (schema.version, schema.digest)

def evaluate (ctx : Ctx) (view : Nat → Shared) (input : VerifyReleaseDefaultsInput) :
    Except Err VerifyReleaseDefaultsResult := do
  let app ← getApplication (view 0).store input.ns.app
  let releaseName := if input.releaseName = "" then app.releaseName else input.releaseName
  (validateKey releaseName).mapError (fun m => .invalidArgument ("invalid release name: " ++ m))
  let (version, digest) ← verifySchema (view 1).store app.name releaseName input
  let contract ← getConfigurationSchemaContract (view 2).store app.name releaseName version
  let track : ReleaseTrack := ⟨input.ns, releaseName, version⟩
  let active ← getActiveConfigurationRelease (ctx.request (view 3).now) (view 3).store track
  let release := active.release
  require (release.track = track ∧ ∀ e ∈ release.entries, e.ref.ns = input.ns ∧
      e.resourceNamespaceID ≠ 0)
    (.failedPrecondition "active release violates namespace ownership invariants")
  let verdicts ← verifyEntries ctx view release.entries (contract.getD []) 4 input.entries
  pure
    { releaseName := release.name, schemaVersion := release.schemaVersion
      releaseVersion := release.version, activationRevision := active.activationRevision
      schemaMatches := input.schemaVersion.isSome || decide (digest = input.schemaSHA256)
      entries := verdicts
      unverified := release.entries.countP (fun e => decide (e.kind = .parameter) &&
        !input.entries.any (fun r => decide (r.entryAlias = e.entryAlias))) }

def VerifyReleaseDefaultsResult.nonMatching (r : VerifyReleaseDefaultsResult) : Nat :=
  r.entries.countP (fun e => decide (e.2 ≠ .matched))

/-- budget から引く数。schema の不一致も一つと数える。 -/
def chargeOf (input : VerifyReleaseDefaultsInput) (r : VerifyReleaseDefaultsResult) : Nat :=
  (input.entries.length - r.summary .matched) +
    if input.schemaSHA256 ≠ "" ∧ r.schemaMatches = false then 1 else 0

theorem length_verifyEntries {ctx : Ctx} {view : Nat → Shared}
    {entries : List ConfigurationReleaseEntry} {contract : List ApplicationContractField}
    {reqs : List VerifyDefaultsEntry} : ∀ {k : Nat} {vs : List (String × VerifyVerdict)},
    verifyEntries ctx view entries contract k reqs = .ok vs → vs.length = reqs.length := by
  induction reqs with
  | nil => intro k vs h; cases h; rfl
  | cons req reqs ih =>
    intro k vs h
    simp only [verifyEntries, bind_eq_ok_iff, pure_eq_ok_iff] at h
    obtain ⟨v, -, vs', hvs', rfl⟩ := h
    rw [List.length_cons, List.length_cons, ih hvs']

theorem nonMatching_le_chargeOf {ctx : Ctx} {view : Nat → Shared}
    {input : VerifyReleaseDefaultsInput} {r : VerifyReleaseDefaultsResult}
    (h : evaluate ctx view input = .ok r) : r.nonMatching ≤ chargeOf input r := by
  have hlen : r.entries.length = input.entries.length := by
    simp only [evaluate, bind_eq_ok_iff, pure_eq_ok_iff] at h
    obtain ⟨_, _, _, _, _, _, _, _, _, _, _, _, vs, hvs, rfl⟩ := h
    exact length_verifyEntries hvs
  have hsplit := List.length_eq_countP_add_countP
    (fun e : String × VerifyVerdict => decide (e.2 = .matched)) (l := r.entries)
  have hnot : r.nonMatching = r.entries.countP (fun e => ¬ decide (e.2 = .matched) = true) := by
    simp [VerifyReleaseDefaultsResult.nonMatching]
  unfold chargeOf VerifyReleaseDefaultsResult.summary
  omega

end Evaluate

/-! ## 呼び出し -/

structure VerifyDefaultsLimits where
  requestsPerHour : Int
  burst : Int
  mismatchBudgetPerHour : Int

/-- 正でない欄は既定値にする。 -/
def VerifyDefaultsLimits.effective (l : VerifyDefaultsLimits) : VerifyDefaultsLimits where
  requestsPerHour := if l.requestsPerHour ≤ 0 then 60 else l.requestsPerHour
  burst := if l.burst ≤ 0 then 10 else l.burst
  mismatchBudgetPerHour := if l.mismatchBudgetPerHour ≤ 0 then 500 else l.mismatchBudgetPerHour

/-- 要求の budget を通った呼び出しの進み。 -/
inductive VerifyPhase where
  | running
  | refused
  | drained
  | ended
  | answered (chargedAt : ℚ) (charge : Nat) (result : VerifyReleaseDefaultsResult)

structure VerifyCall where
  identity : String
  admittedAt : ℚ
  phase : VerifyPhase

structure Oracle where
  clock : ℚ
  requests : Limiter
  mismatches : Limiter
  calls : List VerifyCall

def newVerifyLimiters (limits : VerifyDefaultsLimits) (clock : ℚ) : Oracle where
  clock := clock
  requests := .new (limits.effective.requestsPerHour / 60) limits.effective.burst
  mismatches := .new (limits.effective.mismatchBudgetPerHour / 60)
    limits.effective.mismatchBudgetPerHour
  calls := []

/-- 時計と、呼び出しの一歩。limiter の操作は mutex の下で一つずつ起こる。 -/
inductive OracleEvent where
  | tick (now : ℚ)
  | enter (identity : String)
  | finish (i : Nat) (ctx : Ctx) (view : Nat → Shared) (input : VerifyReleaseDefaultsInput)
  | drainMismatches (i : Nat)
  | drainRequests (i : Nat)
  | sweep

namespace Oracle

def setPhase (s : Oracle) (i : Nat) (c : VerifyCall) (phase : VerifyPhase) : Oracle :=
  { s with calls := s.calls.set i { c with phase } }

/-- 判定し終えた呼び出し。budget から引けなければ、判定を返さない。 -/
def charge (s : Oracle) (i : Nat) (c : VerifyCall) (n : Nat) (r : VerifyReleaseDefaultsResult) :
    Oracle :=
  if n = 0 then s.setPhase i c (.answered s.clock 0 r)
  else
    match s.mismatches.take s.clock c.identity n with
    | (true, l) => { s with mismatches := l }.setPhase i c (.answered s.clock n r)
    | (false, l) => { s with mismatches := l }.setPhase i c .refused

variable [Hashing] [ParameterHashing]

def step (s : Oracle) : OracleEvent → Oracle
  | .tick now => { s with clock := max s.clock now }
  | .enter identity =>
    match s.requests.allow s.clock identity with
    | (true, l) => { s with requests := l, calls := s.calls ++ [⟨identity, s.clock, .running⟩] }
    | (false, l) => { s with requests := l }
  | .finish i ctx view input =>
    match s.calls[i]? with
    | some c =>
      match c.phase, evaluate ctx view input with
      | .running, .ok r => s.charge i c (chargeOf input r) r
      | .running, .error _ => s.setPhase i c .ended
      | _, _ => s
    | none => s
  | .drainMismatches i =>
    match s.calls[i]? with
    | some c =>
      match c.phase with
      | .refused =>
        { s with mismatches := s.mismatches.drain s.clock c.identity }.setPhase i c .drained
      | _ => s
    | none => s
  | .drainRequests i =>
    match s.calls[i]? with
    | some c =>
      match c.phase with
      | .drained => { s with requests := s.requests.drain s.clock c.identity }.setPhase i c .ended
      | _ => s
    | none => s
  | .sweep =>
    { s with
      requests := s.requests.sweep s.clock
      mismatches := s.mismatches.sweep s.clock }

/-! ## 窓の中で使った量 -/

def used (s : Oracle) (f : VerifyCall → ℚ) : ℚ := (s.calls.map f).sum

/-- 窓の中で budget を通った要求。 -/
def admission (identity : String) (a t : ℚ) (c : VerifyCall) : ℚ :=
  if identity = c.identity ∧ a ≤ c.admittedAt ∧ c.admittedAt ≤ a + t then 1 else 0

/-- 窓の中で budget から引いた数。 -/
def charged (identity : String) (a t : ℚ) (c : VerifyCall) : ℚ :=
  match c.phase with
  | .answered chargedAt n _ =>
    if identity = c.identity ∧ a ≤ chargedAt ∧ chargedAt ≤ a + t then n else 0
  | _ => 0

omit [Hashing] [ParameterHashing] in
theorem used_setPhase {s : Oracle} {i : Nat} {c : VerifyCall} (h : s.calls[i]? = some c)
    (phase : VerifyPhase) (f : VerifyCall → ℚ) :
    (s.setPhase i c phase).used f = s.used f + (f { c with phase } - f c) := by
  obtain ⟨hi, hc⟩ := List.getElem?_eq_some_iff.mp h
  unfold used setPhase
  rw [List.map_set, List.sum_set', dif_pos (by simpa using hi),
    List.getElem_map, hc, neg_add_eq_sub]

/-- oracle の不変条件。 -/
structure Inv (limits : VerifyDefaultsLimits) (s : Oracle) : Prop where
  requests : s.requests.Metered s.clock (fun k a t => s.used (admission k a t))
  mismatches : s.mismatches.Metered s.clock (fun k a t => s.used (charged k a t))
  requestsConfig : s.requests.rate = limits.effective.requestsPerHour / 60 / 60 ∧
    s.requests.burst = limits.effective.burst ∧
    s.requests.maxBuckets = Limiter.defaultMaxBuckets
  mismatchesConfig : s.mismatches.rate = limits.effective.mismatchBudgetPerHour / 60 / 60 ∧
    s.mismatches.burst = limits.effective.mismatchBudgetPerHour ∧
    s.mismatches.maxBuckets = Limiter.defaultMaxBuckets
  paid : ∀ c ∈ s.calls, ∀ chargedAt n r, c.phase = .answered chargedAt n r → r.nonMatching ≤ n

variable {limits : VerifyDefaultsLimits} {s : Oracle}

omit [Hashing] [ParameterHashing] in
theorem inv_new (limits : VerifyDefaultsLimits) (clock : ℚ) :
    Inv limits (newVerifyLimiters limits clock) := by
  have hpos : ∀ {x d : Int}, 0 < d → (0 : ℚ) ≤ ((if x ≤ 0 then d else x : Int) : ℚ) := by
    intro x d hd
    split
    · exact_mod_cast hd.le
    · next h => exact_mod_cast (not_le.mp h).le
  have hmetered : ∀ {perMinute burst : ℚ}, 0 ≤ perMinute → 0 ≤ burst →
      (Limiter.new perMinute burst).Metered clock (fun _ _ _ => 0) := by
    intro perMinute burst hrate hburst
    have hrate' : 0 ≤ perMinute / 60 := div_nonneg hrate (by norm_num)
    exact ⟨⟨hrate', hburst, Nat.zero_le _, fun b hb => absurd hb (Table.not_mem_empty b)⟩,
      fun k a t ht => Allowed.start hrate' ht hburst (Limiter.available_le k)⟩
  refine ⟨hmetered ?_ (hpos (by decide)), hmetered ?_ (hpos (by decide)), ⟨rfl, rfl, rfl⟩,
    ⟨rfl, rfl, rfl⟩, by simp [newVerifyLimiters]⟩
  all_goals exact div_nonneg (hpos (by decide)) (by norm_num)

omit [Hashing] [ParameterHashing] in
/-- limiter と呼び出しを進める一歩。使った量の増え方だけを確かめれば足りる。 -/
theorem Inv.move (h : Inv limits s) {requests mismatches : Limiter} {calls : List VerifyCall}
    {key : String} {n m : ℚ} (hreq : s.requests.Spends requests s.clock key n)
    (hmis : s.mismatches.Spends mismatches s.clock key m)
    (hadmission : ∀ k a t, (calls.map (admission k a t)).sum = s.used (admission k a t) +
      if k = key ∧ a ≤ s.clock ∧ s.clock ≤ a + t then n else 0)
    (hcharged : ∀ k a t, (calls.map (charged k a t)).sum = s.used (charged k a t) +
      if k = key ∧ a ≤ s.clock ∧ s.clock ≤ a + t then m else 0)
    (hpaid : ∀ c ∈ calls, c ∈ s.calls ∨ ∀ chargedAt n r, c.phase = .answered chargedAt n r →
      r.nonMatching ≤ n) : Inv limits ⟨s.clock, requests, mismatches, calls⟩ where
  requests := h.requests.spend hreq hadmission
  mismatches := h.mismatches.spend hmis hcharged
  requestsConfig := by rw [hreq.rate, hreq.burst, hreq.maxBuckets]; exact h.requestsConfig
  mismatchesConfig := by rw [hmis.rate, hmis.burst, hmis.maxBuckets]; exact h.mismatchesConfig
  paid := fun c hc => (hpaid c hc).elim (h.paid c) id

omit [Hashing] [ParameterHashing] in
/-- 一つの呼び出しの進みを変える一歩。 -/
theorem Inv.setPhase (h : Inv limits s) {i : Nat} {c : VerifyCall} (hc : s.calls[i]? = some c)
    {requests mismatches : Limiter} {phase : VerifyPhase} {m : ℚ}
    (hreq : s.requests.Spends requests s.clock c.identity 0)
    (hmis : s.mismatches.Spends mismatches s.clock c.identity m)
    (hphase : ∀ k a t, charged k a t { c with phase } - charged k a t c =
      if k = c.identity ∧ a ≤ s.clock ∧ s.clock ≤ a + t then m else 0)
    (hpaid : ∀ chargedAt n r, phase = .answered chargedAt n r → r.nonMatching ≤ n) :
    Inv limits (Oracle.setPhase { s with requests, mismatches } i c phase) := by
  refine h.move hreq hmis (fun k a t => ?_) (fun k a t => ?_) (fun x hx =>
    (List.mem_or_eq_of_mem_set hx).imp_right (fun heq => by rw [heq]; exact hpaid))
  · have := used_setPhase hc phase (admission k a t)
    rwa [show admission k a t { c with phase } = admission k a t c from rfl, sub_self,
      ← ite_self (0 : ℚ)] at this
  · have := used_setPhase hc phase (charged k a t)
    rw [hphase] at this
    exact this

omit [Hashing] [ParameterHashing] in
theorem inv_charge (h : Inv limits s) {i : Nat} {c : VerifyCall} (hc : s.calls[i]? = some c)
    (hphase : c.phase = .running) {n : Nat} {r : VerifyReleaseDefaultsResult}
    (hr : r.nonMatching ≤ n) : Inv limits (s.charge i c n r) := by
  unfold charge
  by_cases hn : n = 0
  · rw [if_pos hn]
    exact h.setPhase hc (.refl h.requests.inv) (.refl h.mismatches.inv)
      (fun k a t => by simp [charged, hphase]) (fun _ _ _ he => by cases he; omega)
  · rw [if_neg hn]
    have hpos : (0 : ℚ) < n := by exact_mod_cast Nat.pos_of_ne_zero hn
    cases htake : s.mismatches.take s.clock c.identity n with
    | mk ok l =>
      have hspend := Limiter.take_spends h.mismatches.inv hpos htake
      cases ok with
      | true =>
        exact h.setPhase hc (.refl h.requests.inv) hspend
          (fun k a t => by simp [charged, hphase]) (fun _ _ _ he => by cases he; exact hr)
      | false =>
        exact h.setPhase hc (.refl h.requests.inv) hspend
          (fun k a t => by simp [charged, hphase]) (fun _ _ _ he => by cases he)

theorem inv_step (h : Inv limits s) (e : OracleEvent) : Inv limits (s.step e) := by
  cases e with
  | tick now =>
    exact ⟨h.requests.elapse (le_max_left ..), h.mismatches.elapse (le_max_left ..),
      h.requestsConfig, h.mismatchesConfig, h.paid⟩
  | enter identity =>
    simp only [step]
    cases htake : s.requests.allow s.clock identity with
    | mk ok l =>
      have hspend := Limiter.take_spends h.requests.inv (by norm_num) htake
      cases ok with
      | true =>
        refine h.move hspend (.refl h.mismatches.inv) (fun k a t => ?_) (fun k a t => ?_) ?_
        · simp [used, admission]
        · simp [used, charged]
        · intro c hc
          refine (List.mem_append.mp hc).imp_right (fun hnew => ?_)
          rw [List.mem_singleton.mp hnew]
          rintro _ _ _ ⟨⟩
      | false =>
        exact h.move hspend (.refl h.mismatches.inv) (fun k a t => by simp [used])
          (fun k a t => by simp [used]) (fun _ => .inl)
  | finish i ctx view input =>
    simp only [step]
    split
    · next c hc =>
      split
      · next r hphase hr => exact inv_charge h hc hphase (nonMatching_le_chargeOf hr)
      · next e hphase _ =>
        exact h.setPhase hc (.refl h.requests.inv) (.refl h.mismatches.inv)
          (fun k a t => by simp [charged, hphase]) (fun _ _ _ he => by cases he)
      · exact h
    · exact h
  | drainMismatches i =>
    simp only [step]
    split
    · next c hc =>
      split
      · next hphase =>
        exact h.setPhase hc (.refl h.requests.inv) (Limiter.drain_spends h.mismatches.inv)
          (fun k a t => by simp [charged, hphase]) (fun _ _ _ he => by cases he)
      · exact h
    · exact h
  | drainRequests i =>
    simp only [step]
    split
    · next c hc =>
      split
      · next hphase =>
        exact h.setPhase hc (Limiter.drain_spends h.requests.inv) (.refl h.mismatches.inv)
          (fun k a t => by simp [charged, hphase]) (fun _ _ _ he => by cases he)
      · exact h
    · exact h
  | sweep =>
    have hspend : s.requests.Spends _ s.clock "" 0 := Limiter.sweep_spends h.requests.inv
    exact h.move hspend
      (Limiter.sweep_spends h.mismatches.inv) (fun k a t => by simp [used])
      (fun k a t => by simp [used]) (fun _ => .inl)

theorem inv_run (limits : VerifyDefaultsLimits) (clock : ℚ) (es : List OracleEvent) :
    Inv limits (run step (newVerifyLimiters limits clock) es) :=
  run_invariant (I := Inv limits) (fun _ e h => inv_step h e) (inv_new limits clock) es

/-- 窓の中で budget から引いた呼び出しが、`identity` に返した不一致の判定の数。 -/
def nonMatchesReturned (s : Oracle) (identity : String) (a t : ℚ) : Nat :=
  (s.calls.map fun c =>
    match c.phase with
    | .answered chargedAt _ r =>
      if identity = c.identity ∧ a ≤ chargedAt ∧ chargedAt ≤ a + t then r.nonMatching else 0
    | _ => 0).sum

/-- 窓の中で budget を通り、判定を返した `identity` の呼び出しの数。 -/
def answersAdmitted (s : Oracle) (identity : String) (a t : ℚ) : Nat :=
  (s.calls.map fun c =>
    match c.phase with
    | .answered _ _ _ =>
      if identity = c.identity ∧ a ≤ c.admittedAt ∧ c.admittedAt ≤ a + t then 1 else 0
    | _ => 0).sum

omit [Hashing] [ParameterHashing] in
theorem sum_le_used {f : VerifyCall → Nat} {g : VerifyCall → ℚ} (s : Oracle)
    (h : ∀ c ∈ s.calls, (f c : ℚ) ≤ g c) : ((s.calls.map f).sum : ℚ) ≤ s.used g := by
  unfold used
  generalize s.calls = cs at h
  induction cs with
  | nil => simp
  | cons c cs ih =>
    have hc := h c List.mem_cons_self
    have hcs := ih (fun x hx => h x (List.mem_cons_of_mem _ hx))
    simp only [List.map_cons, List.sum_cons, Nat.cast_add]
    exact add_le_add hc hcs

/-- **どの identity が、どの窓の中で得る不一致の判定も、応じた呼び出しも、budget に収まる。** 掃いても、どの key の使える
token も変わらず、bucket は上限より多くならない。 -/
theorem verify_defaults_leak_bounded (limits : VerifyDefaultsLimits) (clock : ℚ)
    (es : List OracleEvent) (identity : String) (a t : ℚ) (ht : 0 ≤ t) :
    let s := run step (newVerifyLimiters limits clock) es
    let cfg := limits.effective
    (s.nonMatchesReturned identity a t : ℚ) ≤
        cfg.mismatchBudgetPerHour + cfg.mismatchBudgetPerHour * t / 3600 ∧
      (s.answersAdmitted identity a t : ℚ) ≤ cfg.burst + cfg.requestsPerHour * t / 3600 ∧
      (∀ key now, s.clock ≤ now →
        (s.requests.sweep s.clock).available key now = s.requests.available key now ∧
        (s.mismatches.sweep s.clock).available key now = s.mismatches.available key now) ∧
      s.requests.buckets.rows.length ≤ Limiter.defaultMaxBuckets ∧
      s.mismatches.buckets.rows.length ≤ Limiter.defaultMaxBuckets := by
  intro s cfg
  have h : Inv limits s := inv_run limits clock es
  obtain ⟨hrate, hburst, hmax⟩ := h.requestsConfig
  obtain ⟨hrate', hburst', hmax'⟩ := h.mismatchesConfig
  refine ⟨?_, ?_, fun key now hnow => ⟨Limiter.available_sweep h.requests.inv hnow key,
    Limiter.available_sweep h.mismatches.inv hnow key⟩, hmax ▸ h.requests.inv.size,
    hmax' ▸ h.mismatches.inv.size⟩
  · have hle : (s.nonMatchesReturned identity a t : ℚ) ≤ s.used (charged identity a t) := by
      refine sum_le_used s (fun c hc => ?_)
      unfold charged
      split
      · next chargedAt n r hphase =>
        split
        · exact_mod_cast h.paid c hc chargedAt n r hphase
        · simp
      · simp
    have hbound := h.mismatches.bound identity (a := a) ht
    rw [hrate', hburst'] at hbound
    linarith
  · have hle : (s.answersAdmitted identity a t : ℚ) ≤ s.used (admission identity a t) := by
      refine sum_le_used s (fun c _ => ?_)
      unfold admission
      split
      · push_cast
        exact le_rfl
      · split
        all_goals norm_num
    have hbound := h.requests.bound identity (a := a) ht
    rw [hrate, hburst] at hbound
    linarith

end Oracle

section Sample

local instance verifyHashing : Hashing := sampleHashing

local instance verifyParameterHashing : ParameterHashing := ⟨fun _ value => some value⟩

/-- release に無い alias の照合。 -/
private def sampleGuess : VerifyReleaseDefaultsInput :=
  ⟨sampleNamespace, "", some 0, "", [⟨"limit", "text/plain", "5"⟩]⟩

/-- 二つの呼び出しのうち、一つ目が不一致の判定を返す。 -/
private def sampleGuesses : List OracleEvent :=
  [.enter "billing", .tick 30, .enter "billing",
    .finish 0 .empty (fun _ => ⟨run Storage.step Store.empty (sampleCalls.take 3), 1⟩) sampleGuess]

/-- 既定の budget では、一時間の窓の中で返す不一致の判定は 1000 を、応じる呼び出しは 70 を超えない。 -/
theorem Oracle.verify_defaults_leak_bounded_hour :
    let s := run step (newVerifyLimiters ⟨0, 0, 0⟩ 0) sampleGuesses
    s.nonMatchesReturned "billing" 0 3600 = 1 ∧ s.answersAdmitted "billing" 0 3600 = 1 ∧
      (s.nonMatchesReturned "billing" 0 3600 : ℚ) ≤ 500 + 500 * 3600 / 3600 ∧
      (s.answersAdmitted "billing" 0 3600 : ℚ) ≤ 10 + 60 * 3600 / 3600 := by
  obtain ⟨hleak, hanswers, -⟩ := verify_defaults_leak_bounded ⟨0, 0, 0⟩ 0 sampleGuesses "billing" 0
    3600 (by norm_num)
  exact ⟨by decide +kernel, by decide +kernel, hleak, hanswers⟩

end Sample

end Kms.Core
