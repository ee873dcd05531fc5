import Kms.Infra.Interleave
import Kms.Infra.Text
import Kms.Storage.Composite

/-!
# core の要求

`internal/core` の操作は、store への読み出しと transaction を一つずつ行う。その間に他の client の
transaction が commit しうるので、操作を `Flow` として書く。

* `Ctx` — 要求の文脈。最初に認可した namespace の行を結び付け、消して作り直された namespace を拒む
* `Env P` — 他の client の transaction と時計の進み。`P` は起こりうる transaction を限る
* `authorize` — 認可。拒否は監査に残る
-/

namespace Kms.Core

open Kms.Infra Kms.Storage

/-! ## 名前の検査 -/

def isLabelRune (c : Char) : Bool := ('a' ≤ c && c ≤ 'z') || ('0' ≤ c && c ≤ '9') || c = '-'

def isKeyRune (c : Char) : Bool := isLabelRune c || c = '.' || c = '_'

/-- 許されない最初の文字があれば error。 -/
def requireRunes (allowed : Char → Bool) (s : List Char) (e : Char → String) :
    Except String Unit :=
  match s.find? (fun c => !allowed c) with
  | some c => .error (e c)
  | none => .ok ()

def validateLabel (s : String) : Except String Unit := do
  require (s ≠ "") "must not be empty"
  require (s.utf8ByteSize ≤ 64) "exceeds 64 characters"
  require (s.toList.head? ≠ some '-' ∧ s.toList.getLast? ≠ some '-')
    "must not start or end with '-'"
  requireRunes isLabelRune s.toList (fun c => s!"contains invalid character '{c}'")

def validateNamespace (ns : NamespaceRef) : Except Err Unit := do
  (validateLabel ns.env).mapError (fun m => .invalidArgument (s!"env \"{ns.env}\": " ++ m))
  (validateLabel ns.app).mapError (fun m => .invalidArgument (s!"app \"{ns.app}\": " ++ m))

def validateKeySegment (s : List Char) : Except String Unit := do
  require (s ≠ []) "empty segment"
  require (s ≠ ['.'] ∧ s ≠ ['.', '.']) s!"segment \"{String.ofList s}\" is not allowed"
  requireRunes isKeyRune s
    (fun c => s!"segment \"{String.ofList s}\" contains invalid character '{c}'")

def validateKey (key : String) : Except String Unit := do
  require (key ≠ "") "key must not be empty"
  require (key.utf8ByteSize ≤ 256) s!"key \"{key}\" exceeds 256 characters"
  require (key.toList.head? ≠ some '/' ∧ key.toList.getLast? ≠ some '/')
    s!"key \"{key}\" must not have a leading or trailing slash"
  (key.toList.splitOn '/').forM (fun seg =>
    (validateKeySegment seg).mapError (fun m => s!"key \"{key}\": " ++ m))

def validateReleaseAddress (ns : NamespaceRef) (name : String) : Except Err Unit := do
  validateNamespace ns
  (validateKey name).mapError (fun m => .invalidArgument ("invalid release name: " ++ m))

variable {u : Unit}

theorem of_requireRunes {allowed : Char → Bool} {s : List Char} {e : Char → String}
    (h : requireRunes allowed s e = .ok u) : ∀ c ∈ s, allowed c = true := by
  intro c hc
  unfold requireRunes at h
  split at h
  · cases h
  · next hnone =>
    have := List.find?_eq_none.mp hnone c hc
    simpa using this

theorem isLabelRune_of_validateLabel {s : String} (h : validateLabel s = .ok u) :
    ∀ c ∈ s.toList, isLabelRune c = true := by
  simp only [validateLabel, bind_eq_ok_iff] at h
  obtain ⟨_, _, _, _, _, _, hrunes⟩ := h
  exact of_requireRunes hrunes

theorem isKeyRune_of_validateKey {key : String} (h : validateKey key = .ok u) :
    ∀ c ∈ key.toList, c = '/' ∨ isKeyRune c = true := by
  simp only [validateKey, bind_eq_ok_iff, forM_eq_ok_iff, mapError_eq_ok_iff] at h
  obtain ⟨_, _, _, _, _, _, hsegs⟩ := h
  intro c hc
  have hsplit : c = '/' ∨ ∃ seg ∈ key.toList.splitOn '/', c ∈ seg := mem_splitOn hc
  rcases hsplit with rfl | ⟨seg, hseg, hmem⟩
  · exact .inl rfl
  · refine .inr ?_
    have hv := hsegs seg hseg
    simp only [validateKeySegment, bind_eq_ok_iff] at hv
    obtain ⟨_, _, _, _, hrunes⟩ := hv
    exact of_requireRunes hrunes c hmem

/-! ## 共有状態と文脈 -/

/-- database と時計。 -/
structure Shared where
  store : Store
  now : Time

structure Ctx where
  incarnation : NamespaceRef → Option Nat
  auditTrack : Option ReleaseTrack

def Ctx.empty : Ctx := ⟨fun _ => none, none⟩

def Ctx.request (ctx : Ctx) (now : Time) : Request := ⟨now, ctx.incarnation⟩

def Ctx.withReleaseAuditTrack (ctx : Ctx) (track : ReleaseTrack) : Ctx :=
  { ctx with auditTrack := some track }

/-- `BindNamespaceIncarnation`。別の行への結び直しは Aborted。 -/
def Ctx.bindNamespaceIncarnation (ctx : Ctx) (ns : NamespaceRef) (id : Nat) : Except Err Ctx :=
  if id = 0 then .error (.aborted s!"namespace {ns} changed during request; retry")
  else
    match ctx.incarnation ns with
    | some current =>
      if current = id then .ok ctx
      else .error (.aborted s!"namespace {ns} changed during request; retry")
    | none =>
      .ok { ctx with incarnation := fun n => if n = ns then some id else ctx.incarnation n }

/-! ## store への access -/

def readStore {α : Type} (ctx : Ctx) (g : Request → Store → Except Err α) : Flow Shared Err α :=
  .query (fun w => g (ctx.request w.now) w.store)

/-- store の transaction。失敗は rollback である。 -/
def writeStore {α : Type} (ctx : Ctx) (f : Request → Store → Except Err (α × Store)) :
    Flow Shared Err α :=
  .transaction (fun w =>
    match f (ctx.request w.now) w.store with
    | .ok (a, s) => (.ok a, { w with store := s })
    | .error e => (.error e, w))

def audit (event : Time → AuditEvent) : Prog Shared Unit :=
  .atomically (fun w => ((), { w with
    store := { w.store with auditEvents := w.store.auditEvents ++ [event w.now] } }))

section Env

variable [Hashing] [SnapshotHashing]

/-- 他の client の transaction と時計の進み。 -/
def Env (P : Transaction → Prop) (a b : Shared) : Prop :=
  a.now ≤ b.now ∧ RunsTo transact P a.store b.store

variable {P : Transaction → Prop}

theorem Env.refl (w : Shared) : Env P w w := ⟨le_rfl, .refl _⟩

theorem Env.trans {a b c : Shared} (h : Env P a b) (h' : Env P b c) : Env P a c :=
  ⟨h.1.trans h'.1, h.2.trans h'.2⟩

end Env

section Access

variable {R : Shared → Shared → Prop} {s s' : Shared} {tr : List (Shared × Shared)} {α : Type}

variable {ctx : Ctx} {f : Request → Store → Except Err (α × Store)}

theorem runs_readStore_iff {g : Request → Store → Except Err α} {r : Except Err α} :
    Runs R (readStore ctx g).run s tr r s' ↔
      R s s' ∧ tr = [(s', s')] ∧ r = g (ctx.request s'.now) s'.store :=
  flow_query_iff

theorem runs_writeStore_ok {a : α} (h : Runs R (writeStore ctx f).run s tr (.ok a) s') :
    ∃ t, R s t ∧ f (ctx.request t.now) t.store = .ok (a, s'.store) ∧ s'.now = t.now ∧
      tr = [(t, s')] := by
  obtain ⟨t, henv, hf, rfl⟩ := flow_transaction_iff.mp h
  refine ⟨t, henv, ?_⟩
  split at hf
  · next b st heq =>
    cases hf
    exact ⟨heq, rfl, rfl⟩
  · cases hf

theorem runs_writeStore_error {e : Err} (h : Runs R (writeStore ctx f).run s tr (.error e) s') :
    R s s' ∧ f (ctx.request s'.now) s'.store = .error e ∧ tr = [(s', s')] := by
  obtain ⟨t, henv, hf, rfl⟩ := flow_transaction_iff.mp h
  split at hf
  · cases hf
  · next heq =>
    cases hf
    exact ⟨henv, heq, rfl⟩

theorem within_readStore {P : Shared → Shared → Prop} (hrefl : ∀ w, P w w) (ctx : Ctx)
    (g : Request → Store → Except Err α) : Within P (readStore ctx g).run :=
  Within.read hrefl _

theorem within_writeStore {P : Shared → Shared → Prop} (hrefl : ∀ w, P w w)
    (hf : ∀ w a st, f (ctx.request w.now) w.store = .ok (a, st) → P w { w with store := st }) :
    Within P (writeStore ctx f).run := by
  refine Within.atomically (fun w => ?_)
  split
  · next a st heq => exact hf w a st heq
  · exact hrefl w

end Access

/-! ## 監査 -/

/-- 呼び出し側。 -/
structure Principal where
  name : String
  admin : Bool
  method : String
  deriving DecidableEq

/-- `scopedReleaseAuditMetadata`。release の監査だけが文脈の系列を引き継ぐ。 -/
def scopedReleaseAuditMetadata (ctx : Ctx) (resourceType : String) (ref : Ref)
    (metadata : List (String × String)) : List (String × String) :=
  match ctx.auditTrack with
  | some track =>
    if resourceType = "configuration_release" ∧ track.ns = ref.ns ∧
        (ref.key = "" ∨ track.name = ref.key) then
      setMetadata metadata "schema_version" (toString track.schemaVersion)
    else metadata
  | none => metadata

def auditRefWithNamespaceID (ctx : Ctx) (pr : Principal) (eventType resourceType : String)
    (ref : Ref) (namespaceID version : Nat) (decision : String)
    (metadata : List (String × String)) : Prog Shared Unit :=
  audit (fun now =>
    { eventType, actorIdentity := pr.name, resourceType, resourceNamespaceID := namespaceID, ref
      resourceVersion := version, decision
      metadata := scopedReleaseAuditMetadata ctx resourceType ref metadata, createdAt := now })

/-! ## 認可 -/

/-- 認証方式の制限と policy の判定。store の外の表を読むので、時点ごとの判定を引数に取る。 -/
class Authorization where
  methodAllowed : Shared → Principal → NamespaceRef → Bool
  requiredMethods : Shared → NamespaceRef → String
  policyAllows : Shared → Principal → (operation : String) → NamespaceRef → Bool

def getNamespace (rq : Request) (s : Store) (ns : NamespaceRef) : Except Err NamespaceModel := do
  let _ ← resolveNamespaceID rq s ns
  orThrow (s.namespaces.get ns) (.notFound s!"namespace {ns}")

/-- 認証方式で拒んだ監査の key。release の要求なら、文脈の系列の名前を載せる。 -/
def deniedKey (ctx : Ctx) (ns : NamespaceRef) (resourceType : String) : String :=
  match ctx.auditTrack with
  | some track =>
    if resourceType = "configuration_release" ∧ track.ns = ns then track.name else ""
  | none => ""

section Authorize

variable [Authorization]

/-- `namespaceMethodCheck`。admin は認証方式の制限を受けない。 -/
def namespaceMethodCheck (ctx : Ctx) (pr : Principal) (ns : NamespaceRef) (resourceType : String) :
    Flow Shared Err NamespaceModel := do
  let (n, allowed, required) ← Flow.query (fun w => do
    let n ← getNamespace (ctx.request w.now) w.store ns
    pure (n, Authorization.methodAllowed w pr ns, Authorization.requiredMethods w ns))
  if pr.admin || allowed then pure n
  else do
    Flow.lift (auditRefWithNamespaceID ctx pr "authz.method_denied" resourceType
      ⟨ns, deniedKey ctx ns resourceType⟩ n.id 0 "deny"
      [("method", pr.method), ("required", required)])
    throw (.permissionDenied s!"namespace {ns} requires {required}")

/-- `namespaceAuthorizationContext`。無い namespace は、admin にだけ後の操作に任せる。 -/
def namespaceAuthorizationContext (ctx : Ctx) (pr : Principal) (ns : NamespaceRef)
    (resourceType : String) : Flow Shared Err (Ctx × Option NamespaceModel) := do
  let checked ← (namespaceMethodCheck ctx pr ns resourceType).attempt
  match checked with
  | .error e => if pr.admin && e.is .notFound then pure (ctx, none) else throw e
  | .ok n => do
    let bound ← Flow.check (ctx.bindNamespaceIncarnation ns n.id)
    pure (bound, some n)

def authorize (ctx : Ctx) (pr : Principal) (operation resourceType : String) (ref : Ref) :
    Flow Shared Err (Ctx × Option NamespaceModel) := do
  let (bound, n) ← namespaceAuthorizationContext ctx pr ref.ns resourceType
  if pr.admin then pure (bound, n)
  else do
    let allowed ← Flow.lift (Prog.read
      (fun w => Authorization.policyAllows w pr operation ref.ns))
    if allowed then pure (bound, n)
    else do
      Flow.lift (auditRefWithNamespaceID bound pr "authz.denial" resourceType ref
        ((n.map (·.id)).getD 0) 0 "deny" [("operation", operation)])
      throw (.permissionDenied "access denied")

/-! ### 認可の枠 -/

variable {P : Shared → Shared → Prop}

/-- 監査の追記だけを許す関係。 -/
def AllowsAudit (P : Shared → Shared → Prop) : Prop :=
  ∀ (w : Shared) (events : List AuditEvent), P w { w with
    store := { w.store with auditEvents := w.store.auditEvents ++ events } }

omit [Authorization] in
theorem AllowsAudit.refl (hP : AllowsAudit P) (w : Shared) : P w w := by
  have h := hP w []
  rwa [List.append_nil] at h

omit [Authorization] in
theorem within_audit (hP : AllowsAudit P) (event : Time → AuditEvent) :
    Within P (audit event) :=
  Within.atomically (fun w => hP w [event w.now])

omit [Authorization] in
theorem within_throw {α : Type} (e : Err) : Within P (throw e : Flow Shared Err α).run :=
  Within.pure _

omit [Authorization] in
theorem within_check {α : Type} (r : Except Err α) :
    Within P (Flow.check r : Flow Shared Err α).run :=
  Within.pure _

theorem within_namespaceMethodCheck (hP : AllowsAudit P) (ctx : Ctx) (pr : Principal)
    (ns : NamespaceRef) (resourceType : String) :
    Within P (namespaceMethodCheck ctx pr ns resourceType).run := by
  refine Within.flow_bind (Within.read hP.refl _) (fun ⟨n, allowed, required⟩ => ?_)
  dsimp only
  split
  · exact Within.pure _
  · exact Within.flow_bind (Within.flow_lift (within_audit hP _)) (fun _ => within_throw _)

theorem within_authorize (hP : AllowsAudit P) (ctx : Ctx) (pr : Principal)
    (operation resourceType : String) (ref : Ref) :
    Within P (authorize ctx pr operation resourceType ref).run := by
  refine Within.flow_bind (Within.flow_bind
    (Within.flow_lift (within_namespaceMethodCheck hP ctx pr ref.ns resourceType))
    (fun checked => ?_)) (fun ⟨bound, n⟩ => ?_)
  · cases checked with
    | error e =>
      dsimp only
      split
      · exact Within.pure _
      · exact within_throw _
    | ok n => exact Within.flow_bind (within_check _) (fun _ => Within.pure _)
  · dsimp only
    split
    · exact Within.pure _
    · refine Within.flow_bind (Within.flow_lift (Within.read hP.refl _)) (fun allowed => ?_)
      split
      · exact Within.pure _
      · exact Within.flow_bind (Within.flow_lift (within_audit hP _)) (fun _ => within_throw _)

end Authorize

section EnvAudit

variable [Hashing] [SnapshotHashing]

theorem Env.allowsAudit {P : Transaction → Prop}
    (hP : ∀ rq event, P (.call ⟨rq, .admin (.appendAudit event)⟩)) : AllowsAudit (Env P) := by
  intro w events
  refine ⟨le_rfl, ?_⟩
  induction events generalizing w with
  | nil =>
    rw [List.append_nil]
    exact .refl _
  | cons event events ih =>
    have hrest := ih { w with
      store := { w.store with auditEvents := w.store.auditEvents ++ [event] } }
    simp only [List.append_assoc, List.singleton_append] at hrest
    exact (RunsTo.single (hP ⟨w.now, fun _ => none⟩ event) rfl).trans hrest

end EnvAudit

end Kms.Core
