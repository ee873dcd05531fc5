import Kms.Infra.Run
import Kms.Storage.SecretBinding

/-!
# purge と connection pool

`purgeSecretVersions` は、自分の connection を確保してから pool の上限を一つに縮め、他の connection が全て閉じるのを
待つ。transaction を commit した後、WAL を切り詰められなければ、connection を返す前に pool を閉じる。

* `Pool` — `database/sql` の pool。idle の connection は、上限を見ずに渡す
* `PurgeInv` — purge の各段での pool の形
* `purge_is_exclusive` — transaction と WAL の切り詰めの間、他の操作は connection を持たず、得られない
-/

namespace Kms.Storage

open Kms.Infra

/-! ## pool -/

/-- connection を求める者。purge は `purgeMu` で一つずつしか動かない。 -/
inductive Holder where
  | op (id : Nat)
  | purge
  deriving DecidableEq

structure Pool where
  maxOpen : Nat
  maxIdle : Nat
  idle : Nat
  inUse : List Holder
  waiting : List Holder
  closed : Bool

namespace Pool

def openConnections (p : Pool) : Nat := p.inUse.length + p.idle

/-- 待っている者に connection を渡せる。 -/
def canGrant (p : Pool) : Bool :=
  !p.closed && (decide (0 < p.idle) || decide (p.maxOpen = 0) ||
    decide (p.openConnections < p.maxOpen))

def request (p : Pool) (h : Holder) : Pool := { p with waiting := h :: p.waiting }

def grant (p : Pool) (h : Holder) : Pool :=
  if h ∈ p.waiting ∧ p.canGrant then
    { p with waiting := p.waiting.erase h, inUse := h :: p.inUse, idle := p.idle - 1 }
  else p

/-- 返された connection は、上限を超えているか idle が足りていれば閉じる。 -/
def release (p : Pool) (h : Holder) : Pool :=
  if h ∈ p.inUse then
    { p with
      inUse := p.inUse.erase h
      idle :=
        if p.closed = true ∨ (0 < p.maxOpen ∧ p.maxOpen < p.openConnections) ∨ p.maxIdle ≤ p.idle
        then p.idle else p.idle + 1 }
  else p

/-- `SetMaxIdleConns`。 -/
def setMaxIdle (p : Pool) (n : Nat) : Pool :=
  let n := if 0 < p.maxOpen ∧ p.maxOpen < n then p.maxOpen else n
  { p with maxIdle := n, idle := min p.idle n }

/-- `SetMaxOpenConns`。 -/
def setMaxOpen (p : Pool) (n : Nat) : Pool :=
  if 0 < n ∧ n < p.maxIdle then { p with maxOpen := n }.setMaxIdle n else { p with maxOpen := n }

def close (p : Pool) : Pool := { p with closed := true, idle := 0, waiting := [] }

end Pool

/-! ## purge -/

/-- purge の段。 -/
inductive PurgePhase where
  | requesting
  | pinning
  | pinned
  | idleZero
  | polling
  | exclusive
  | committed
  | retiring
  | retired
  | returning
  | restoring
  | restoringIdle
  deriving DecidableEq

structure Purge where
  rq : Request
  ref : Ref
  guard : SecretBindingCASGuard
  selector : PurgeSelector
  actor : String
  phase : PurgePhase
  committed : Bool

/-- store と pool。`walPending` は、commit した purge の前の行が WAL に残っていることを、`scrubFailed` は WAL を切り詰め
られなかったことを言う。 -/
structure PurgeSystem where
  store : Store
  pool : Pool
  poolMaxOpenConns : Nat
  poolMaxIdleConns : Nat
  active : Option Purge
  walPending : Bool
  scrubFailed : Bool

/-- 他の操作と purge の一歩。`cancelled` は文脈の取り消しを、`truncated` は WAL を切り詰められたことを言う。 -/
inductive PoolEvent where
  | request (id : Nat)
  | grant (h : Holder)
  | release (id : Nat)
  | work (id : Nat) (f : Store → Store)
  | close
  | lock (p : Purge)
  | purge (cancelled truncated : Bool)

namespace PurgeSystem

def moved (s : PurgeSystem) (p : Purge) (pool : Pool) (phase : PurgePhase) : PurgeSystem :=
  { s with pool, active := some { p with phase } }

/-- `purgeSecretVersions` の一歩。 -/
def purgeStep (s : PurgeSystem) (p : Purge) (cancelled truncated : Bool) : PurgeSystem :=
  match p.phase with
  | .requesting => s.moved p (s.pool.request .purge) .pinning
  | .pinning =>
    if .purge ∈ s.pool.inUse then
      -- 渡された後に取り消された connection は pool に返る
      if cancelled then s.moved p (s.pool.release .purge) .restoring else s.moved p s.pool .pinned
    else if cancelled || s.pool.closed then
      s.moved p { s.pool with waiting := s.pool.waiting.erase .purge } .restoring
    else s
  | .pinned => s.moved p (s.pool.setMaxIdle 0) .idleZero
  | .idleZero => s.moved p (s.pool.setMaxOpen 1) .polling
  | .polling =>
    if s.pool.openConnections = 1 ∧ s.pool.inUse.length = 1 then s.moved p s.pool .exclusive
    else if cancelled then s.moved p s.pool .returning
    else s
  | .exclusive =>
    match purgeSecretVersions p.rq s.store p.ref p.guard p.selector p.actor with
    | .error _ => s.moved p s.pool .returning
    | .ok (_, store) =>
      if cancelled then s.moved p s.pool .returning
      else { s with store, walPending := true }.moved { p with committed := true } s.pool .committed
  | .committed =>
    if truncated then { s with walPending := false }.moved p s.pool .returning
    else { s with scrubFailed := true }.moved p s.pool .retiring
  | .retiring => s.moved p s.pool.close .retired
  | .retired => { s with pool := s.pool.release .purge, active := none }
  | .returning => s.moved p (s.pool.release .purge) .restoring
  | .restoring => s.moved p (s.pool.setMaxOpen s.poolMaxOpenConns) .restoringIdle
  | .restoringIdle => { s with pool := s.pool.setMaxIdle s.poolMaxIdleConns, active := none }

def step (s : PurgeSystem) : PoolEvent → PurgeSystem
  | .request id => if s.pool.closed then s else { s with pool := s.pool.request (.op id) }
  | .grant h => { s with pool := s.pool.grant h }
  | .release id => { s with pool := s.pool.release (.op id) }
  | .work id f => if .op id ∈ s.pool.inUse then { s with store := f s.store } else s
  | .close => { s with pool := s.pool.close }
  | .lock p =>
    if s.active.isSome then s
    else { s with active := some { p with phase := .requesting, committed := false } }
  | .purge cancelled truncated =>
    match s.active with
    | some p => s.purgeStep p cancelled truncated
    | none => s

/-- `Open` が上限を設けた pool。 -/
def openStore (store : Store) (maxOpen maxIdle : Nat) : PurgeSystem where
  store := store
  pool := (Pool.setMaxOpen ⟨0, 2, 0, [], [], false⟩ maxOpen).setMaxIdle maxIdle
  poolMaxOpenConns := maxOpen
  poolMaxIdleConns := maxIdle
  active := none
  walPending := false
  scrubFailed := false

/-! ## 不変条件 -/

/-- `Open` の設けた上限。 -/
def Restored (s : PurgeSystem) : Prop :=
  s.pool.maxOpen = s.poolMaxOpenConns ∧ s.pool.maxIdle =
    if 0 < s.poolMaxOpenConns ∧ s.poolMaxOpenConns < s.poolMaxIdleConns then s.poolMaxOpenConns
    else s.poolMaxIdleConns

/-- idle を持たない pool。 -/
def NoIdle (s : PurgeSystem) : Prop := s.pool.maxIdle = 0 ∧ s.pool.idle = 0

/-- purge だけが connection を持つ、上限が一つの pool。 -/
def Sole (s : PurgeSystem) : Prop :=
  s.NoIdle ∧ s.pool.maxOpen = 1 ∧ s.pool.inUse = [.purge]

/-- purge の段と pool の形。 -/
def PhaseInv (s : PurgeSystem) : Option PurgePhase → Prop
  | none => s.Restored ∨ s.scrubFailed = true
  | some .requesting | some .pinning | some .pinned => s.Restored ∨ s.scrubFailed = true
  | some .idleZero => s.NoIdle
  | some .polling | some .returning => s.NoIdle ∧ s.pool.maxOpen = 1
  | some .exclusive | some .committed => s.Sole
  | some .retiring => s.Sole ∧ s.scrubFailed = true
  | some .retired => s.pool.closed = true ∧ s.scrubFailed = true
  | some .restoring => True
  | some .restoringIdle => s.pool.maxOpen = s.poolMaxOpenConns

/-- purge が connection を持つ段。 -/
def holding : PurgePhase → Bool
  | .pinned | .idleZero | .polling | .exclusive | .committed | .retiring | .retired
  | .returning => true
  | _ => false

structure PurgeInv (s : PurgeSystem) : Prop where
  phase : s.PhaseInv (s.active.map (·.phase))
  held : ∀ p, s.active = some p → holding p.phase = true → .purge ∈ s.pool.inUse
  pending : s.walPending = true →
    (∃ p, s.active = some p ∧ p.phase = .committed) ∨ s.scrubFailed = true
  retired : s.scrubFailed = true →
    (∃ p, s.active = some p ∧ p.phase = .retiring) ∨ s.pool.closed = true
  erased : ∀ p, s.active = some p →
    p.phase = .committed ∨ p.phase = .retiring ∨ p.phase = .retired → p.committed = true

/-- 一歩で `h` が connection を得た。 -/
def Obtains (s : PurgeSystem) (e : PoolEvent) (h : Holder) : Prop :=
  s.pool.inUse.count h < (s.step e).pool.inUse.count h

end PurgeSystem

/-! ## pool の補題 -/

namespace Pool

variable {p : Pool}

@[simp] theorem inUse_setMaxOpen (n : Nat) : (p.setMaxOpen n).inUse = p.inUse := by
  simp only [setMaxOpen]; split <;> rfl

@[simp] theorem closed_setMaxOpen (n : Nat) : (p.setMaxOpen n).closed = p.closed := by
  simp only [setMaxOpen]; split <;> rfl

@[simp] theorem maxOpen_setMaxOpen (n : Nat) : (p.setMaxOpen n).maxOpen = n := by
  simp only [setMaxOpen]; split <;> rfl

@[simp] theorem closed_release (h : Holder) : (p.release h).closed = p.closed := by
  simp only [release]; split <;> rfl

theorem count_release_le (h x : Holder) : (p.release h).inUse.count x ≤ p.inUse.count x := by
  simp only [release]
  split
  · exact List.Sublist.count_le x List.erase_sublist
  · exact le_rfl

theorem grant_of_not (h : p.canGrant = false) (x : Holder) : p.grant x = p := by
  simp [grant, h]

end Pool

namespace PurgeSystem

variable {s : PurgeSystem}

/-! ## 他の操作の一歩 -/

theorem Sole.canGrant (h : s.Sole) : s.pool.canGrant = false := by
  obtain ⟨⟨-, hidle⟩, hmax, huse⟩ := h
  simp [Pool.canGrant, Pool.openConnections, hidle, hmax, huse]

/-- purge でない操作が pool に及ぼすこと。 -/
structure Gentle (p p' : Pool) : Prop where
  maxOpen : p'.maxOpen = p.maxOpen
  maxIdle : p'.maxIdle = p.maxIdle
  idle : p.maxIdle = 0 → p.idle = 0 → p'.idle = 0
  held : .purge ∈ p.inUse → .purge ∈ p'.inUse
  closed : p.closed = true → p'.closed = true
  sole : p.canGrant = false → p.inUse = [.purge] → p'.inUse = [.purge]

theorem gentle_grant (p : Pool) (h : Holder) : Gentle p (p.grant h) := by
  cases hc : p.canGrant with
  | false =>
    rw [Pool.grant_of_not hc]
    exact ⟨rfl, rfl, fun _ hi => hi, id, id, fun _ hu => hu⟩
  | true =>
    simp only [Pool.grant, hc, and_true]
    split
    · exact ⟨rfl, rfl, fun _ hi => by simp [hi], List.mem_cons_of_mem _, id, by simp [hc]⟩
    · exact ⟨rfl, rfl, fun _ hi => hi, id, id, fun _ hu => hu⟩

theorem gentle_release (p : Pool) (id : Nat) : Gentle p (p.release (.op id)) := by
  simp only [Pool.release]
  split
  · rename_i hmem
    refine ⟨rfl, rfl, fun hm hi => by simp [hm, hi], fun h => ?_, fun h => h, fun _ hu => ?_⟩
    · exact (List.mem_erase_of_ne (by simp)).mpr h
    · simp [hu] at hmem
  · exact ⟨rfl, rfl, fun _ hi => hi, fun h => h, fun h => h, fun _ hu => hu⟩

theorem PurgeInv.gentle (h : s.PurgeInv) {pool : Pool} (hg : Gentle s.pool pool) (store : Store) :
    PurgeInv { s with pool, store } := by
  have hnoIdle : s.NoIdle → NoIdle { s with pool, store } :=
    fun hn => ⟨hg.maxIdle.trans hn.1, hg.idle hn.1 hn.2⟩
  have hsole : s.Sole → Sole { s with pool, store } :=
    fun hs => ⟨hnoIdle hs.1, hg.maxOpen.trans hs.2.1, hg.sole hs.canGrant hs.2.2⟩
  have hrestored : s.Restored ∨ s.scrubFailed = true →
      Restored { s with pool, store } ∨ s.scrubFailed = true :=
    Or.imp_left fun hr => ⟨hg.maxOpen.trans hr.1, hg.maxIdle.trans hr.2⟩
  refine ⟨?_, fun p hp hh => hg.held (h.held p hp hh), h.pending,
    fun hf => (h.retired hf).imp_right hg.closed, h.erased⟩
  have hphase := h.phase
  show PhaseInv _ (s.active.map (·.phase))
  generalize s.active.map (·.phase) = o at hphase ⊢
  -- 段ごとに、pool の形の条件を移す
  rcases o with - | _ | _ | _ | _ | _ | _ | _ | _ | _ | _ | _ | _
  · exact hrestored hphase
  · exact hrestored hphase
  · exact hrestored hphase
  · exact hrestored hphase
  · exact hnoIdle hphase
  · exact ⟨hnoIdle hphase.1, hg.maxOpen.trans hphase.2⟩
  · exact hsole hphase
  · exact hsole hphase
  · exact ⟨hsole hphase.1, hphase.2⟩
  · exact ⟨hg.closed hphase.1, hphase.2⟩
  · exact ⟨hnoIdle hphase.1, hg.maxOpen.trans hphase.2⟩
  · trivial
  · exact hg.maxOpen.trans hphase

/-! ## purge の一歩 -/

section

variable {p : Purge}

theorem PurgeInv.failed_of_pending (h : s.PurgeInv) (hp : s.active = some p)
    (hc : p.phase ≠ .committed) (hw : s.walPending = true) : s.scrubFailed = true := by
  refine (h.pending hw).resolve_left ?_
  rintro ⟨q, hq, hqc⟩
  exact hc (by rw [Option.some.inj (hp.symm.trans hq)]; exact hqc)

theorem PurgeInv.closed_of_failed (h : s.PurgeInv) (hp : s.active = some p)
    (hr : p.phase ≠ .retiring) (hf : s.scrubFailed = true) : s.pool.closed = true := by
  refine (h.retired hf).resolve_left ?_
  rintro ⟨q, hq, hqr⟩
  exact hr (by rw [Option.some.inj (hp.symm.trans hq)]; exact hqr)

/-- commit に関わらない段の移り。 -/
theorem PurgeInv.moved (h : s.PurgeInv) (hp : s.active = some p) (hc : p.phase ≠ .committed)
    (hr : p.phase ≠ .retiring) {pool : Pool} {phase : PurgePhase}
    (hclosed : pool.closed = s.pool.closed)
    (hphase : PhaseInv (s.moved p pool phase) (some phase))
    (hheld : holding phase = true → .purge ∈ pool.inUse)
    (herased : phase ≠ .committed ∧ phase ≠ .retiring ∧ phase ≠ .retired) :
    PurgeInv (s.moved p pool phase) := by
  refine ⟨hphase, ?_, fun hw => .inr (h.failed_of_pending hp hc hw),
    fun hf => .inr (hclosed.trans (h.closed_of_failed hp hr hf)), ?_⟩
  · rintro _ ⟨⟩ hh
    exact hheld hh
  · rintro _ ⟨⟩ he
    exact absurd he (by simp [herased])

theorem noIdle_setMaxIdle (q : Pool) :
    (q.setMaxIdle 0).maxIdle = 0 ∧ (q.setMaxIdle 0).idle = 0 := by
  simp [Pool.setMaxIdle]

theorem noIdle_setMaxOpen {q : Pool} (h : q.maxIdle = 0 ∧ q.idle = 0) (n : Nat) :
    (q.setMaxOpen n).maxIdle = 0 ∧ (q.setMaxOpen n).idle = 0 := by
  simp [Pool.setMaxOpen, h.1, h.2]

theorem purgeInv_purgeStep (h : s.PurgeInv) (hp : s.active = some p) (cancelled truncated : Bool) :
    (s.purgeStep p cancelled truncated).PurgeInv := by
  have hphase := h.phase
  have hheld := h.held p hp
  rw [hp, Option.map_some] at hphase
  cases hph : p.phase <;> rw [hph] at hphase hheld <;> simp only [purgeStep, hph]
  case requesting =>
    exact h.moved hp (by simp [hph]) (by simp [hph]) rfl hphase (by simp [holding]) (by simp)
  case pinning =>
    split
    · rename_i hmem
      split
      · exact h.moved hp (by simp [hph]) (by simp [hph]) (Pool.closed_release _) trivial
          (by simp [holding]) (by simp)
      · exact h.moved hp (by simp [hph]) (by simp [hph]) rfl hphase (fun _ => hmem) (by simp)
    · split
      · exact h.moved hp (by simp [hph]) (by simp [hph]) rfl trivial (by simp [holding]) (by simp)
      · exact h
  case pinned =>
    exact h.moved hp (by simp [hph]) (by simp [hph]) rfl (noIdle_setMaxIdle s.pool)
      (fun _ => hheld rfl) (by simp)
  case idleZero =>
    exact h.moved hp (by simp [hph]) (by simp [hph]) (Pool.closed_setMaxOpen 1)
      ⟨noIdle_setMaxOpen hphase 1, Pool.maxOpen_setMaxOpen 1⟩
      (fun _ => by rw [Pool.inUse_setMaxOpen]; exact hheld rfl) (by simp)
  case polling =>
    split
    · -- 開いている connection は一つで、それは purge のものである
      rename_i hone
      obtain ⟨x, hx⟩ := List.length_eq_one_iff.mp hone.2
      have hpurge : .purge = x := by simpa [hx] using hheld rfl
      refine h.moved hp (by simp [hph]) (by simp [hph]) rfl ⟨hphase.1, hphase.2, ?_⟩
        (fun _ => hheld rfl) (by simp)
      exact hpurge ▸ hx
    · split
      · exact h.moved hp (by simp [hph]) (by simp [hph]) rfl hphase (fun _ => hheld rfl) (by simp)
      · exact h
  case exclusive =>
    have hreturn : PurgeInv (s.moved p s.pool .returning) :=
      h.moved hp (by simp [hph]) (by simp [hph]) rfl ⟨hphase.1, hphase.2.1⟩ (fun _ => hheld rfl)
        (by simp)
    split
    · exact hreturn
    · split
      · exact hreturn
      · refine ⟨hphase, ?_, fun _ => .inl ⟨_, rfl, rfl⟩,
          fun hf => .inr (h.closed_of_failed hp (by simp [hph]) hf), ?_⟩
        · rintro _ ⟨⟩ -
          exact hheld rfl
        · rintro _ ⟨⟩ -
          rfl
  case committed =>
    have hdone : p.committed = true := h.erased p hp (.inl hph)
    split
    · refine ⟨⟨hphase.1, hphase.2.1⟩, ?_, fun hw => by simp [moved] at hw,
        fun hf => .inr (h.closed_of_failed hp (by simp [hph]) hf), ?_⟩
      · rintro _ ⟨⟩ -
        exact hheld rfl
      · rintro _ ⟨⟩ -
        exact hdone
    · refine ⟨⟨hphase, rfl⟩, ?_, fun _ => .inr rfl, fun _ => .inl ⟨_, rfl, rfl⟩, ?_⟩
      · rintro _ ⟨⟩ -
        exact hheld rfl
      · rintro _ ⟨⟩ -
        exact hdone
  case retiring =>
    have hdone : p.committed = true := h.erased p hp (.inr (.inl hph))
    refine ⟨⟨rfl, hphase.2⟩, ?_, fun _ => .inr hphase.2, fun _ => .inr rfl, ?_⟩
    · rintro _ ⟨⟩ -
      exact hheld rfl
    · rintro _ ⟨⟩ -
      exact hdone
  case retired =>
    exact ⟨.inr hphase.2, by simp, fun _ => .inr hphase.2,
      fun _ => .inr ((Pool.closed_release _).trans hphase.1), by simp⟩
  case returning =>
    exact h.moved hp (by simp [hph]) (by simp [hph]) (Pool.closed_release _) trivial
      (by simp [holding]) (by simp)
  case restoring =>
    exact h.moved hp (by simp [hph]) (by simp [hph]) (Pool.closed_setMaxOpen _)
      (Pool.maxOpen_setMaxOpen _) (by simp [holding]) (by simp)
  case restoringIdle =>
    refine ⟨.inl ⟨hphase, ?_⟩, by simp,
      fun hw => .inr (h.failed_of_pending hp (by simp [hph]) hw),
      fun hf => .inr (h.closed_of_failed hp (by simp [hph]) hf), by simp⟩
    show (if 0 < s.pool.maxOpen ∧ s.pool.maxOpen < s.poolMaxIdleConns then _ else _) = _
    rw [hphase]

/-- purge の一歩が及ぼすこと。commit するか、行を変えず、commit したことを忘れない。connection を得る者はいない。 -/
structure PurgeEffect (s s' : PurgeSystem) (p : Purge) : Prop where
  scrub : s.scrubFailed = true → s'.scrubFailed = true
  use : ∀ h, s'.pool.inUse.count h ≤ s.pool.inUse.count h
  rows : (s'.store = s.store ∧ ∀ p', s'.active = some p' → p'.committed = p.committed) ∨
    ∃ p', s'.active = some p' ∧ p'.committed = true

theorem purgeEffect_purgeStep (hp : s.active = some p) (cancelled truncated : Bool) :
    PurgeEffect s (s.purgeStep p cancelled truncated) p := by
  have hmoved : ∀ {pool phase}, (∀ h, pool.inUse.count h ≤ s.pool.inUse.count h) →
      PurgeEffect s (s.moved p pool phase) p :=
    fun hu => ⟨id, hu, .inl ⟨rfl, by rintro _ ⟨⟩; rfl⟩⟩
  have hsame : ∀ {phase}, PurgeEffect s (s.moved p s.pool phase) p :=
    hmoved fun _ => le_rfl
  have hstay : PurgeEffect s s p :=
    ⟨id, fun _ => le_rfl, .inl ⟨rfl, fun p' h => by rw [Option.some.inj (hp.symm.trans h)]⟩⟩
  cases hph : p.phase <;> simp only [purgeStep, hph]
  case requesting | pinned | retiring => exact hmoved fun _ => le_rfl
  case idleZero | restoring => exact hmoved fun _ => by rw [Pool.inUse_setMaxOpen]
  case returning => exact hmoved (Pool.count_release_le _)
  case pinning =>
    split
    · split
      · exact hmoved (Pool.count_release_le _)
      · exact hsame
    · split
      · exact hmoved fun _ => le_rfl
      · exact hstay
  case polling =>
    split
    · exact hsame
    · split
      · exact hsame
      · exact hstay
  case exclusive =>
    split
    · exact hsame
    · split
      · exact hsame
      · exact ⟨id, fun _ => le_rfl, .inr ⟨_, rfl, rfl⟩⟩
  case committed =>
    split
    · exact ⟨id, fun _ => le_rfl, .inl ⟨rfl, by rintro _ ⟨⟩; rfl⟩⟩
    · exact ⟨fun _ => rfl, fun _ => le_rfl, .inl ⟨rfl, by rintro _ ⟨⟩; rfl⟩⟩
  case retired => exact ⟨id, Pool.count_release_le _, .inl ⟨rfl, by simp⟩⟩
  case restoringIdle => exact ⟨id, fun _ => le_rfl, .inl ⟨rfl, by simp⟩⟩

theorem PurgeInv.restored_purgeStep (h : s.PurgeInv) (hp : s.active = some p)
    (hc : p.committed = false) (cancelled truncated : Bool)
    (hend : (s.purgeStep p cancelled truncated).active = none) :
    (s.purgeStep p cancelled truncated).Restored := by
  have hphase := h.phase
  rw [hp, Option.map_some] at hphase
  revert hend
  cases hph : p.phase <;> simp only [purgeStep, hph, PurgeSystem.moved, reduceCtorEq, false_implies]
  case pinning => split <;> split <;> simp [hp]
  case polling =>
    split
    · simp
    · split <;> simp [hp]
  case exclusive =>
    split
    · simp
    · split <;> simp
  case committed => split <;> simp
  case retired => exact absurd (h.erased p hp (.inr (.inr hph))) (by simp [hc])
  case restoringIdle =>
    intro _
    rw [hph] at hphase
    exact ⟨hphase, by rw [← show s.pool.maxOpen = s.poolMaxOpenConns from hphase]; rfl⟩

end

/-! ## run -/

theorem purgeInv_step (e : PoolEvent) (h : s.PurgeInv) : (s.step e).PurgeInv := by
  cases e with
  | request id =>
    simp only [step]
    split
    · exact h
    · have hg : Gentle s.pool (s.pool.request (.op id)) :=
        ⟨rfl, rfl, fun _ hi => hi, fun hu => hu, fun hc => hc, fun _ hu => hu⟩
      exact h.gentle hg s.store
  | grant x => exact h.gentle (gentle_grant s.pool x) s.store
  | release id => exact h.gentle (gentle_release s.pool id) s.store
  | work id f =>
    simp only [step]
    split
    · exact h.gentle ⟨rfl, rfl, fun _ hi => hi, fun hu => hu, fun hc => hc, fun _ hu => hu⟩ _
    · exact h
  | close =>
    have hg : Gentle s.pool s.pool.close :=
      ⟨rfl, rfl, fun _ _ => rfl, fun hu => hu, fun _ => rfl, fun _ hu => hu⟩
    exact h.gentle hg s.store
  | lock p =>
    simp only [step]
    split
    · exact h
    · rename_i hnone
      have hnone : s.active = none := by simpa using hnone
      have hphase := h.phase
      rw [hnone] at hphase
      refine ⟨hphase, by rintro _ ⟨⟩; simp [holding], fun hw => .inr ?_, fun hf => .inr ?_,
        by rintro _ ⟨⟩; simp⟩
      · simpa [hnone] using h.pending hw
      · simpa [hnone] using h.retired hf
  | purge cancelled truncated =>
    simp only [step]
    split
    · rename_i p hp
      exact purgeInv_purgeStep h hp cancelled truncated
    · exact h

theorem purgeInv_openStore (store : Store) (maxOpen maxIdle : Nat) :
    (openStore store maxOpen maxIdle).PurgeInv := by
  refine ⟨.inl ⟨Pool.maxOpen_setMaxOpen maxOpen, ?_⟩, by simp [openStore], by simp [openStore],
    by simp [openStore], by simp [openStore]⟩
  simp [openStore, Pool.setMaxIdle]

theorem purgeInv_run (h : s.PurgeInv) (events : List PoolEvent) : (run step s events).PurgeInv :=
  run_invariant (fun _ e hs => purgeInv_step e hs) h events

theorem Obtains.canGrant {e : PoolEvent} {h : Holder} (ho : s.Obtains e h) :
    s.pool.canGrant = true := by
  by_contra hno
  refine absurd ho (Nat.not_lt.mpr ?_)
  cases e with
  | grant x => simp [step, Pool.grant_of_not (by simpa using hno)]
  | release id => exact Pool.count_release_le _ _
  | purge cancelled truncated =>
    simp only [step]
    split
    · rename_i p hp
      exact (purgeEffect_purgeStep hp _ _).use h
    · exact le_rfl
  | close => exact le_rfl
  | request id | work id f | lock p => simp only [step]; split <;> exact le_rfl

theorem PurgeInv.canGrant_of_failed (h : s.PurgeInv) (hf : s.scrubFailed = true) :
    s.pool.canGrant = false := by
  obtain ⟨p, hp, hph⟩ | hclosed := h.retired hf
  · have hphase := h.phase
    rw [hp, Option.map_some, hph] at hphase
    exact hphase.1.canGrant
  · simp [Pool.canGrant, hclosed]

theorem PurgeInv.canGrant_of_pending (h : s.PurgeInv) (hw : s.walPending = true) :
    s.pool.canGrant = false := by
  obtain ⟨p, hp, hph⟩ | hf := h.pending hw
  · have hphase := h.phase
    rw [hp, Option.map_some, hph] at hphase
    exact Sole.canGrant hphase
  · exact h.canGrant_of_failed hf

theorem scrubFailed_step (hf : s.scrubFailed = true) (e : PoolEvent) :
    (s.step e).scrubFailed = true := by
  cases e with
  | purge cancelled truncated =>
    simp only [step]
    split
    · rename_i p hp
      exact (purgeEffect_purgeStep hp _ _).scrub hf
    · exact hf
  | grant x | release id | close => exact hf
  | request id | work id f | lock p => simp only [step]; split <;> exact hf

/-- 任意の操作の並びで、transaction と WAL の切り詰めの間、他の操作は connection を持たず、得られない。commit の後に
connection を得た操作があれば、WAL はもう切り詰められている。切り詰められなければ、以後どの操作も connection を得ない。
commit の前に失敗した purge は、pool の上限を元に戻し、行を変えない。 -/
theorem purge_is_exclusive (store : Store) (maxOpen maxIdle : Nat) (events : List PoolEvent) :
    let s := run step (openStore store maxOpen maxIdle) events
    (∀ p, s.active = some p →
      p.phase = .exclusive ∨ p.phase = .committed ∨ p.phase = .retiring →
        s.pool.inUse = [.purge] ∧ ∀ e h, ¬ s.Obtains e h) ∧
    (∀ e h, s.Obtains e h → s.walPending = false) ∧
    (s.scrubFailed = true → ∀ more e h, ¬ (run step s more).Obtains e h) ∧
    ∀ p c t, s.active = some p →
      (p.committed = true → ∀ p', (s.step (.purge c t)).active = some p' →
        p'.committed = true) ∧
      (p.committed = false →
        ((s.step (.purge c t)).store = s.store ∨
          ∃ p', (s.step (.purge c t)).active = some p' ∧ p'.committed = true) ∧
        ((s.step (.purge c t)).active = none → (s.step (.purge c t)).Restored)) := by
  intro s
  have hinv : s.PurgeInv := purgeInv_run (purgeInv_openStore store maxOpen maxIdle) events
  have hno : ∀ {s : PurgeSystem} e h, s.pool.canGrant = false → ¬ s.Obtains e h :=
    fun e h hc ho => absurd ho.canGrant (by simp [hc])
  refine ⟨?_, ?_, ?_, ?_⟩
  · intro p hp hph
    have hphase := hinv.phase
    rw [hp, Option.map_some] at hphase
    have hsole : s.Sole := by
      obtain hph | hph | hph := hph <;> rw [hph] at hphase
      · exact hphase
      · exact hphase
      · exact hphase.1
    exact ⟨hsole.2.2, fun e h => hno e h hsole.canGrant⟩
  · intro e h ho
    by_contra hw
    exact hno e h (hinv.canGrant_of_pending (by simpa using hw)) ho
  · intro hf more e h
    have hmore : (run step s more).PurgeInv := purgeInv_run hinv more
    have hlost : (run step s more).scrubFailed = true :=
      run_invariant (I := fun s : PurgeSystem => s.scrubFailed = true)
        (fun _ e hs => scrubFailed_step hs e) hf more
    exact hno e h (hmore.canGrant_of_failed hlost)
  · intro p c t hp
    have hstep : s.step (.purge c t) = s.purgeStep p c t := by simp only [step, hp]
    rw [hstep]
    have hstore := (purgeEffect_purgeStep hp c t).rows
    refine ⟨fun hc p' hp' => ?_, fun hc => ⟨hstore.imp_left (·.1), ?_⟩⟩
    · obtain ⟨-, hkeep⟩ | ⟨q, hq, hcommitted⟩ := hstore
      · rw [hkeep p' hp', hc]
      · rw [← Option.some.inj (hq.symm.trans hp')]
        exact hcommitted
    · exact hinv.restored_purgeStep hp hc c t

-- 操作 1 が connection を返すまで purge は待ち、操作 2 は待たされたままになる
example (store : Store) (p : Purge) :
    let s := run step (openStore store 0 2) [.request 1, .grant (.op 1), .lock p,
      .purge false false, .grant .purge, .purge false false, .purge false false, .purge false false,
      .purge false false, .request 2, .grant (.op 2), .release 1, .grant (.op 2),
      .purge false false]
    s.active.map (·.phase) = some .exclusive ∧ s.pool.inUse = [.purge] ∧
      s.pool.waiting = [.op 2] := by
  simp [run, step, openStore, purgeStep, moved, Pool.request, Pool.grant, Pool.canGrant,
    Pool.setMaxIdle, Pool.setMaxOpen, Pool.release, Pool.openConnections]

end PurgeSystem

end Kms.Storage
