import Kms.Client.ManagerInv
import Kms.Client.TsManager

/-!
# TypeScript の watch manager の不変条件

値を書くとその場で知らせるので、登録されている handle は、いつでも manager の知っている値を持つ。

* `TsManager.setValue_cases` — `setValue` の結果
* `TsInv` / `tsInv_step`
* `TsInv.unchanged_of_caughtUp` — 追い付いた後の path は、`lastRevision` より後に書かれていない
-/

namespace Kms.Client

open Kms.Infra

namespace TsManager

variable {m : TsManager}

/-! ## 値を書く操作 -/

variable {p : Ref} {v : Option String} {revision bound : Nat} {reconcile : Bool}

theorem known?_of_upsert {m' : TsManager} {k : KnownValue}
    (h : m'.known = m.known.upsert (p, k)) (q : Ref) :
    m'.known? q = if p = q then some k else m.known? q := by
  unfold known?
  rw [h, Table.get_upsert]
  split <;> rfl

theorem known?_deleteKnown (m : TsManager) (drop : Ref → Bool) (q : Ref) :
    (m.deleteKnown drop).known? q = if drop q then none else m.known? q := by
  unfold known? deleteKnown
  rw [Table.get_deleteWhere]
  cases hg : m.known.get q with
  | none => simp
  | some row =>
    have hq := Table.key_of_get hg
    rw [Option.filter_some, hq]
    cases drop q <;> rfl

theorem changed_iff (previous : Option KnownValue) (v : Option String) :
    changed previous v = true ↔ previous.bind KnownValue.current ≠ v := by
  cases previous with
  | none => cases v <;> simp [changed]
  | some k =>
    cases hp : k.present <;> cases v <;> simp [changed, KnownValue.current, hp]

theorem current_nextKnown (previous : Option KnownValue) (v : Option String) (revision : Nat) :
    (nextKnown previous v revision).current = v := by
  cases v <;> rfl

theorem revision_nextKnown_le {previous : Option KnownValue}
    (hp : ∀ k, previous = some k → k.revision ≤ bound)
    (hr : revision ≤ bound) : (nextKnown previous v revision).revision ≤ bound := by
  cases previous with
  | none => exact hr
  | some k =>
    show (if revision < k.revision then k.revision else revision) ≤ bound
    split
    · exact hp k rfl
    · exact hr

theorem le_revision_nextKnown (previous : Option KnownValue) (v : Option String) (revision : Nat) :
    revision ≤ (nextKnown previous v revision).revision := by
  cases previous with
  | none => exact le_rfl
  | some k =>
    show revision ≤ if revision < k.revision then k.revision else revision
    split <;> omega

theorem hasHandlers_iff :
    m.hasHandlers p = true ↔ ∃ h ∈ m.handles, h.active = true ∧ h.ref = p := by
  simp [hasHandlers]

theorem known?_store (m : TsManager) (p : Ref) (k : KnownValue) (q : Ref) :
    (m.store p k).known? q =
      if p = q then (if k.present = false ∧ m.hasHandlers p = false then none else some k)
      else m.known? q := by
  unfold store
  split
  · next hdrop =>
    have hdrop : k.present = false ∧ m.hasHandlers p = false := by simpa using hdrop
    rw [known?_deleteKnown]
    by_cases hpq : p = q
    · simp [hpq, hdrop.1, hpq ▸ hdrop.2]
    · rw [if_neg hpq, if_neg (by simpa using Ne.symm hpq)]
  · next hkeep =>
    have hkeep : ¬ (k.present = false ∧ m.hasHandlers p = false) := by simpa using hkeep
    rw [known?_of_upsert rfl, if_neg hkeep]

/-- この path の handle だけが知らされる。 -/
def notified (m : TsManager) (p : Ref) (v : Option String) : List TsHandle :=
  if m.knownValue p ≠ v then (m.notify p v).handles else m.handles

theorem setValue_cases (m : TsManager) (p : Ref) (v : Option String) (revision : Nat)
    (reconcile : Bool) :
    (m.setValue p v revision reconcile = m ∧
      ((reconcile = true ∧ revision < m.lastRevision) ∨
        ∃ k, m.known? p = some k ∧ revAllowsWrite k.revision revision reconcile = false)) ∨
    (((reconcile = true → m.lastRevision ≤ revision) ∧
        ∀ k, m.known? p = some k → revAllowsWrite k.revision revision reconcile = true) ∧
      m.setValue p v revision reconcile =
        { m.store p (nextKnown (m.known? p) v revision) with handles := m.notified p v }) := by
  unfold setValue notified knownValue
  by_cases hfence : (reconcile && decide (revision < m.lastRevision)) = true
  · refine .inl ⟨if_pos hfence, .inl ?_⟩
    simpa using hfence
  · have hopen : reconcile = true → m.lastRevision ≤ revision := by simpa using hfence
    simp only [hfence]
    by_cases hrej : (m.known? p).any (fun k => !revAllowsWrite k.revision revision reconcile) = true
    · refine .inl ⟨?_, .inr ?_⟩
      · simp [hrej]
      · obtain ⟨k, hk, hr⟩ := (Option.any_eq_true _ _).mp hrej
        exact ⟨k, hk, by simpa using hr⟩
    · refine .inr ⟨⟨hopen, fun k hk => ?_⟩, ?_⟩
      · rw [hk] at hrej
        simpa using hrej
      · simp only [hrej, Bool.false_eq_true, if_false]
        by_cases hch : changed (m.known? p) v = true
        · rw [if_pos hch, if_pos ((changed_iff _ _).mp hch)]
          unfold store notify deleteKnown
          split <;> rfl
        · rw [if_neg hch, if_neg (fun hne => hch ((changed_iff _ _).mpr hne))]
          unfold store deleteKnown
          split <;> rfl

theorem setValue_eq (m : TsManager) (p : Ref) (v : Option String) (revision : Nat)
    (reconcile : Bool) :
    ∃ known handles, m.setValue p v revision reconcile =
      { m with known := known, handles := handles } := by
  rcases m.setValue_cases p v revision reconcile with ⟨heq, -⟩ | ⟨-, heq⟩
  · exact ⟨m.known, m.handles, heq⟩
  · rw [heq]
    unfold store deleteKnown
    split <;> exact ⟨_, _, rfl⟩

theorem setValues_induction {I : TsManager → Prop} {items : List (Ref × Option String)}
    {reconcile : Bool}
    (hstep : ∀ m, I m → ∀ rv ∈ items, I (m.setValue rv.1 rv.2 revision reconcile)) (h : I m) :
    I (m.setValues items revision reconcile) := by
  unfold setValues
  induction items generalizing m with
  | nil => exact h
  | cons rv rest ih =>
    exact ih (fun m hm rv' hrv => hstep m hm rv' (List.mem_cons_of_mem _ hrv))
      (hstep m h rv List.mem_cons_self)

theorem setValues_eq (m : TsManager) (items : List (Ref × Option String)) (revision : Nat)
    (reconcile : Bool) :
    ∃ known handles, m.setValues items revision reconcile =
      { m with known := known, handles := handles } := by
  refine setValues_induction (I := fun m' => ∃ known handles,
    m' = { m with known := known, handles := handles }) ?_ ⟨m.known, m.handles, rfl⟩
  rintro m' ⟨known, handles, rfl⟩ rv -
  obtain ⟨known', handles', heq⟩ := setValue_eq { m with known := known, handles := handles }
    rv.1 rv.2 revision reconcile
  exact ⟨known', handles', heq⟩

theorem revision_le_setValue (h : ∀ q k, m.known? q = some k → k.revision ≤ bound)
    (hr : revision ≤ bound) {q : Ref} {k : KnownValue}
    (hk : (m.setValue p v revision reconcile).known? q = some k) : k.revision ≤ bound := by
  rcases m.setValue_cases p v revision reconcile with ⟨heq, -⟩ | ⟨-, heq⟩
  · rw [heq] at hk
    exact h q k hk
  · rw [heq] at hk
    have hk' : (m.store p (nextKnown (m.known? p) v revision)).known? q = some k := hk
    rw [known?_store] at hk'
    split at hk'
    · split at hk'
      · cases hk'
      · cases hk'
        exact revision_nextKnown_le (fun k hk => h p k hk) hr
    · exact h q k hk'

theorem revision_le_setValues {items : List (Ref × Option String)}
    (h : ∀ q k, m.known? q = some k → k.revision ≤ bound)
    (hr : revision ≤ bound) :
    ∀ q k, (m.setValues items revision reconcile).known? q = some k → k.revision ≤ bound :=
  setValues_induction (I := fun m' => ∀ q k, m'.known? q = some k → k.revision ≤ bound)
    (fun _ hm _ _ _ _ hk => revision_le_setValue hm hr hk) h

/-! ## handle の値 -/

/-- 登録されている handle は、manager の知っている値を持つ。 -/
def Held (m : TsManager) : Prop :=
  ∀ h ∈ m.handles, h.active = true → (m.known? h.ref).map KnownValue.current = some h.held

theorem Held.knownValue (h : m.Held) {x : TsHandle} (hx : x ∈ m.handles) (ha : x.active = true) :
    m.knownValue x.ref = x.held := by
  obtain ⟨k, hk, hcur⟩ := Option.map_eq_some_iff.mp (h x hx ha)
  unfold TsManager.knownValue
  rw [hk]
  exact hcur

theorem mem_notified {x : TsHandle} (hx : x ∈ m.notified p v) : ∃ y ∈ m.handles,
    x = if y.active = true ∧ y.ref = p ∧ m.knownValue p ≠ v then y.receive v else y := by
  unfold notified at hx
  split at hx
  · next hne =>
    obtain ⟨y, hy, rfl⟩ := List.mem_map.mp hx
    exact ⟨y, hy, by simp only [Bool.and_eq_true, decide_eq_true_eq, hne, ne_eq, not_false_eq_true,
      and_true]⟩
  · next heq => exact ⟨x, hx, (if_neg (fun h => heq h.2.2)).symm⟩

theorem Held.setValue (h : m.Held) (p : Ref) (v : Option String) (revision : Nat)
    (reconcile : Bool) : (m.setValue p v revision reconcile).Held := by
  rcases m.setValue_cases p v revision reconcile with ⟨heq, -⟩ | ⟨-, heq⟩
  · rw [heq]
    exact h
  · rw [heq]
    intro x hx ha
    obtain ⟨y, hy, rfl⟩ := mem_notified hx
    show ((m.store p (nextKnown (m.known? p) v revision)).known? _).map KnownValue.current = some _
    rw [known?_store]
    by_cases hc : y.active = true ∧ y.ref = p ∧ m.knownValue p ≠ v
    · have hhas : m.hasHandlers p = true := hasHandlers_iff.mpr ⟨y, hy, hc.1, hc.2.1⟩
      rw [if_pos hc, if_pos (show p = (y.receive v).ref from hc.2.1.symm), if_neg (by simp [hhas])]
      exact congrArg some (current_nextKnown ..)
    · rw [if_neg hc] at ha ⊢
      by_cases hp : p = y.ref
      · have hhas : m.hasHandlers p = true := hasHandlers_iff.mpr ⟨y, hy, ha, hp.symm⟩
        have hv : m.knownValue p = v := by
          by_contra hne
          exact hc ⟨ha, hp.symm, hne⟩
        rw [if_pos hp, if_neg (by simp [hhas])]
        show some (nextKnown (m.known? p) v revision).current = _
        rw [current_nextKnown, ← hv, hp]
        exact congrArg some (h.knownValue hy ha)
      · rw [if_neg hp]
        exact h y hy ha

theorem Held.setValues (h : m.Held) (items : List (Ref × Option String)) (revision : Nat)
    (reconcile : Bool) : (m.setValues items revision reconcile).Held :=
  setValues_induction (I := Held) (fun _ hm rv _ => hm.setValue rv.1 rv.2 revision reconcile) h

/-! ## 参照の数 -/

/-- この namespace を参照している handle と watcher の数。 -/
def owners (m : TsManager) (ns : NamespaceRef) : Nat :=
  m.handles.countP (fun h => h.active && decide (h.ref.ns = ns)) +
    m.watchers.countP (fun w => w.2 && decide (w.1 = ns))

theorem countP_notified (p : Ref) (v : Option String) (ns : NamespaceRef) :
    (m.notified p v).countP (fun h => h.active && decide (h.ref.ns = ns)) =
      m.handles.countP (fun h => h.active && decide (h.ref.ns = ns)) := by
  unfold notified
  split
  · show (m.handles.map _).countP _ = _
    rw [List.countP_map]
    refine List.countP_congr (fun h _ => ?_)
    simp only [Function.comp_apply]
    split <;> exact Iff.rfl
  · rfl

theorem owners_setValues (m : TsManager) (items : List (Ref × Option String)) (revision : Nat)
    (reconcile : Bool) (ns : NamespaceRef) :
    (m.setValues items revision reconcile).owners ns = m.owners ns := by
  refine setValues_induction (I := fun m' => m'.owners ns = m.owners ns) ?_ rfl
  intro m' hm rv _
  rw [← hm]
  rcases m'.setValue_cases rv.1 rv.2 revision reconcile with ⟨heq, -⟩ | ⟨-, heq⟩
  · rw [heq]
  · rw [heq]
    unfold owners
    rw [countP_notified]
    congr 1
    show (m'.store _ _).watchers.countP _ = _
    unfold store deleteKnown
    split <;> rfl

end TsManager

/-! ## 不変条件 -/

/-- session の stream が満たすこと。 -/
def SessionInv (log : List Entry) (lastRevision : Nat) (scope : List NamespaceRef)
    (session : Option TsSession) : Prop :=
  ∀ s, session = some s → StreamInv log lastRevision .idle s.stream ∧ s.stream.scope = scope

structure TsInv (m : TsManager) : Prop where
  lastRev_le : m.lastRevision ≤ m.log.length
  known_rev : ∀ p k, m.known? p = some k → k.revision ≤ m.lastRevision
  session : SessionInv m.log m.lastRevision m.streamNamespaces m.session
  pass : ∀ g pass, m.pass = .running g pass →
    pass.snapRev ≤ m.lastRevision ∧ g ≤ m.namespaceGeneration
  held : m.Held
  retains : ∀ ns, m.retained.count ns = m.owners ns

namespace TsInv

variable {m : TsManager}

theorem empty : TsInv TsManager.empty where
  lastRev_le := Nat.le_refl 0
  known_rev := fun _ _ h => by cases h
  session := fun _ h => by cases h
  pass := fun _ _ h => by cases h
  held := fun _ h => absurd h List.not_mem_nil
  retains := fun _ => rfl

theorem mem_retained (h : TsInv m) {x : TsHandle} (hx : x ∈ m.handles) (ha : x.active = true) :
    x.ref.ns ∈ m.retained := by
  rw [← List.count_pos_iff, h.retains]
  refine Nat.lt_of_lt_of_le ?_ (Nat.le_add_right ..)
  exact List.countP_pos_iff.mpr ⟨x, hx, by simp [ha]⟩

end TsInv

/-- `m` に、revision が `bound` を越えない値を幾つか書くと `m'` になる。 -/
structure Written (bound : Nat) (m m' : TsManager) : Prop where
  eq : ∃ known handles, m' = { m with known := known, handles := handles }
  known_rev : ∀ p k, m'.known? p = some k → k.revision ≤ bound
  held : m'.Held
  owners : ∀ ns, m'.owners ns = m.owners ns

namespace Written

variable {bound : Nat} {m m' : TsManager}

theorem refl (hrev : ∀ p k, m.known? p = some k → k.revision ≤ bound) (hheld : m.Held) :
    Written bound m m where
  eq := ⟨m.known, m.handles, rfl⟩
  known_rev := hrev
  held := hheld
  owners := fun _ => rfl

variable {revision : Nat}

theorem setValues (h : Written bound m m') (items : List (Ref × Option String))
    (hr : revision ≤ bound) (reconcile : Bool) :
    Written bound m (m'.setValues items revision reconcile) where
  eq := by
    obtain ⟨known, handles, rfl⟩ := h.eq
    obtain ⟨known', handles', heq⟩ :=
      TsManager.setValues_eq { m with known := known, handles := handles } items revision reconcile
    exact ⟨known', handles', heq⟩
  known_rev := TsManager.revision_le_setValues h.known_rev hr
  held := h.held.setValues items revision reconcile
  owners := fun ns => (m'.owners_setValues items revision reconcile ns).trans (h.owners ns)

theorem inv (h : TsInv m) (hw : Written m.lastRevision m m') : TsInv m' := by
  obtain ⟨⟨known, handles, rfl⟩, hrev, hheld, howners⟩ := hw
  exact
    { h with
      known_rev := hrev
      held := hheld
      retains := fun ns => (h.retains ns).trans (howners ns).symm }

end Written

/-! ## 一歩 -/

theorem TsManager.advanceRevision_eq (m : TsManager) (revision : Nat) :
    m.advanceRevision revision = { m with lastRevision := max m.lastRevision revision } := by
  have hmax : (if m.lastRevision < revision then revision else m.lastRevision) =
      max m.lastRevision revision := by
    split <;> omega
  rw [TsManager.advanceRevision, hmax]

/-- 届いた message が書く値。 -/
def TsManager.messageItems (m : TsManager) (revision : Nat) : Message → List (Ref × Option String)
  | .snapshot items =>
    items.map (fun kv => (kv.1, some kv.2)) ++
      ((m.setValues (items.map (fun kv => (kv.1, some kv.2))) revision false).absentKnown
        (items.map Prod.fst)).map (fun r => (r, none))
  | .change r v => if m.shouldApply revision then [(r, v)] else []
  | .secretChange _ | .heartbeat => []

/-- message が運ぶ値なので、書く値はその revision の値である。 -/
theorem TsManager.handle_writes (m : TsManager) (s : TsSession) (revision : Nat) (msg : Message) :
    ∃ generation, m.handle s revision msg =
        { m.setValues (m.messageItems revision msg) revision false with
          snapshotGeneration := generation }.advanceRevision revision ∧
      (Carries m.log m.lastRevision m.streamNamespaces revision msg →
        ∀ rv ∈ m.messageItems revision msg,
          m.lastRevision ≤ revision ∧ valueAt m.log revision rv.1 = rv.2) := by
  cases msg with
  | snapshot items =>
    have heq : m.applySnapshot items revision =
        m.setValues (m.messageItems revision (.snapshot items)) revision false := by
      simp only [applySnapshot, messageItems, setValues, List.foldl_append]
    refine ⟨_, congrArg (fun n : TsManager => ({ n with
      snapshotGeneration := if s.full then max n.snapshotGeneration s.generation
        else n.snapshotGeneration } : TsManager).advanceRevision revision) heq,
      fun hc rv hrv => ⟨hc.1, ?_⟩⟩
    rcases List.mem_append.mp hrv with hrv | hrv
    · obtain ⟨kv, hkv, rfl⟩ := List.mem_map.mp hrv
      exact hc.2.1 kv.1 kv.2 hkv
    · obtain ⟨q, hq, rfl⟩ := List.mem_map.mp hrv
      obtain ⟨row, hrow, rfl⟩ := List.mem_map.mp hq
      have hcond := (List.mem_filter.mp hrow).2
      obtain ⟨known, handles, heq⟩ :=
        m.setValues_eq (items.map (fun kv => (kv.1, some kv.2))) revision false
      simp only [Bool.and_eq_true, decide_eq_true_eq, heq] at hcond
      exact hc.2.2 row.1 hcond.2 hcond.1.2
  | change r v =>
    by_cases happly : m.shouldApply revision = true
    · simp only [messageItems, happly, if_true]
      refine ⟨(m.setValue r v revision false).snapshotGeneration, ?_, fun hc rv hrv => ?_⟩
      · simp only [handle, happly, if_true]
        rfl
      · cases List.mem_singleton.mp hrv
        have happly : revision = 0 ∨ m.lastRevision < revision := by
          simpa [shouldApply] using happly
        have hpos := hc.1
        exact ⟨by omega, hc.2⟩
    · simp only [messageItems, happly]
      refine ⟨m.snapshotGeneration, ?_, fun _ _ hrv => absurd hrv List.not_mem_nil⟩
      simp only [handle, happly]
      rfl
  | secretChange r | heartbeat =>
    exact ⟨m.snapshotGeneration, rfl, fun _ _ hrv => absurd hrv List.not_mem_nil⟩

/-- これから知らせる値の revision の下限。 -/
def TsManager.floor (m : TsManager) : Nat :=
  feedFloor m.log m.lastRevision .idle (m.session.map TsSession.stream)

theorem TsInv.firstRev_le {m : TsManager} (h : TsInv m) :
    firstRev m.log (m.session.map TsSession.stream) ≤ m.log.length := by
  have hstream : ∀ st, m.session.map TsSession.stream = some st →
      StreamInv m.log m.lastRevision .idle st := by
    intro st hst
    obtain ⟨s, hs, rfl⟩ := Option.map_eq_some_iff.mp hst
    exact (h.session s hs).1
  exact Client.firstRev_le hstream

/-- 一歩がすること。`booked` は登録の前の読み出しだけを、`connected` は session だけを替える。 -/
inductive TsEffect (m : TsManager) : TsEvent → TsManager → Prop
  | booked {ev : TsEvent} (reads : Nat → Option (Ref × String)) : TsEffect m ev { m with reads }
  | committed (e : Entry) : TsEffect m (.commit e) { m with log := m.log ++ [e] }
  | registered {i : Nat} {p : Ref} {initial : String} (hr : m.reads i = some (p, initial)) :
      TsEffect m (.register i) ((m.registerParameter p initial).setRead i none)
  | watched (ns : NamespaceRef) : TsEffect m (.watch ns) (m.watch ns)
  -- 捨てる項の path には、登録されている handle が無い
  | handleReleased {i : Nat} {x : TsHandle} {known : Table (Prod.fst : Ref × KnownValue → Ref)}
      (hx : m.handles[i]? = some x) (ha : x.active = true)
      (hknown : ∀ q, ({ m with known := known } : TsManager).known? q = m.known? q ∨
        (({ m with known := known } : TsManager).known? q = none ∧
          ∀ y ∈ m.handles.set i { x with active := false }, y.active = true → y.ref ≠ q)) :
      TsEffect m (.releaseHandle i)
        ({ m with known, handles := m.handles.set i { x with active := false } }.releaseNamespace
          x.ref.ns)
  | watcherReleased {i : Nat} {ns : NamespaceRef} (hw : m.watchers[i]? = some (ns, true)) :
      TsEffect m (.releaseWatcher i)
        ({ m with watchers := m.watchers.set i (ns, false) }.releaseNamespace ns)
  | connected {ev : TsEvent} {session : Option TsSession} {streamNamespaces : List NamespaceRef}
      (hs : SessionInv m.log m.lastRevision streamNamespaces session)
      (hfloor : m.floor ≤ TsManager.floor { m with session }) :
      TsEffect m ev { m with session, streamNamespaces }
  -- 届いた message は、その revision の値を書いて `lastRevision` を進める
  | handled {ev : TsEvent} {session : Option TsSession} {items : List (Ref × Option String)}
      {revision : Nat} (generation : Nat) (hle : revision ≤ m.log.length)
      (hvalue : ∀ rv ∈ items, m.lastRevision ≤ revision ∧ valueAt m.log revision rv.1 = rv.2)
      (hfirst : firstRev m.log (m.session.map TsSession.stream) ≤ revision)
      (hs : SessionInv m.log (max m.lastRevision revision) m.streamNamespaces session) :
      TsEffect m ev ({ TsManager.setValues { m with session } items revision false with
        snapshotGeneration := generation }.advanceRevision revision)
  | begun : TsEffect m .beginPass
      { m with
        pass := .running m.namespaceGeneration (Pass.start m.lastRevision m.namespaces
          ((m.known.rows.filter (fun row => row.2.present)).map Prod.fst)) }
  | passed (ok : Bool) : TsEffect m (.pass ok) (m.passStep ok)

namespace TsEffect

variable {m : TsManager}

theorem same (ev : TsEvent) : TsEffect m ev m := .booked m.reads

theorem receive (h : TsInv m) {ev : TsEvent} {s : TsSession} (hs : m.session = some s)
    {next : Stream × Option (Message × Nat)} (hnext : next.1.scope = s.stream.scope)
    (hnone : next.2 = none → StreamInv m.log m.lastRevision .idle next.1)
    (hsome : ∀ msg rev, next.2 = some (msg, rev) → rev ≤ m.log.length ∧
      Carries m.log m.lastRevision s.stream.scope rev msg ∧
        ∀ q a, StreamInv m.log m.lastRevision (.applying rev q a) next.1)
    (hfirst : firstRev m.log (some s.stream) ≤ arrival m.log next) :
    TsEffect m ev (m.receive s next) := by
  have hscope := (h.session s hs).2
  unfold arrival at hfirst
  unfold TsManager.receive
  split
  · next hn =>
    rw [hn] at hfirst
    refine .connected (fun s' heq => ?_) (feedFloor_mono (fun _ => ?_))
    · cases heq
      exact ⟨hnone hn, hnext.trans hscope⟩
    · rw [hs]
      exact hfirst
  · next msg rev hn =>
    split
    · exact .connected (fun _ hs => by cases hs) (feedFloor_mono (fun _ => h.firstRev_le))
    · next hgen =>
      obtain ⟨hle, hcarries, hstream⟩ := hsome msg rev hn
      obtain ⟨generation, heq, hvalue⟩ := TsManager.handle_writes
        { m with session := some { s with stream := next.1 } } s rev msg
      rw [heq]
      refine .handled generation hle (hvalue (hscope ▸ hcarries)) ?_ (fun s' heq => ?_)
      · rw [hn] at hfirst
        rw [hs]
        exact hfirst
      · cases heq
        exact ⟨(hstream [] none).advance, hnext.trans hscope⟩

theorem releaseHandle (i : Nat) : TsEffect m (.releaseHandle i) (m.releaseHandle i) := by
  simp only [TsManager.releaseHandle]
  split
  · next x hx =>
    split
    · next ha =>
      split
      · next hdrop =>
        refine .handleReleased hx ha (fun q => ?_)
        have hq := m.known?_deleteKnown (fun r => decide (r = x.ref)) q
        split at hq
        · next heq =>
          refine .inr ⟨hq, fun y hy hya href => ?_⟩
          have hhas : TsManager.hasHandlers
              { m with handles := m.handles.set i { x with active := false } } x.ref = true :=
            TsManager.hasHandlers_iff.mpr ⟨y, hy, hya, href.trans (of_decide_eq_true heq)⟩
          simp [hhas] at hdrop
        · exact .inl hq
      · exact .handleReleased hx ha (fun q => .inl rfl)
    · exact .same _
  · exact .same _

end TsEffect

theorem tsStep_effect {m m' : TsManager} {ev : TsEvent} (h : TsInv m) (hs : tsStep m ev = m') :
    TsEffect m ev m' := by
  subst hs
  cases ev with
  | commit e => exact .committed e
  | fetch i p fallback => exact .booked _
  | register i =>
    simp only [tsStep, TsManager.register]
    split
    · next hr => exact .registered hr
    · exact .same _
  | releaseHandle i => exact .releaseHandle i
  | watch ns => exact .watched ns
  | releaseWatcher i =>
    simp only [tsStep, TsManager.releaseWatcher]
    split
    · next hw => exact .watcherReleased hw
    · exact .same _
  | subscribe =>
    simp only [tsStep, TsManager.subscribe]
    split
    · refine .connected (fun s hs => ?_) (feedFloor_mono (fun _ => h.firstRev_le))
      cases hs
      refine ⟨StreamInv.requested ?_, rfl⟩
      split
      · exact Nat.zero_le _
      · exact le_rfl
    · exact .same _
  | answer full =>
    refine .connected (fun s' hs' => ?_) (feedFloor_mono (fun hz => ?_))
    · obtain ⟨s, hs, rfl⟩ := Option.map_eq_some_iff.mp hs'
      obtain ⟨hstream, hscope⟩ := h.session s hs
      exact ⟨hstream.answer h.lastRev_le full, (s.stream.scope_answer ..).trans hscope⟩
    · cases hs : m.session with
      | none => exact le_rfl
      | some s => exact firstRev_answer (hz ▸ (h.session s hs).1) full
  | receive =>
    simp only [tsStep]
    split
    · next s hs =>
      have hstream := (h.session s hs).1
      exact .receive h hs (Stream.scope_next ..) hstream.next_none
        (fun _ _ => hstream.next_some) (firstRev_le_next _)
    · exact .same _
  | heartbeat =>
    simp only [tsStep]
    split
    · next s hs =>
      have hstream := (h.session s hs).1
      exact .receive h hs rfl (fun _ => hstream) (fun _ _ => hstream.heartbeat)
        (firstRev_le_heartbeat _)
    · exact .same _
  | disconnect =>
    exact .connected (fun _ hs => by cases hs) (feedFloor_mono (fun _ => h.firstRev_le))
  | beginPass =>
    simp only [tsStep, TsManager.beginPass]
    split
    · exact .same _
    · exact .begun
  | pass ok => exact .passed ok

namespace TsInv

variable {m : TsManager}

theorem commit (h : TsInv m) (e : Entry) : TsInv { m with log := m.log ++ [e] } :=
  { h with
    lastRev_le := h.lastRev_le.trans (by simp)
    session := fun s hs => (h.session s hs).imp (·.commit e) id }

theorem handled (h : TsInv m) {session : Option TsSession} {items : List (Ref × Option String)}
    {revision generation : Nat} (hr : revision ≤ m.log.length)
    (hs : SessionInv m.log (max m.lastRevision revision) m.streamNamespaces session) :
    TsInv ({ TsManager.setValues { m with session } items revision false with
      snapshotGeneration := generation }.advanceRevision revision) := by
  have hbound : ∀ p k, m.known? p = some k → k.revision ≤ max m.lastRevision revision :=
    fun p k hk => Nat.le_trans (h.known_rev p k hk) (Nat.le_max_left ..)
  obtain ⟨⟨known, handles, heq⟩, hrev, hheld, howners⟩ := (Written.refl
    (m := { m with session := session }) hbound h.held).setValues items (Nat.le_max_right ..) false
  rw [heq] at hrev hheld howners
  rw [heq, TsManager.advanceRevision_eq]
  exact
    { h with
      lastRev_le := Nat.max_le.mpr ⟨h.lastRev_le, hr⟩
      known_rev := hrev
      session := hs
      pass := fun g pass hp =>
        (h.pass g pass hp).imp (fun hp => hp.trans (Nat.le_max_left ..)) id
      held := hheld
      retains := fun ns => (h.retains ns).trans (howners ns).symm }

/-! ### 登録 -/

theorem retain (h : TsInv m) (ns : NamespaceRef) {handles : List TsHandle}
    {watchers : List (NamespaceRef × Bool)} {known : Table (Prod.fst : Ref × KnownValue → Ref)}
    (hknown : ∀ p k, ({ m with known := known } : TsManager).known? p = some k →
      k.revision ≤ m.lastRevision)
    (hheld : ({ m with known := known, handles := handles } : TsManager).Held)
    (howners : ∀ ns', ({ m with handles := handles, watchers := watchers } : TsManager).owners ns' =
      m.owners ns' + if ns = ns' then 1 else 0) :
    TsInv ({ m with known := known, handles := handles, watchers := watchers }.retain ns) :=
  { h with
    known_rev := hknown
    pass := fun g pass hp => (h.pass g pass hp).imp id (fun hg => by
      refine hg.trans ?_
      show m.namespaceGeneration ≤
        if ns ∈ m.retained then m.namespaceGeneration else m.namespaceGeneration + 1
      split <;> omega)
    held := hheld
    retains := fun ns' => by
      show (m.retained ++ [ns]).count ns' = _
      rw [List.count_append, h.retains, List.count_singleton]
      refine Eq.trans ?_ (howners ns').symm
      congr 1
      by_cases heq : ns = ns' <;> simp [heq] }

theorem registerParameter (h : TsInv m) (p : Ref) (initial : String) :
    TsInv (m.registerParameter p initial) := by
  have howners : ∀ held ns', ({ m with handles := m.handles ++ [⟨p, held, held, [], true⟩] } :
      TsManager).owners ns' = m.owners ns' + if p.ns = ns' then 1 else 0 := by
    intro held ns'
    unfold TsManager.owners
    rw [List.countP_append, List.countP_singleton]
    simp only [Bool.true_and, decide_eq_true_eq]
    omega
  unfold TsManager.registerParameter TsManager.seed
  cases hk : m.known? p with
  | none =>
    -- 知らない path なので、登録されている handle は無い
    have hno : ∀ x ∈ m.handles, x.active = true → p ≠ x.ref := by
      rintro x hx ha rfl
      have := h.held x hx ha
      rw [hk] at this
      cases this
    refine h.retain p.ns (fun q k hq => ?_) (fun x hx ha => ?_) (howners _)
    · rw [TsManager.known?_of_upsert rfl] at hq
      split at hq
      · cases hq
        exact Nat.zero_le _
      · exact h.known_rev q k hq
    · rw [TsManager.known?_of_upsert (m := m) rfl]
      rcases List.mem_append.mp hx with hx | hx
      · rw [if_neg (hno x hx ha)]
        exact h.held x hx ha
      · rw [List.mem_singleton.mp hx, if_pos rfl]
        rfl
  | some k =>
    refine h.retain p.ns h.known_rev (fun x hx ha => ?_) (howners _)
    rcases List.mem_append.mp hx with hx | hx
    · exact h.held x hx ha
    · rw [List.mem_singleton.mp hx]
      show (m.known? p).map KnownValue.current = _
      rw [hk]
      rfl

theorem countP_set_add {α : Type} {P : α → Bool} {l : List α} {i : Nat} {x y : α}
    (hx : l[i]? = some x) (hy : P y = false) :
    (l.set i y).countP P + (if P x then 1 else 0) = l.countP P := by
  obtain ⟨hlt, rfl⟩ := List.getElem?_eq_some_iff.mp hx
  have hpos : P l[i] = true → 0 < l.countP P :=
    fun hp => List.countP_pos_iff.mpr ⟨_, List.getElem_mem hlt, hp⟩
  simp only [List.countP_set hlt, hy]
  split <;> simp_all

theorem releaseNamespace (h : TsInv m) (ns : NamespaceRef) {handles : List TsHandle}
    {watchers : List (NamespaceRef × Bool)} {known : Table (Prod.fst : Ref × KnownValue → Ref)}
    (hknown : ∀ p k, ({ m with known := known } : TsManager).known? p = some k →
      k.revision ≤ m.lastRevision)
    (hheld : ({ m with known := known, handles := handles } : TsManager).Held)
    (howners : ∀ ns', ({ m with handles := handles, watchers := watchers } : TsManager).owners ns' +
      (if ns = ns' then 1 else 0) = m.owners ns') :
    TsInv ({ m with known := known, handles := handles, watchers := watchers }.releaseNamespace
      ns) := by
  have hcount : ∀ ns', (m.retained.erase ns).count ns' =
      ({ m with handles := handles, watchers := watchers } : TsManager).owners ns' := by
    intro ns'
    rw [List.count_erase, h.retains, ← howners ns']
    by_cases heq : ns = ns' <;> simp [heq]
  simp only [TsManager.releaseNamespace]
  split
  · exact { h with known_rev := hknown, held := hheld, retains := hcount }
  · next hlast =>
    refine
      { h with
        known_rev := fun p k hk => ?_
        pass := fun g pass hp => (h.pass g pass hp).imp id (fun hg => Nat.le_succ_of_le hg)
        held := fun x hx ha => ?_
        retains := hcount }
    · have hk' : (TsManager.deleteKnown ({ m with known := known } : TsManager)
          (fun r => decide (r.ns = ns))).known? p = some k := hk
      rw [TsManager.known?_deleteKnown] at hk'
      split at hk'
      · cases hk'
      · exact hknown p k hk'
    · have hne : x.ref.ns ≠ ns := by
        rintro rfl
        refine hlast (List.count_pos_iff.mp ?_)
        show 0 < (m.retained.erase x.ref.ns).count x.ref.ns
        rw [hcount]
        refine Nat.lt_of_lt_of_le ?_ (Nat.le_add_right ..)
        exact List.countP_pos_iff.mpr ⟨x, hx, by simp [ha]⟩
      show ((TsManager.deleteKnown ({ m with known := known } : TsManager)
        (fun r => decide (r.ns = ns))).known? x.ref).map _ = _
      rw [TsManager.known?_deleteKnown, if_neg (by simpa using hne)]
      exact hheld x hx ha

theorem releaseHandle (h : TsInv m) {i : Nat} {x : TsHandle}
    {known : Table (Prod.fst : Ref × KnownValue → Ref)} (hx : m.handles[i]? = some x)
    (ha : x.active = true)
    (hknown : ∀ q, ({ m with known := known } : TsManager).known? q = m.known? q ∨
      (({ m with known := known } : TsManager).known? q = none ∧
        ∀ y ∈ m.handles.set i { x with active := false }, y.active = true → y.ref ≠ q)) :
    TsInv ({ m with known, handles := m.handles.set i { x with active := false } }.releaseNamespace
      x.ref.ns) := by
  refine h.releaseNamespace x.ref.ns (fun p k hk => ?_) (fun y hy hya => ?_) (fun ns' => ?_)
  · rcases hknown p with heq | ⟨hnone, -⟩
    · exact h.known_rev p k (heq ▸ hk)
    · rw [hnone] at hk
      cases hk
  · have hold : y ∈ m.handles := by
      rcases List.mem_or_eq_of_mem_set hy with hy | rfl
      · exact hy
      · cases hya
    rcases hknown y.ref with heq | ⟨-, hno⟩
    · exact (congrArg (Option.map KnownValue.current) heq).trans (h.held y hold hya)
    · exact absurd rfl (hno y hy hya)
  · have hcount := countP_set_add (P := fun h : TsHandle => h.active && decide (h.ref.ns = ns'))
      hx (y := { x with active := false }) rfl
    simp only [ha, Bool.true_and, decide_eq_true_eq] at hcount
    simp only [TsManager.owners]
    omega

theorem watch (h : TsInv m) (ns : NamespaceRef) : TsInv (m.watch ns) := by
  refine h.retain ns h.known_rev h.held (fun ns' => ?_)
  unfold TsManager.owners
  rw [List.countP_append, List.countP_singleton]
  simp only [Bool.true_and, decide_eq_true_eq]
  omega

theorem releaseWatcher (h : TsInv m) {i : Nat} {ns : NamespaceRef}
    (hw : m.watchers[i]? = some (ns, true)) :
    TsInv ({ m with watchers := m.watchers.set i (ns, false) }.releaseNamespace ns) := by
  refine h.releaseNamespace ns h.known_rev h.held (fun ns' => ?_)
  have hcount := countP_set_add (P := fun w : NamespaceRef × Bool => w.2 && decide (w.1 = ns'))
    hw (y := (ns, false)) rfl
  simp only [Bool.true_and, decide_eq_true_eq] at hcount
  simp only [TsManager.owners]
  omega

/-! ### reconcile -/

theorem setPass (h : TsInv m) {state : TsPassState}
    (hp : ∀ g pass, state = .running g pass →
      pass.snapRev ≤ m.lastRevision ∧ g ≤ m.namespaceGeneration) :
    TsInv { m with pass := state } :=
  { h with pass := hp }

theorem setValues (h : TsInv m) (items : List (Ref × Option String)) {revision : Nat}
    (hr : revision ≤ m.lastRevision) (reconcile : Bool) :
    TsInv (m.setValues items revision reconcile) :=
  Written.inv h ((Written.refl h.known_rev h.held).setValues items hr reconcile)

theorem passStep (h : TsInv m) (ok : Bool) : TsInv (m.passStep ok) := by
  unfold TsManager.passStep
  split
  · next generation pass hp =>
    obtain ⟨hrev, hgen⟩ := h.pass generation pass hp
    split
    · split
      · unfold TsManager.finishPass
        split
        · exact (h.setValues _ hrev true).setPass (fun _ _ heq => by cases heq)
        · exact h.setPass (fun _ _ heq => by cases heq)
      · refine h.setPass (fun g pass' heq => ?_)
        cases heq
        rw [(Pass.captured_advance ..).1]
        exact ⟨hrev, hgen⟩
    · split
      · obtain ⟨known, handles, heq⟩ := m.setValues_eq pass.queue pass.snapRev true
        refine (h.setValues pass.queue hrev true).setPass (fun g pass' hp' => ?_)
        cases hp'
        rw [heq]
        exact ⟨hrev, hgen⟩
      · refine h.setPass (fun g pass' heq => ?_)
        cases heq
        exact ⟨hrev, hgen⟩
  · exact h

end TsInv

theorem tsInv_step {m : TsManager} (h : TsInv m) (ev : TsEvent) : TsInv (tsStep m ev) := by
  generalize hstep : tsStep m ev = m'
  cases tsStep_effect h hstep with
  | booked reads => exact { h with }
  | committed e => exact h.commit e
  | registered hr => exact { h.registerParameter .. with }
  | watched ns => exact h.watch ns
  | handleReleased hx ha hknown => exact h.releaseHandle hx ha hknown
  | watcherReleased hw => exact h.releaseWatcher hw
  | connected hs => exact { h with session := hs }
  | handled generation hle _ _ hs => exact h.handled hle hs
  | begun =>
    refine h.setPass (fun g pass hp => ?_)
    cases hp
    exact ⟨le_rfl, le_rfl⟩
  | passed ok => exact h.passStep ok

/-! ## 追い付いた状態 -/

/-- 開いた stream が今の namespace の集まりのもので、全ての行を送り終えている。 -/
def TsManager.caughtUp (m : TsManager) : Bool :=
  m.session.any (fun s => decide (s.stream.phase = .live m.log.length) &&
    m.namespaces.all (fun ns => decide (ns ∈ s.stream.scope)))

theorem TsInv.unchanged_of_caughtUp {m : TsManager} (h : TsInv m) (hc : m.caughtUp = true) {p : Ref}
    (hp : p.ns ∈ m.namespaces) : Unchanged m.log m.lastRevision p := by
  simp only [TsManager.caughtUp, Option.any_eq_true, Bool.and_eq_true, decide_eq_true_eq,
    List.all_eq_true] at hc
  obtain ⟨s, hs, hphase, hall⟩ := hc
  exact (h.session s hs).1.unchanged hphase (hall _ hp)

/-- **購読するのは、handle か watcher のある namespace のちょうど全てで、同じ path の handle は同じ値を持つ。** -/
theorem ts_subscription_owned (evs : List TsEvent) :
    let m := run tsStep TsManager.empty evs
    (∀ ns, ns ∈ m.namespaces ↔
      (∃ h ∈ m.handles, h.active = true ∧ h.ref.ns = ns) ∨ (ns, true) ∈ m.watchers) ∧
    ∀ h ∈ m.handles, ∀ h' ∈ m.handles, h.active = true → h'.active = true → h.ref = h'.ref →
      h.held = h'.held := by
  intro m
  have hm : TsInv m := run_invariant (I := TsInv) (fun _ ev h => tsInv_step h ev) .empty evs
  refine ⟨fun ns => ?_, fun h hh h' hh' ha ha' href => ?_⟩
  · rw [TsManager.namespaces, List.mem_dedup, ← List.count_pos_iff, hm.retains]
    simp [TsManager.owners, List.countP_pos_iff]
  · rw [← hm.held.knownValue hh ha, href, hm.held.knownValue hh' ha']

end Kms.Client
