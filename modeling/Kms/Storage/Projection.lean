import Mathlib.Data.String.Basic
import Kms.Infra.Paging
import Kms.Storage.DeliveryRetention
import Kms.Storage.TrackHistory

/-!
# session の一覧

`ListReleaseAcknowledgements` は、session の行に current label を LEFT JOIN し、あるべき version と
revision を SQL の CASE で計算する。`ReadReleaseProjection` は、その一覧の全ての頁と、系列ごとの有効な
release を、一つの read transaction で読む。

* `joinedLabels_eq` — JOIN は、current label があればその一行、無ければ NULL の一行である
* `acknowledgementRow_desired` — SQL の CASE は `resolveInstanceTx` の割り当てと一致する
* `readReleaseProjection_complete` — 到達できる store では、読み出しは成功し、全ての session を一度ずつ返す
-/

namespace Kms.Storage

open Kms.Infra

/-! ## 一覧の行 -/

/-- 一覧の範囲。名前は空なら全て、schema version は `none` なら全てである。 -/
structure ReleaseFilter where
  ns : NamespaceRef
  name : String
  schemaVersion : Option Nat
  deriving DecidableEq

def ReleaseFilter.selects (filter : ReleaseFilter) (k : TrackKey) : Bool :=
  (decide (filter.name = "") || decide (k.name = filter.name)) &&
    filter.schemaVersion.all (fun v => decide (k.schemaVersion = v))

/-- 一覧の行。session の列に、SQL が計算する三つの列を足す。 -/
structure AcknowledgementRow where
  ns : NamespaceRef
  session : ReleaseSessionModel
  desiredVersion : Nat
  desiredRevision : Nat
  liveTimestamp : Time
  deriving DecidableEq

def AcknowledgementRow.track (r : AcknowledgementRow) : ReleaseTrack :=
  ⟨r.ns, r.session.track.name, r.session.track.schemaVersion⟩

/-- LEFT JOIN の相手。合う label が無ければ NULL の一行になる。 -/
def joinedLabels (s : Store) (p : ReleaseSessionModel) :
    List (Option ConfigurationReleaseLabelModel) :=
  match s.releaseLabels.rows.filter
      (fun l => decide (l.track = p.track) && decide (l.label = .current)) with
  | [] => [none]
  | ls => ls.map some

/-- SELECT の列。 -/
def acknowledgementRow (ns : NamespaceRef) (p : ReleaseSessionModel)
    (l : Option ConfigurationReleaseLabelModel) : AcknowledgementRow where
  ns := ns
  session := p
  desiredVersion := if p.pinVersion > 0 then p.pinVersion else (l.map (·.versionNumber)).getD 0
  desiredRevision :=
    if p.pinVersion > 0 then p.pinRevision
    else max p.pinRevision ((l.map (·.activationRevision)).getD 0)
  liveTimestamp :=
    if p.connected = false then p.disconnectedAt.getD p.serverTimestamp else p.serverTimestamp

/-- 範囲の中の session の行。 -/
def subscriberRows (s : Store) (filter : ReleaseFilter) (nsID : Nat) : List AcknowledgementRow :=
  (s.sessions.rows.filter
    (fun p => decide (p.track.namespaceID = nsID) && filter.selects p.track)).flatMap
      (fun p => (joinedLabels s p).map (acknowledgementRow filter.ns p))

/-! ## 頁 -/

/-- lifecycle state の文字列。 -/
def stateText : ReleaseState → String
  | .received => "received"
  | .prepared => "prepared"
  | .applied => "applied"
  | .rejected => "rejected"
  | .other text => text

/-- 並び順。server timestamp は降順、残りは昇順で、cursor もこの順で比べる。 -/
abbrev AcknowledgementCursor :=
  Timeᵒᵈ ×ₗ String ×ₗ Nat ×ₗ String ×ₗ String ×ₗ String ×ₗ String ×ₗ String

def acknowledgementCursor (r : AcknowledgementRow) : AcknowledgementCursor :=
  toLex (OrderDual.toDual r.session.serverTimestamp, toLex (r.session.track.name,
    toLex (r.session.track.schemaVersion, toLex (r.session.clientName,
      toLex (r.session.instanceID, toLex (r.session.identity,
        toLex (stateText r.session.state, r.session.sessionID)))))))

/-- 一覧の頁の指定。`departedBefore = 0` は絞り込み無しである。 -/
structure ListPage where
  limit : Nat
  token : Option AcknowledgementCursor
  departedBefore : Time

/-- 一覧に出す行。切断されて久しい pin 無しの session は、求められれば外す。 -/
def listedRows (s : Store) (filter : ReleaseFilter) (nsID : Nat) (departedBefore : Time) :
    List AcknowledgementRow :=
  (subscriberRows s filter nsID).filter (fun r =>
    decide (departedBefore = 0) || r.session.connected || decide (r.session.pinVersion > 0) ||
      decide (departedBefore ≤ r.liveTimestamp))

def listReleaseAcknowledgements (rq : Request) (s : Store) (filter : ReleaseFilter)
    (p : ListPage) : Except Err (List AcknowledgementRow × Option AcknowledgementCursor) := do
  let nsID ← resolveNamespaceID rq s filter.ns
  pure (page acknowledgementCursor (listedRows s filter nsID p.departedBefore)
    (clampLimit p.limit) p.token)

/-! ## 投影の読み出し -/

/-- 範囲の中の current label。 -/
def currentLabels (s : Store) (filter : ReleaseFilter) (nsID : Nat) :
    List ConfigurationReleaseLabelModel :=
  s.releaseLabels.rows.filter (fun l => decide (l.track.namespaceID = nsID) &&
    decide (l.label = .current) && filter.selects l.track)

/-- label ごとに、有効な release を読む。指す release の無い label は error になる。 -/
def readActive (rq : Request) (s : Store) (ns : NamespaceRef) :
    List ConfigurationReleaseLabelModel →
      Except Err (List (ReleaseTrack × ActiveConfigurationRelease))
  | [] => pure []
  | l :: ls => do
    let track : ReleaseTrack := ⟨ns, l.track.name, l.track.schemaVersion⟩
    let release ← getActiveConfigurationRelease rq s track
    let rest ← readActive rq s ns ls
    pure ((track, release) :: rest)

/-- 一行の検査。session の無い行は飛ばし、pin の指す release を読む。 -/
def visitRow (rq : Request) (s : Store) (r : AcknowledgementRow) : Except Err Bool :=
  if r.session.sessionID = "" then pure false
  else if r.session.pinVersion > 0 then do
    let _ ← getConfigurationRelease rq s r.track r.session.pinVersion
    pure true
  else pure true

/-- 頁を一つ読み、行を検査する。 -/
def readAcknowledgementPage (rq : Request) (s : Store) (filter : ReleaseFilter)
    (acc : List AcknowledgementRow × Option AcknowledgementCursor) :
    (List AcknowledgementRow × Option AcknowledgementCursor) ⊕
      Except Err (List AcknowledgementRow) :=
  match listReleaseAcknowledgements rq s filter ⟨1000, acc.2, 0⟩ with
  | .error e => .inr (.error e)
  | .ok p => takePage (visitRow rq s) acc.1 p

/-- `ReadReleaseProjection`。頁を読む loop の回数は `fuel` で限る。 -/
def readReleaseProjection (rq : Request) (s : Store) (filter : ReleaseFilter) (fuel : Nat) :
    Option (Except Err (List AcknowledgementRow ×
      List (ReleaseTrack × ActiveConfigurationRelease))) :=
  match resolveNamespaceID rq s filter.ns with
  | .error e => some (.error e)
  | .ok nsID =>
    match readActive rq s filter.ns (currentLabels s filter nsID) with
    | .error e => some (.error e)
    | .ok active =>
      (iterate (fun _ => readAcknowledgementPage rq s filter) fuel 0 ([], none)).map
        (fun out => out.2.map (fun rows => (rows, active)))

/-! ## JOIN と CASE -/

theorem joinedLabels_eq (s : Store) (p : ReleaseSessionModel) :
    joinedLabels s p = [s.releaseLabels.get (p.track, .current)] := by
  have hfilter : s.releaseLabels.rows.filter
      (fun l => decide (l.track = p.track) && decide (l.label = .current)) =
        (s.releaseLabels.get (p.track, .current)).toList := by
    rw [← Table.filter_key]
    refine List.filter_congr (fun l _ => ?_)
    rw [← Bool.decide_and]
    exact decide_eq_decide.mpr (Prod.mk.injEq _ _ _ _ ▸ Iff.rfl)
  unfold joinedLabels
  rw [hfilter]
  cases s.releaseLabels.get (p.track, .current) with
  | none => rfl
  | some l => rfl

/-- 一覧に出る、ちょうど一つの行。 -/
def sessionRow (s : Store) (ns : NamespaceRef) (p : ReleaseSessionModel) : AcknowledgementRow :=
  acknowledgementRow ns p (s.releaseLabels.get (p.track, .current))

theorem subscriberRows_eq (s : Store) (filter : ReleaseFilter) (nsID : Nat) :
    subscriberRows s filter nsID = (s.sessions.rows.filter
      (fun p => decide (p.track.namespaceID = nsID) && filter.selects p.track)).map
        (sessionRow s filter.ns) := by
  unfold subscriberRows
  rw [show (fun p => (joinedLabels s p).map (acknowledgementRow filter.ns p)) =
    fun p => [sessionRow s filter.ns p] from funext (fun p => by rw [joinedLabels_eq]; rfl)]
  exact List.flatMap_pure_eq_map ..

theorem sessionRow_desired (s : Store) (ns : NamespaceRef) (p : ReleaseSessionModel) :
    (sessionRow s ns p).desiredVersion = (assignedTarget s p).version ∧
      (sessionRow s ns p).desiredRevision = (assignedTarget s p).revision := by
  unfold sessionRow acknowledgementRow assignedTarget
  by_cases hpin : p.pinVersion = 0
  · cases s.releaseLabels.get (p.track, .current) with
    | none | some l => simp [hpin]
  · have hpos : p.pinVersion > 0 := Nat.pos_of_ne_zero hpin
    simp [hpin, hpos]

theorem sessionRow_resolved {rq : Request} {s s' : Store} {ref : ReleaseSessionRef}
    {m : ReleaseSessionModel} {out : InstanceReleaseTarget} (ns : NamespaceRef)
    (h : resolveInstanceTx rq s ref m = .ok (out, s')) :
    (sessionRow s ns m).desiredVersion = (resolvedTarget out).version ∧
      (sessionRow s ns m).desiredRevision = out.targetRevision := by
  obtain ⟨htarget, _⟩ := resolveInstanceTx_ok_cases h
  obtain ⟨hversion, hrevision⟩ := sessionRow_desired s ns m
  rw [hversion, hrevision, ← htarget]
  exact ⟨rfl, rfl⟩

/-! ## 全ての頁を読むこと -/

theorem listedRows_all (s : Store) (filter : ReleaseFilter) (nsID : Nat) :
    listedRows s filter nsID 0 = subscriberRows s filter nsID :=
  List.filter_eq_self.mpr (fun _ _ => rfl)

theorem cursor_session {r r' : AcknowledgementRow}
    (h : acknowledgementCursor r = acknowledgementCursor r') :
    r.session.sessionID = r'.session.sessionID := by
  simp only [acknowledgementCursor, EmbeddingLike.apply_eq_iff_eq, Prod.mk.injEq] at h
  exact h.2.2.2.2.2.2.2

theorem nodup_cursors (s : Store) (filter : ReleaseFilter) (nsID : Nat) :
    ((subscriberRows s filter nsID).map acknowledgementCursor).Nodup := by
  rw [subscriberRows_eq, List.map_map]
  have hids : ((s.sessions.rows.filter (fun p => decide (p.track.namespaceID = nsID) &&
      filter.selects p.track)).map (·.sessionID)).Nodup :=
    s.sessions.nodup.sublist (List.filter_sublist.map _)
  refine List.pairwise_map.mpr ((List.pairwise_map.mp hids).imp (fun hne heq => hne ?_))
  exact cursor_session heq

theorem readAcknowledgementPage_eq {rq : Request} {s : Store} {filter : ReleaseFilter} {nsID : Nat}
    (hns : resolveNamespaceID rq s filter.ns = .ok nsID) :
    readAcknowledgementPage rq s filter =
      readPage acknowledgementCursor (subscriberRows s filter nsID) 1000 (visitRow rq s) := by
  funext acc
  have hpage : listReleaseAcknowledgements rq s filter ⟨1000, acc.2, 0⟩ =
      .ok (page acknowledgementCursor (subscriberRows s filter nsID) 1000 acc.2) := by
    simp only [listReleaseAcknowledgements, bind_eq_ok_iff, pure_eq_ok_iff, listedRows_all]
    exact ⟨nsID, hns, rfl⟩
  unfold readAcknowledgementPage readPage
  rw [hpage]

section

variable [Hashing]

variable {purged : Nat × Nat → Prop} {rq : Request} {s : Store} {filter : ReleaseFilter}
  {nsID : Nat}

/-- pin の指す release の行があるので、行の検査は通る。 -/
theorem visitRow_ok {nsID : Nat} (hns : resolveNamespaceID rq s filter.ns = .ok nsID)
    (hg : Guarded purged s) {r : AcknowledgementRow} (hr : r ∈ subscriberRows s filter nsID) :
    visitRow rq s r = .ok (decide (r.session.sessionID ≠ "")) := by
  rw [subscriberRows_eq] at hr
  obtain ⟨p, hp, rfl⟩ := List.mem_map.mp hr
  obtain ⟨hmem, hsel⟩ := List.mem_filter.mp hp
  rw [Bool.and_eq_true, decide_eq_true_eq] at hsel
  show visitRow rq s (sessionRow s filter.ns p) = .ok (decide (p.sessionID ≠ ""))
  have hsession : (sessionRow s filter.ns p).session = p := rfl
  have htrack : (sessionRow s filter.ns p).track =
      ⟨filter.ns, p.track.name, p.track.schemaVersion⟩ := rfl
  unfold visitRow
  rw [hsession, htrack]
  by_cases hid : p.sessionID = ""
  · simp [hid, pure, Except.pure]
  · rw [if_neg hid]
    by_cases hpin : p.pinVersion > 0
    · have hkey : (⟨nsID, p.track.name, p.track.schemaVersion⟩ : TrackKey) = p.track := by
        rw [← hsel.1]
      obtain ⟨row, hrow, _⟩ := hg p.track p.pinVersion
        (Or.inr ⟨Nat.ne_of_gt hpin, p, hmem, rfl, rfl⟩)
      have hget : getConfigurationRelease rq s ⟨filter.ns, p.track.name, p.track.schemaVersion⟩
          p.pinVersion = .ok (releaseFromModel s filter.ns row) := by
        simp only [getConfigurationRelease, if_neg (Nat.ne_of_gt hpin), bind_eq_ok_iff,
          orThrow_eq_ok_iff, pure_eq_ok_iff]
        exact ⟨nsID, hns, row, by rw [hkey]; exact hrow, rfl⟩
      rw [if_pos hpin, hget]
      simp [hid, bind, Except.bind, pure, Except.pure]
    · rw [if_neg hpin]
      simp [hid, pure, Except.pure]

/-- label に対して読んだ、有効な release。 -/
def ActiveFor (ns : NamespaceRef) (l : ConfigurationReleaseLabelModel)
    (p : ReleaseTrack × ActiveConfigurationRelease) : Prop :=
  p.1 = ⟨ns, l.track.name, l.track.schemaVersion⟩ ∧
    p.2.activationRevision = l.activationRevision ∧ p.2.release.version = l.versionNumber

theorem readActive_ok {ns : NamespaceRef} (hns : resolveNamespaceID rq s ns = .ok nsID)
    (hi : TrackInv s) (hg : Guarded purged s) {ls : List ConfigurationReleaseLabelModel}
    (hls : ∀ l ∈ ls, l ∈ s.releaseLabels ∧ l.label = .current ∧ l.track.namespaceID = nsID) :
    ∃ active, readActive rq s ns ls = .ok active ∧ List.Forall₂ (ActiveFor ns) ls active := by
  induction ls with
  | nil => exact ⟨[], rfl, .nil⟩
  | cons l ls ih =>
    obtain ⟨rest, hrest, hall⟩ := ih (fun x hx => hls x (List.mem_cons_of_mem _ hx))
    obtain ⟨hl, hlabel, hnsid⟩ := hls l List.mem_cons_self
    have hkey : (⟨nsID, l.track.name, l.track.schemaVersion⟩ : TrackKey) = l.track := by
      rw [← hnsid]
    have hget : s.releaseLabels.get (l.track, .current) = some l := by
      rw [← hlabel]
      exact Table.get_of_mem hl
    have hv := hi.positive l.track l hget
    obtain ⟨row, hrow, _⟩ := hg l.track l.versionNumber (Or.inl ⟨l, hl, rfl, rfl⟩)
    have hrel : getConfigurationRelease rq s ⟨ns, l.track.name, l.track.schemaVersion⟩
        l.versionNumber = .ok (releaseFromModel s ns row) := by
      simp only [getConfigurationRelease, if_neg hv, bind_eq_ok_iff, orThrow_eq_ok_iff,
        pure_eq_ok_iff]
      exact ⟨nsID, hns, row, by rw [hkey]; exact hrow, rfl⟩
    have hactive : ∃ a, getActiveConfigurationRelease rq s
        ⟨ns, l.track.name, l.track.schemaVersion⟩ = .ok a ∧
          a.activationRevision = l.activationRevision ∧
          a.release = releaseFromModel s ns row := by
      simp only [getActiveConfigurationRelease, bind_eq_ok_iff, orThrow_eq_ok_iff, pure_eq_ok_iff]
      refine ⟨_, ⟨nsID, hns, l, by rw [hkey]; exact hget, _, hrel, rfl⟩, rfl, rfl⟩
    obtain ⟨a, ha, hrev, har⟩ := hactive
    refine ⟨(⟨ns, l.track.name, l.track.schemaVersion⟩, a) :: rest, ?_, .cons ⟨rfl, hrev, ?_⟩ hall⟩
    · simp only [readActive, bind_eq_ok_iff, pure_eq_ok_iff]
      exact ⟨a, ha, rest, hrest, rfl⟩
    · rw [har]
      exact congrArg ReleaseKey.versionNumber (AutoTable.key_of_get hrow)

omit [Hashing] in
/-- 系列で引くと、その系列の label に対して読んだものが返る。 -/
theorem lookup_active {ns : NamespaceRef} {ls : List ConfigurationReleaseLabelModel}
    {active : List (ReleaseTrack × ActiveConfigurationRelease)}
    (h : List.Forall₂ (ActiveFor ns) ls active) (t : ReleaseTrack) (ht : t.ns = ns) :
    (active.lookup t).map (fun a => (a.activationRevision, a.release.version)) =
      (ls.find? (fun l => decide (l.track.name = t.name) &&
        decide (l.track.schemaVersion = t.schemaVersion))).map
          (fun l => (l.activationRevision, l.versionNumber)) := by
  induction h with
  | nil => rfl
  | @cons l p ls active hp _ ih =>
    obtain ⟨htrack, hrev, hver⟩ := hp
    obtain ⟨track, a⟩ := p
    have heq : (t == track) = (decide (l.track.name = t.name) &&
        decide (l.track.schemaVersion = t.schemaVersion)) := by
      rw [Bool.eq_iff_iff, beq_iff_eq, Bool.and_eq_true, decide_eq_true_eq, decide_eq_true_eq,
        show track = ⟨ns, l.track.name, l.track.schemaVersion⟩ from htrack]
      constructor
      · rintro rfl
        exact ⟨rfl, rfl⟩
      · rintro ⟨hname, hschema⟩
        rw [hname, hschema, ← ht]
    rw [List.lookup_cons, List.find?_cons, ← heq]
    cases t == track with
    | true =>
      show some (a.activationRevision, a.release.version) = _
      rw [show a.activationRevision = _ from hrev, show a.release.version = _ from hver]
      rfl
    | false => exact ih

/-- 読み出した一覧。範囲の session を一度ずつ含み、系列ごとの有効な release は current label のものである。 -/
structure ProjectsStore (s : Store) (filter : ReleaseFilter) (nsID : Nat)
    (rows : List AcknowledgementRow) (active : List (ReleaseTrack × ActiveConfigurationRelease)) :
    Prop where
  rows : rows.Perm ((s.sessions.rows.filter (fun p => decide (p.track.namespaceID = nsID) &&
    filter.selects p.track && decide (p.sessionID ≠ ""))).map (sessionRow s filter.ns))
  active : ∀ k : TrackKey, k.namespaceID = nsID → filter.selects k = true →
    (active.lookup ⟨filter.ns, k.name, k.schemaVersion⟩).map
        (fun a => (a.activationRevision, a.release.version)) =
      (s.releaseLabels.get (k, .current)).map (fun l => (l.activationRevision, l.versionNumber))

omit [Hashing] in
theorem find_currentLabels {k : TrackKey}
    (hns : k.namespaceID = nsID) (hsel : filter.selects k = true) :
    (currentLabels s filter nsID).find? (fun l => decide (l.track.name = k.name) &&
      decide (l.track.schemaVersion = k.schemaVersion)) = s.releaseLabels.get (k, .current) := by
  unfold currentLabels
  rw [List.find?_filter]
  refine congrArg (fun p => s.releaseLabels.rows.find? p) (funext (fun l => ?_))
  rw [Bool.eq_iff_iff]
  simp only [Bool.and_eq_true, decide_eq_true_eq, ConfigurationReleaseLabelModel.key,
    Prod.mk.injEq]
  constructor
  · rintro ⟨⟨⟨hid, hlabel⟩, _⟩, hname, hschema⟩
    refine ⟨?_, hlabel⟩
    obtain ⟨id, name, schema⟩ := k
    cases hlt : l.track with
    | mk id' name' schema' =>
      rw [hlt] at hid hname hschema
      simp only [TrackKey.mk.injEq]
      exact ⟨hid.trans hns.symm, hname, hschema⟩
  · rintro ⟨rfl, hlabel⟩
    exact ⟨⟨⟨hns, hlabel⟩, hsel⟩, rfl, rfl⟩

theorem readReleaseProjection_complete
    {nsID : Nat} (hns : resolveNamespaceID rq s filter.ns = .ok nsID)
    (hi : TrackInv s) (hg : Guarded purged s) :
    ∃ rows active, ProjectsStore s filter nsID rows active ∧
      ∀ fuel, s.sessions.rows.length < fuel →
        readReleaseProjection rq s filter fuel = some (.ok (rows, active)) := by
  have hlabels : ∀ l ∈ currentLabels s filter nsID,
      l ∈ s.releaseLabels ∧ l.label = .current ∧ l.track.namespaceID = nsID := by
    intro l hl
    obtain ⟨hmem, hcond⟩ := List.mem_filter.mp hl
    simp only [Bool.and_eq_true, decide_eq_true_eq] at hcond
    exact ⟨hmem, hcond.1.2, hcond.1.1⟩
  obtain ⟨active, hactive, hall⟩ := readActive_ok hns hi hg hlabels
  refine ⟨(ordered acknowledgementCursor (subscriberRows s filter nsID)).filter
    (fun r => decide (r.session.sessionID ≠ "")), active, ⟨?_, ?_⟩, ?_⟩
  · refine ((ordered_perm _).filter _).trans (List.Perm.of_eq ?_)
    rw [subscriberRows_eq, List.filter_map, List.filter_filter]
    refine congrArg _ (List.filter_congr (fun p _ => ?_))
    exact Bool.and_comm ..
  · intro k hk hsel
    rw [lookup_active hall ⟨filter.ns, k.name, k.schemaVersion⟩ rfl]
    exact congrArg _ (find_currentLabels hk hsel)
  · intro fuel hfuel
    have hlen : (subscriberRows s filter nsID).length < fuel := by
      rw [subscriberRows_eq, List.length_map]
      exact Nat.lt_of_le_of_lt (List.length_filter_le ..) hfuel
    obtain ⟨m, hm⟩ := readPage_complete (by decide : 0 < 1000)
      (fun r hr => visitRow_ok hns hg hr) (nodup_cursors s filter nsID) hlen
    unfold readReleaseProjection
    simp only [hns, hactive, readAcknowledgementPage_eq hns, hm]
    rfl

/-! ## 不変条件 -/

/-- `authorizeSession` は、空の session ID の登録を通さない。 -/
def NamesSession (c : Call) : Prop :=
  ∀ ref resume, c.op = .registerSession ref resume → ref.sessionID ≠ ""

/-- session には名前があり、pin には revision がある。 -/
structure PinInv (s : Store) : Prop where
  identified : ∀ m ∈ s.sessions, m.sessionID ≠ ""
  pinned : ∀ m ∈ s.sessions, m.pinVersion ≠ 0 → m.pinRevision ≠ 0

omit [Hashing] in
theorem pinInv_empty : PinInv Store.empty where
  identified := fun m hm => absurd hm (Table.not_mem_empty m)
  pinned := fun m hm => absurd hm (Table.not_mem_empty m)

theorem pinInv_step (s : Store) (c : Call) (hc : NamesSession c) (hi : PinInv s) :
    PinInv (step s c) := by
  have heff := step_sessionEffect (s := s) (c := c) rfl
  have hrow : ∀ m' ∈ (step s c).sessions,
      m'.sessionID ≠ "" ∧ (m'.pinVersion ≠ 0 → m'.pinRevision ≠ 0) := by
    intro m' hm'
    have hget' := Table.get_of_mem hm'
    rcases heff.row_origin hget' with hsome | ⟨ref, nsID, ⟨resume, hop⟩, rfl⟩
    · obtain ⟨m, hm⟩ := Option.isSome_iff_exists.mp hsome
      have hid : m'.sessionID = m.sessionID := (Table.key_of_get hm).symm
      have hmem := Table.mem_of_get hm
      refine ⟨by rw [hid]; exact hi.identified m hmem, ?_⟩
      cases heff.rowStep hm hget' with
      | same => exact hi.pinned _ hmem
      | connection => exact hi.pinned m hmem
      | repin version actor _ _ _ => exact fun _ => Nat.succ_ne_zero _
      | acknowledged ref ack _ _ _ hrow =>
        rw [hrow.pinVersion, hrow.pinRevision]
        exact hi.pinned m hmem
    · exact ⟨hc ref resume hop, fun hpin => absurd rfl hpin⟩
  exact ⟨fun m hm => (hrow m hm).1, fun m hm => (hrow m hm).2⟩

theorem pinInv_run (cs : List Call) (hcs : ∀ c ∈ cs, NamesSession c) :
    PinInv (run step Store.empty cs) :=
  run_steps_invariant (fun s c hc hi => pinInv_step s c hc hi) pinInv_empty
    (AlongSteps.of_forall hcs)

end

end Kms.Storage
