import Kms.Core.Request
import Kms.Infra.Paging
import Kms.Storage.Reads
import Mathlib.Data.List.Dedup
import Mathlib.Data.String.Basic

/-!
# release の比較

二つの release の entry を alias で突き合わせ、行ごとに分類し、違う行の値を予算の中で埋める。

* `diffAliases_comm` — 行の並びは、二つの release の順によらない
* `entryChangeReasons_eq_nil` — 理由が無いのは、同じものを指すとき
* `fillReleaseDiffPins_spec` — 全ての行が埋まり、埋めた値の合計は予算を超えない
-/

namespace Kms.Core

open Kms.Infra Kms.Storage

/-! ## 行 -/

/-- 行の分類。 -/
inductive ReleaseDiffChange where
  | added
  | removed
  | changed
  | unchanged
  deriving DecidableEq

/-- 変わったとする理由。 -/
inductive ReleaseDiffReason where
  | value
  | pin
  | key
  | kind
  | contentType
  deriving DecidableEq

/-- 値の状態。`unset` は、まだ埋めていない空文字列。 -/
inductive ReleaseDiffValueState where
  | unset
  | present
  | omittedSize
  | omittedUnchanged
  | omittedRequest
  | secret
  | unavailable
  deriving DecidableEq

/-- 行の片側。 -/
structure ReleaseDiffPin where
  entry : ConfigurationReleaseEntry
  createdBy : String := ""
  valueState : ReleaseDiffValueState := .unset
  value : String := ""
  valueBytes : Nat := 0
  secretState : Option VersionState := none
  bound : Bool := false
  expiresAt : Option Time := none

/-- 一つの alias の行。 -/
structure ReleaseDiffRow where
  rowAlias : String
  kind : ReleaseEntryKind
  change : ReleaseDiffChange
  reasons : List ReleaseDiffReason
  fromPin : Option ReleaseDiffPin
  toPin : Option ReleaseDiffPin

def ReleaseDiffRow.pins (row : ReleaseDiffRow) : List ReleaseDiffPin :=
  row.fromPin.toList ++ row.toPin.toList

def releaseAliases (r : ConfigurationRelease) : List String :=
  r.entries.map (·.entryAlias)

/-- alias から entry への map。同じ alias では後の entry が残る。 -/
def entryByAlias (r : ConfigurationRelease) (a : String) : Option ConfigurationReleaseEntry :=
  r.entries.reverse.find? (fun e => decide (e.entryAlias = a))

/-- 二つの map の key。 -/
def unionAliases (before after : ConfigurationRelease) : List String :=
  (releaseAliases before).dedup ++
    (releaseAliases after).dedup.filter (fun a => decide (a ∉ releaseAliases before))

def diffAliases (before after : ConfigurationRelease) : List String :=
  ordered id (unionAliases before after)

def entryChangeReasons (before after : ConfigurationReleaseEntry) (crossEnvironment : Bool) :
    List ReleaseDiffReason :=
  let sameRef := if crossEnvironment then decide (before.ref.key = after.ref.key)
    else decide (before.ref = after.ref)
  let parameter := decide (before.kind = .parameter) && decide (after.kind = .parameter)
  let repinned := decide (before.version ≠ after.version)
  (if before.kind ≠ after.kind then [.kind] else []) ++
    (if sameRef then [] else [.key]) ++
    (if before.contentType ≠ after.contentType then [.contentType] else []) ++
    (if parameter && before.parameterDigest ≠ after.parameterDigest then [.value]
    else if parameter && repinned && !crossEnvironment then [.pin]
    else if !parameter && repinned then [.pin]
    else [])

/-- 一つの alias の分類。 -/
def diffRow (crossEnvironment : Bool) (a : String)
    (before after : Option ConfigurationReleaseEntry) : ReleaseDiffRow :=
  match before, after with
  | none, after =>
    ⟨a, (after.map (·.kind)).getD (.other ""), .added, [], none, after.map ({ entry := · })⟩
  | some before, none => ⟨a, before.kind, .removed, [], some { entry := before }, none⟩
  | some before, some after =>
    let reasons := entryChangeReasons before after crossEnvironment
    ⟨a, after.kind, if 0 < reasons.length then .changed else .unchanged, reasons,
      some { entry := before }, some { entry := after }⟩

def computeReleaseDiff (before after : ConfigurationRelease) (crossEnvironment : Bool) :
    List ReleaseDiffRow :=
  (diffAliases before after).map (fun a =>
    diffRow crossEnvironment a (entryByAlias before a) (entryByAlias after a))

/-! ### 行の並び -/

section Aliases

variable {before after : ConfigurationRelease} {a : String}

theorem entryByAlias_eq_none (r : ConfigurationRelease) (a : String) :
    entryByAlias r a = none ↔ a ∉ releaseAliases r := by
  simp [entryByAlias, releaseAliases]

theorem nodup_unionAliases (before after : ConfigurationRelease) :
    (unionAliases before after).Nodup := by
  refine (List.nodup_dedup _).append ((List.nodup_dedup _).filter _) (fun a hb ha => ?_)
  exact of_decide_eq_true (List.mem_filter.mp ha).2 (List.mem_dedup.mp hb)

theorem mem_unionAliases :
    a ∈ unionAliases before after ↔ a ∈ releaseAliases before ∨ a ∈ releaseAliases after := by
  simp only [unionAliases, List.mem_append, List.mem_dedup, List.mem_filter, decide_eq_true_eq]
  tauto

theorem diffAliases_strict (before after : ConfigurationRelease) :
    (diffAliases before after).Pairwise (· < ·) :=
  strict_ordered (by simpa using nodup_unionAliases before after)

theorem diffAliases_comm (before after : ConfigurationRelease) :
    diffAliases before after = diffAliases after before := by
  have hperm : (unionAliases after before).Perm (unionAliases before after) :=
    (List.perm_ext_iff_of_nodup (nodup_unionAliases ..) (nodup_unionAliases ..)).mpr
      (fun a => by rw [mem_unionAliases, mem_unionAliases, or_comm])
  exact ordered_eq_of_perm ((ordered_perm _).trans hperm) (diffAliases_strict after before)

end Aliases

/-! ### 理由 -/

section Reasons

variable {crossEnvironment : Bool} {before after : ConfigurationReleaseEntry}

/-- 二つの entry が同じものを指すこと。環境をまたぐと、key と parameter の中身だけで決まる。 -/
def SamePin (crossEnvironment : Bool) (before after : ConfigurationReleaseEntry) : Prop :=
  before.kind = after.kind ∧
  (if crossEnvironment then before.ref.key = after.ref.key else before.ref = after.ref) ∧
  before.contentType = after.contentType ∧
  (before.kind = .parameter → before.parameterDigest = after.parameterDigest) ∧
  (¬(crossEnvironment ∧ before.kind = .parameter) → before.version = after.version)

theorem entryChangeReasons_eq_nil :
    entryChangeReasons before after crossEnvironment = [] ↔
      SamePin crossEnvironment before after := by
  simp only [entryChangeReasons, SamePin, List.append_eq_nil_iff, and_assoc]
  by_cases hkind : before.kind = after.kind
  · by_cases hp : after.kind = .parameter <;> cases crossEnvironment <;> simp [hkind, hp]
    all_goals grind
  · simp [hkind]

theorem entryChangeReasons_comm (before after : ConfigurationReleaseEntry)
    (crossEnvironment : Bool) :
    entryChangeReasons after before crossEnvironment =
      entryChangeReasons before after crossEnvironment := by
  simp only [entryChangeReasons, ne_eq, eq_comm (a := after.kind), eq_comm (a := after.ref),
    eq_comm (a := after.ref.key), eq_comm (a := after.contentType),
    eq_comm (a := after.parameterDigest), eq_comm (a := after.version), Bool.and_comm]

end Reasons

/-! ### 行の分類 -/

section Rows

variable {before after : ConfigurationRelease} {crossEnvironment : Bool} {row : ReleaseDiffRow}

/-- 行の分類が、二つの release の entry で決まること。 -/
structure Classified (before after : ConfigurationRelease) (crossEnvironment : Bool)
    (row : ReleaseDiffRow) : Prop where
  added : row.change = .added ↔
    row.rowAlias ∉ releaseAliases before ∧ row.rowAlias ∈ releaseAliases after
  removed : row.change = .removed ↔
    row.rowAlias ∈ releaseAliases before ∧ row.rowAlias ∉ releaseAliases after
  unchanged : row.change = .unchanged ↔ ∃ b a, entryByAlias before row.rowAlias = some b ∧
    entryByAlias after row.rowAlias = some a ∧ SamePin crossEnvironment b a

/-- release を入れ替えたときの分類。 -/
def ReleaseDiffChange.swap : ReleaseDiffChange → ReleaseDiffChange
  | .added => .removed
  | .removed => .added
  | .changed => .changed
  | .unchanged => .unchanged

/-- release を入れ替えたときの行。 -/
structure Swapped (row row' : ReleaseDiffRow) : Prop where
  rowAlias : row'.rowAlias = row.rowAlias
  change : row'.change = row.change.swap
  reasons : row'.reasons = row.reasons

theorem classified (h : row ∈ computeReleaseDiff before after crossEnvironment) :
    Classified before after crossEnvironment row := by
  obtain ⟨a, ha, rfl⟩ := List.mem_map.mp h
  have hmem := mem_unionAliases.mp ((ordered_perm _).mem_iff.mp ha)
  have hbefore := entryByAlias_eq_none before a
  have hafter := entryByAlias_eq_none after a
  have halias : ∀ b c, (diffRow crossEnvironment a b c).rowAlias = a := by
    rintro (_ | b) (_ | c) <;> rfl
  constructor <;> rw [halias]
  all_goals
    cases hb : entryByAlias before a with
    | none => simp_all [diffRow]
    | some b =>
      cases hc : entryByAlias after a with
      | none => simp_all [diffRow]
      | some c =>
        have hsame := @entryChangeReasons_eq_nil crossEnvironment b c
        by_cases hnil : entryChangeReasons b c crossEnvironment = [] <;>
          simp_all [diffRow, List.length_pos_iff]

theorem swapped_diffRow {a : String} {b c : Option ConfigurationReleaseEntry}
    (h : b ≠ none ∨ c ≠ none) :
    Swapped (diffRow crossEnvironment a b c) (diffRow crossEnvironment a c b) := by
  cases b with
  | none =>
    cases c with
    | none => simp at h
    | some c => exact ⟨rfl, rfl, rfl⟩
  | some b =>
    cases c with
    | none => exact ⟨rfl, rfl, rfl⟩
    | some c =>
      have hreasons := entryChangeReasons_comm b c crossEnvironment
      refine ⟨rfl, ?_, hreasons⟩
      simp only [diffRow, hreasons]
      split <;> rfl

theorem swapped_computeReleaseDiff (before after : ConfigurationRelease)
    (crossEnvironment : Bool) :
    List.Forall₂ Swapped (computeReleaseDiff before after crossEnvironment)
      (computeReleaseDiff after before crossEnvironment) := by
  rw [computeReleaseDiff, computeReleaseDiff, ← diffAliases_comm before after,
    List.forall₂_map_left_iff, List.forall₂_map_right_iff, List.forall₂_same]
  intro a ha
  refine swapped_diffRow ?_
  rw [ne_eq, ne_eq, entryByAlias_eq_none, entryByAlias_eq_none, not_not, not_not]
  exact mem_unionAliases.mp ((ordered_perm _).mem_iff.mp ha)

end Rows

/-! ## 件数 -/

structure ReleaseDiffCounts where
  added : Nat := 0
  removed : Nat := 0
  changed : Nat := 0
  unchanged : Nat := 0
  secretsChanged : Nat := 0
  attention : Nat := 0

def releaseDiffRowNeedsAttention (row : ReleaseDiffRow) : Bool :=
  row.reasons.any (fun r => r == .kind || r == .contentType) ||
  row.toPin.any (fun p => p.entry.kind == .secret && p.secretState.any (· != .enabled)) ||
  (row.change == .changed && row.kind == .parameter &&
    row.pins.any (fun p => p.valueState == .unavailable))

/-- 一行を数える。 -/
def countRow (c : ReleaseDiffCounts) (row : ReleaseDiffRow) : ReleaseDiffCounts :=
  let differing : ReleaseDiffCounts :=
    { c with
      secretsChanged := c.secretsChanged + if row.kind = .secret then 1 else 0
      attention := c.attention + if releaseDiffRowNeedsAttention row then 1 else 0 }
  match row.change with
  | .added => { differing with added := c.added + 1 }
  | .removed => { differing with removed := c.removed + 1 }
  | .changed => { differing with changed := c.changed + 1 }
  | .unchanged => { c with unchanged := c.unchanged + 1 }

def releaseDiffCounts (rows : List ReleaseDiffRow) : ReleaseDiffCounts := rows.foldl countRow {}

def ReleaseDiffCounts.total (c : ReleaseDiffCounts) : Nat :=
  c.added + c.removed + c.changed + c.unchanged

theorem total_countRow (c : ReleaseDiffCounts) (row : ReleaseDiffRow) :
    (countRow c row).total = c.total + 1 := by
  unfold countRow ReleaseDiffCounts.total
  cases row.change <;> dsimp only <;> omega

theorem total_foldl_countRow (rows : List ReleaseDiffRow) (c : ReleaseDiffCounts) :
    (rows.foldl countRow c).total = c.total + rows.length := by
  induction rows generalizing c with
  | nil => rfl
  | cons row rows ih =>
    rw [List.foldl_cons, ih, total_countRow, List.length_cons]
    omega

/-! ## 値を埋める -/

/-- 片側に載せる値の上限。 -/
def releaseDiffValueCapBytes : Nat := 256 <<< 10

/-- 一つの応答の値の予算。 -/
def releaseDiffValueBudgetBytes : Nat := 4 <<< 20

/-- 残りの予算と、読んだ secret の情報。 -/
structure FillState where
  budget : Nat := releaseDiffValueBudgetBytes
  secrets : Ref → Option (Option SecretInfo) := fun _ => none

/-- 読んだ parameter を載せる。 -/
def ReleaseDiffPin.withParameter (pin : ReleaseDiffPin) (p : Parameter) (budget : Nat) :
    ReleaseDiffPin × Nat :=
  let bytes := p.value.utf8ByteSize
  let read := { pin with createdBy := p.createdBy, valueBytes := bytes }
  if releaseDiffValueCapBytes < bytes ∨ budget < bytes then
    ({ read with valueState := .omittedSize }, budget)
  else ({ read with valueState := .present, value := p.value }, budget - bytes)

/-- 読んだ secret の情報を載せる。 -/
def ReleaseDiffPin.withSecret (pin : ReleaseDiffPin) : Option SecretInfo → ReleaseDiffPin
  | none => { pin with valueState := .unavailable }
  | some info =>
    match info.versions.find? (fun v => decide (v.versionNumber = pin.entry.version)) with
    | some v =>
      { pin with
        createdBy := v.createdBy
        secretState := some (if v.destroyedAt.getD 0 = 0 then v.state else .destroyed)
        bound := v.bound
        expiresAt := v.expiresAt }
    | none => { pin with bound := info.bound, valueState := .unavailable }

section Fill

variable [Authorization] (ctx : Ctx) (pr : Principal)

def readPinned (entry : ConfigurationReleaseEntry) : Flow Shared Err Parameter := do
  let (bound, _) ← authorize ctx pr "parameter:read" "parameter" entry.ref
  readStore bound (fun rq s => getParameter rq s entry.ref entry.version none)

def fillReleaseDiffParameter (pin : ReleaseDiffPin) (budget : Nat) :
    Prog Shared (ReleaseDiffPin × Nat) := do
  let read ← (readPinned ctx pr pin.entry).run
  match read with
  | .error _ => pure ({ pin with valueState := .unavailable }, budget)
  | .ok p => pure (pin.withParameter p budget)

def fillReleaseDiffSecret (pin : ReleaseDiffPin) (cache : Ref → Option (Option SecretInfo)) :
    Prog Shared (ReleaseDiffPin × (Ref → Option (Option SecretInfo))) :=
  match cache pin.entry.ref with
  | some info => pure (pin.withSecret info, cache)
  | none => do
    let read ← ExceptT.run (do
      let (bound, _) ← authorize ctx pr "secret:read" "secret" pin.entry.ref
      readStore bound (fun rq s => getSecretInfo rq s pin.entry.ref))
    let info := read.toOption
    pure (pin.withSecret info, fun ref => if ref = pin.entry.ref then some info else cache ref)

/-- 行の片側を埋める。 -/
def fillPin (includeValues : Bool) (change : ReleaseDiffChange) (st : FillState)
    (pin : ReleaseDiffPin) : Prog Shared (ReleaseDiffPin × FillState) :=
  if pin.entry.kind = .secret then
    if change = .unchanged then pure ({ pin with valueState := .secret }, st)
    else do
      let (pin, secrets) ←
        fillReleaseDiffSecret ctx pr { pin with valueState := .secret } st.secrets
      pure (pin, { st with secrets })
  else if change = .unchanged then pure ({ pin with valueState := .omittedUnchanged }, st)
  else if includeValues then do
    let (pin, budget) ← fillReleaseDiffParameter ctx pr pin st.budget
    pure (pin, { st with budget })
  else pure ({ pin with valueState := .omittedRequest }, st)

def fillSide (includeValues : Bool) (change : ReleaseDiffChange) (st : FillState) :
    Option ReleaseDiffPin → Prog Shared (Option ReleaseDiffPin × FillState)
  | none => pure (none, st)
  | some pin => do
    let (pin, st) ← fillPin ctx pr includeValues change st pin
    pure (some pin, st)

def fillReleaseDiffPins (includeValues : Bool) :
    FillState → List ReleaseDiffRow → Prog Shared (List ReleaseDiffRow)
  | _, [] => pure []
  | st, row :: rows => do
    let (fromPin, st) ← fillSide ctx pr includeValues row.change st row.fromPin
    let (toPin, st) ← fillSide ctx pr includeValues row.change st row.toPin
    let rows ← fillReleaseDiffPins includeValues st rows
    pure ({ row with fromPin, toPin } :: rows)

/-! ### 予算 -/

/-- 実行の中で読んだ、pin の指す parameter。 -/
def ReadInRun (tr : List (Shared × Shared)) (entry : ConfigurationReleaseEntry) (p : Parameter) :
    Prop :=
  ∃ x ∈ tr, ∃ bound : Ctx,
    getParameter (bound.request x.1.now) x.1.store entry.ref entry.version none = .ok p

/-- 実行の中で、pin の指す parameter を読めなかった。 -/
def FailedInRun (R : Shared → Shared → Prop) (tr : List (Shared × Shared))
    (entry : ConfigurationReleaseEntry) : Prop :=
  ∃ w w' tr', ∃ e : Err, tr' ⊆ tr ∧ Runs R (readPinned ctx pr entry).run w tr' (.error e) w'

/-- 値を載せうる pin。 -/
def Fillable (includeValues : Bool) (change : ReleaseDiffChange) (pin : ReleaseDiffPin) : Prop :=
  pin.entry.kind ≠ .secret ∧ change ≠ .unchanged ∧ includeValues = true

/-- 読んだ値の全体を載せたか、載せなかった訳を記したか。`spent` は、載せた値の合計。 -/
def Shown (R : Shared → Shared → Prop) (tr : List (Shared × Shared)) (includeValues : Bool)
    (spent : Nat) (change : ReleaseDiffChange) (pin : ReleaseDiffPin) : Prop :=
  match pin.valueState with
  | .unset => False
  | .present => Fillable includeValues change pin ∧ ∃ p, ReadInRun tr pin.entry p ∧
      pin.value = p.value
  | .omittedSize => pin.value = "" ∧ Fillable includeValues change pin ∧
      ∃ p, ReadInRun tr pin.entry p ∧ (releaseDiffValueCapBytes < p.value.utf8ByteSize ∨
        releaseDiffValueBudgetBytes < p.value.utf8ByteSize + spent)
  | .omittedUnchanged => pin.value = "" ∧ pin.entry.kind ≠ .secret ∧ change = .unchanged
  | .omittedRequest => pin.value = "" ∧ pin.entry.kind ≠ .secret ∧ includeValues = false
  | .secret => pin.value = "" ∧ pin.entry.kind = .secret
  | .unavailable => pin.value = "" ∧ change ≠ .unchanged ∧
      (pin.entry.kind ≠ .secret → includeValues = true ∧ FailedInRun ctx pr R tr pin.entry)

/-- 埋めた pin は、同じ entry を指す。 -/
def FilledPin (R : Shared → Shared → Prop) (tr : List (Shared × Shared)) (includeValues : Bool)
    (spent : Nat) (change : ReleaseDiffChange) (pin pin' : ReleaseDiffPin) : Prop :=
  pin'.entry = pin.entry ∧ Shown ctx pr R tr includeValues spent change pin'

/-- 埋めた行。両側の pin の他は、変わらない。 -/
structure FilledRow (R : Shared → Shared → Prop) (tr : List (Shared × Shared))
    (includeValues : Bool) (spent : Nat) (row row' : ReleaseDiffRow) : Prop where
  rest : row' = { row with fromPin := row'.fromPin, toPin := row'.toPin }
  fromPin : Option.Rel (FilledPin ctx pr R tr includeValues spent row.change)
    row.fromPin row'.fromPin
  toPin : Option.Rel (FilledPin ctx pr R tr includeValues spent row.change) row.toPin row'.toPin

def valueBytesTotal (pins : List ReleaseDiffPin) : Nat :=
  (pins.map (fun p => p.value.utf8ByteSize)).sum

variable {ctx pr} {R : Shared → Shared → Prop} {w w' : Shared} {tr tr' : List (Shared × Shared)}
variable {pin pin' : ReleaseDiffPin} {st st' : FillState} {includeValues : Bool}
variable {change : ReleaseDiffChange} {spent spent' : Nat}

omit [Authorization] in
theorem ReadInRun.mono {entry : ConfigurationReleaseEntry} {p : Parameter}
    (h : ReadInRun tr entry p) (hsub : tr ⊆ tr') : ReadInRun tr' entry p := by
  obtain ⟨x, hx, bound, hread⟩ := h
  exact ⟨x, hsub hx, bound, hread⟩

theorem Shown.mono (h : Shown ctx pr R tr includeValues spent change pin) (hsub : tr ⊆ tr')
    (hle : spent ≤ spent') : Shown ctx pr R tr' includeValues spent' change pin := by
  unfold Shown at h ⊢
  split at h
  · exact h
  · exact h.imp_right (fun ⟨p, hread, hv⟩ => ⟨p, hread.mono hsub, hv⟩)
  · obtain ⟨hv, hf, p, hread, hbig⟩ := h
    exact ⟨hv, hf, p, hread.mono hsub, hbig.imp_right (by omega)⟩
  · exact h
  · exact h
  · exact h
  · obtain ⟨hv, hc, hfail⟩ := h
    refine ⟨hv, hc, fun hk => (hfail hk).imp_right ?_⟩
    rintro ⟨w, w', tr₁, e, htr, hrun⟩
    exact ⟨w, w', tr₁, e, List.Subset.trans htr hsub, hrun⟩

theorem FilledPin.mono_rel {side side' : Option ReleaseDiffPin}
    (h : Option.Rel (FilledPin ctx pr R tr includeValues spent change) side side')
    (hsub : tr ⊆ tr') (hle : spent ≤ spent') :
    Option.Rel (FilledPin ctx pr R tr' includeValues spent' change) side side' := by
  cases h with
  | none => exact .none
  | some h => exact .some (h.imp_right (fun hs => hs.mono hsub hle))

theorem FilledRow.mono {row row' : ReleaseDiffRow}
    (h : FilledRow ctx pr R tr includeValues spent row row') (hsub : tr ⊆ tr')
    (hle : spent ≤ spent') : FilledRow ctx pr R tr' includeValues spent' row row' :=
  ⟨h.rest, FilledPin.mono_rel h.fromPin hsub hle, FilledPin.mono_rel h.toPin hsub hle⟩

omit [Authorization] in
theorem withSecret_keeps (pin : ReleaseDiffPin) (info : Option SecretInfo) :
    (pin.withSecret info).entry = pin.entry ∧ (pin.withSecret info).value = pin.value ∧
      ((pin.withSecret info).valueState = pin.valueState ∨
        (pin.withSecret info).valueState = .unavailable) := by
  unfold ReleaseDiffPin.withSecret
  repeat' split
  all_goals exact ⟨rfl, rfl, by first | exact .inl rfl | exact .inr rfl⟩

theorem fillReleaseDiffSecret_keeps {cache cache' : Ref → Option (Option SecretInfo)}
    (h : Runs R (fillReleaseDiffSecret ctx pr pin cache) w tr (pin', cache') w') :
    pin'.entry = pin.entry ∧ pin'.value = pin.value ∧
      (pin'.valueState = pin.valueState ∨ pin'.valueState = .unavailable) := by
  unfold fillReleaseDiffSecret at h
  split at h
  · obtain ⟨-, hout, -⟩ := runs_pure_iff.mp h
    cases hout
    exact withSecret_keeps pin _
  · obtain ⟨_, _, _, _, -, hrest, -⟩ := runs_bind_iff.mp h
    obtain ⟨-, hout, -⟩ := runs_pure_iff.mp hrest
    cases hout
    exact withSecret_keeps pin _

theorem fillReleaseDiffParameter_spec {budget budget' : Nat}
    (h : Runs R (fillReleaseDiffParameter ctx pr pin budget) w tr (pin', budget') w')
    (hempty : pin.value = "") (hfill : Fillable includeValues change pin)
    (hspent : releaseDiffValueBudgetBytes ≤ budget + spent) :
    FilledPin ctx pr R tr includeValues spent change pin pin' ∧
      pin'.value.utf8ByteSize + budget' = budget := by
  obtain ⟨tr₁, read, t, tr₂, hread, hrest, rfl⟩ := runs_bind_iff.mp h
  cases read with
  | error e =>
    obtain ⟨-, hout, -⟩ := runs_pure_iff.mp hrest
    cases hout
    refine ⟨⟨rfl, hempty, hfill.2.1, fun _ => ⟨hfill.2.2, ?_⟩⟩, by simp [hempty]⟩
    exact ⟨_, _, tr₁, e, List.subset_append_left .., hread⟩
  | ok p =>
    obtain ⟨-, hout, -⟩ := runs_pure_iff.mp hrest
    obtain ⟨trA, ⟨bound, _⟩, u, trB, -, hquery, rfl⟩ := flow_bind_ok_iff.mp hread
    obtain ⟨-, rfl, hp⟩ := flow_query_iff.mp hquery
    have hin : ReadInRun (trA ++ [(t, t)] ++ tr₂) pin.entry p :=
      ⟨(t, t), by simp, bound, hp.symm⟩
    unfold ReleaseDiffPin.withParameter at hout
    dsimp only at hout
    split at hout <;> cases hout
    · next hbig =>
      exact ⟨⟨rfl, hempty, hfill, p, hin, hbig.imp_right (by omega)⟩, by simp [hempty]⟩
    · next hfits =>
      refine ⟨⟨rfl, hfill, p, hin, rfl⟩, ?_⟩
      dsimp only
      omega

theorem fillPin_spec (h : Runs R (fillPin ctx pr includeValues change st pin) w tr (pin', st') w')
    (hempty : pin.value = "") (hspent : releaseDiffValueBudgetBytes ≤ st.budget + spent) :
    FilledPin ctx pr R tr includeValues spent change pin pin' ∧
      pin'.value.utf8ByteSize + st'.budget = st.budget := by
  unfold fillPin at h
  split_ifs at h with hkind hchange hchange hvalues
  -- secret は、値を読まない
  · obtain ⟨-, hout, -⟩ := runs_pure_iff.mp h
    cases hout
    exact ⟨⟨rfl, hempty, hkind⟩, by simp [hempty]⟩
  · obtain ⟨_, ⟨_, _⟩, _, _, hfill, hrest, rfl⟩ := runs_bind_iff.mp h
    obtain ⟨-, hout, -⟩ := runs_pure_iff.mp hrest
    cases hout
    obtain ⟨hentry, hvalue, hstate⟩ := fillReleaseDiffSecret_keeps hfill
    have hvalue' : pin'.value = "" := hvalue.trans hempty
    have hkind' : pin'.entry.kind = .secret := hentry ▸ hkind
    refine ⟨⟨hentry, ?_⟩, by simp [hvalue']⟩
    unfold Shown
    rcases hstate with hstate | hstate
    · rw [hstate]
      exact ⟨hvalue', hkind'⟩
    · rw [hstate]
      exact ⟨hvalue', hchange, fun hne => absurd hkind' hne⟩
  · obtain ⟨-, hout, -⟩ := runs_pure_iff.mp h
    cases hout
    exact ⟨⟨rfl, hempty, hkind, hchange⟩, by simp [hempty]⟩
  · obtain ⟨_, ⟨_, _⟩, _, _, hfill, hrest, rfl⟩ := runs_bind_iff.mp h
    obtain ⟨rfl, hout, -⟩ := runs_pure_iff.mp hrest
    cases hout
    rw [List.append_nil]
    exact fillReleaseDiffParameter_spec hfill hempty ⟨hkind, hchange, hvalues⟩ hspent
  · obtain ⟨-, hout, -⟩ := runs_pure_iff.mp h
    cases hout
    exact ⟨⟨rfl, hempty, hkind, Bool.eq_false_iff.mpr hvalues⟩, by simp [hempty]⟩

theorem fillSide_spec {side side' : Option ReleaseDiffPin}
    (h : Runs R (fillSide ctx pr includeValues change st side) w tr (side', st') w')
    (hempty : ∀ pin ∈ side.toList, pin.value = "")
    (hspent : releaseDiffValueBudgetBytes ≤ st.budget + spent) :
    Option.Rel (FilledPin ctx pr R tr includeValues spent change) side side' ∧
      valueBytesTotal side'.toList + st'.budget = st.budget := by
  cases side with
  | none =>
    obtain ⟨-, hout, -⟩ := runs_pure_iff.mp h
    cases hout
    exact ⟨.none, by simp [valueBytesTotal]⟩
  | some pin =>
    obtain ⟨_, ⟨pin', _⟩, _, _, hfill, hrest, rfl⟩ := runs_bind_iff.mp h
    obtain ⟨rfl, hout, -⟩ := runs_pure_iff.mp hrest
    cases hout
    obtain ⟨hshown, hle⟩ := fillPin_spec hfill (hempty pin (by simp)) hspent
    rw [List.append_nil]
    exact ⟨.some hshown, by simpa [valueBytesTotal] using hle⟩

theorem fillReleaseDiffPins_spec {rows filled : List ReleaseDiffRow}
    (h : Runs R (fillReleaseDiffPins ctx pr includeValues st rows) w tr filled w')
    (hempty : ∀ row ∈ rows, ∀ pin ∈ row.pins, pin.value = "")
    (hspent : releaseDiffValueBudgetBytes ≤ st.budget + spent) :
    List.Forall₂ (FilledRow ctx pr R tr includeValues
        (spent + valueBytesTotal (filled.flatMap (·.pins)))) rows filled ∧
      valueBytesTotal (filled.flatMap (·.pins)) ≤ st.budget := by
  induction rows generalizing st spent w tr filled w' with
  | nil =>
    obtain ⟨-, rfl, -⟩ := runs_pure_iff.mp h
    exact ⟨.nil, by simp [valueBytesTotal]⟩
  | cons row rows ih =>
    obtain ⟨trA, ⟨fromPin, stA⟩, _, _, hfrom, hA, rfl⟩ := runs_bind_iff.mp h
    obtain ⟨trB, ⟨toPin, stB⟩, _, _, hto, hB, rfl⟩ := runs_bind_iff.mp hA
    obtain ⟨trC, rest, _, _, hrest, hC, rfl⟩ := runs_bind_iff.mp hB
    obtain ⟨rfl, rfl, -⟩ := runs_pure_iff.mp hC
    have hrow := hempty row List.mem_cons_self
    obtain ⟨hshownA, hleA⟩ := fillSide_spec hfrom
      (fun pin hp => hrow pin (List.mem_append_left _ hp)) hspent
    have hspentB : releaseDiffValueBudgetBytes ≤
        stA.budget + (spent + valueBytesTotal fromPin.toList) := by omega
    obtain ⟨hshownB, hleB⟩ := fillSide_spec hto
      (fun pin hp => hrow pin (List.mem_append_right _ hp)) hspentB
    have hspentC : releaseDiffValueBudgetBytes ≤ stB.budget +
        (spent + valueBytesTotal fromPin.toList + valueBytesTotal toPin.toList) := by omega
    obtain ⟨hshownC, hleC⟩ := ih hrest
      (fun row hr => hempty row (List.mem_cons_of_mem _ hr)) hspentC
    have htotal : valueBytesTotal
          (({ row with fromPin, toPin } :: rest : List ReleaseDiffRow).flatMap (·.pins)) =
        valueBytesTotal fromPin.toList + valueBytesTotal toPin.toList +
          valueBytesTotal (rest.flatMap (·.pins)) := by
      simp only [valueBytesTotal, List.flatMap_cons, ReleaseDiffRow.pins, List.map_append,
        List.sum_append]
    rw [htotal]
    refine ⟨.cons ⟨rfl, ?_, ?_⟩ (hshownC.imp (fun _ _ hr => hr.mono ?_ ?_)), by omega⟩
    · exact FilledPin.mono_rel hshownA (by simp) (by omega)
    · exact FilledPin.mono_rel hshownB (by simp) (by omega)
    · simp
    · omega

end Fill

theorem computeReleaseDiff_empty {before after : ConfigurationRelease} {crossEnvironment : Bool}
    {row : ReleaseDiffRow} (h : row ∈ computeReleaseDiff before after crossEnvironment)
    {pin : ReleaseDiffPin} (hp : pin ∈ row.pins) : pin.value = "" := by
  obtain ⟨a, -, rfl⟩ := List.mem_map.mp h
  unfold diffRow at hp
  split at hp
  all_goals
    simp only [ReleaseDiffRow.pins, List.mem_append, Option.mem_toList,
      Option.map_eq_some_iff, Option.some.injEq, reduceCtorEq, false_or, or_false] at hp
  · obtain ⟨e, -, rfl⟩ := hp
    rfl
  · rw [← hp]
  · rcases hp with rfl | rfl <;> rfl

/--
**release の比較は正確で、入れ替えに反対称であり、埋める値は予算に収まる。**

埋めた行は比べた行と一つずつ対応し、どの pin の値も、読んだ全体であるか、載せない訳が記される。
-/
theorem computeReleaseDiff_exact [Authorization] (before after : ConfigurationRelease)
    (crossEnvironment : Bool) :
    ((computeReleaseDiff before after crossEnvironment).map (·.rowAlias)).Pairwise (· < ·) ∧
    (∀ a, a ∈ (computeReleaseDiff before after crossEnvironment).map (·.rowAlias) ↔
      a ∈ releaseAliases before ∨ a ∈ releaseAliases after) ∧
    (∀ row ∈ computeReleaseDiff before after crossEnvironment,
      Classified before after crossEnvironment row) ∧
    List.Forall₂ Swapped (computeReleaseDiff before after crossEnvironment)
      (computeReleaseDiff after before crossEnvironment) ∧
    (∀ rows, (releaseDiffCounts rows).total = rows.length) ∧
    ∀ (ctx : Ctx) (pr : Principal) (includeValues : Bool) (R : Shared → Shared → Prop)
        w tr filled w',
      Runs R (fillReleaseDiffPins ctx pr includeValues {}
        (computeReleaseDiff before after crossEnvironment)) w tr filled w' →
      List.Forall₂ (FilledRow ctx pr R tr includeValues (valueBytesTotal (filled.flatMap (·.pins))))
        (computeReleaseDiff before after crossEnvironment) filled ∧
      valueBytesTotal (filled.flatMap (·.pins)) ≤ releaseDiffValueBudgetBytes := by
  have haliases : (computeReleaseDiff before after crossEnvironment).map (·.rowAlias) =
      diffAliases before after := by
    rw [computeReleaseDiff, List.map_map]
    refine List.map_id'' (fun a => ?_) _
    unfold diffRow
    dsimp only [Function.comp]
    split <;> rfl
  refine ⟨?_, ?_, fun _ => classified, swapped_computeReleaseDiff .., fun rows => ?_, ?_⟩
  · rw [haliases]
    exact diffAliases_strict before after
  · intro a
    rw [haliases, diffAliases, (ordered_perm _).mem_iff, mem_unionAliases]
  · rw [releaseDiffCounts, total_foldl_countRow]
    exact Nat.zero_add _
  · intro ctx pr includeValues R w tr filled w' h
    have hspent : releaseDiffValueBudgetBytes ≤ releaseDiffValueBudgetBytes + 0 := le_rfl
    have hspec := fillReleaseDiffPins_spec h (fun row hr pin => computeReleaseDiff_empty hr) hspent
    rwa [Nat.zero_add] at hspec

section Sample

local instance diffHashing : Hashing := ⟨id, fun p => p.diagnostic⟩

local instance diffAuthorization : Authorization :=
  ⟨fun _ _ _ => true, fun _ _ => "", fun _ _ _ _ => true⟩

/-- parameter を二度書いた store。 -/
private def sampleDiffStore : Store :=
  run step Store.empty
    [⟨sampleRequest, .createNamespace sampleNamespace⟩,
      ⟨sampleRequest, .parameter (.put ⟨sampleNamespace, "limit"⟩ "5" "json" "" "ops" false false)⟩,
      ⟨sampleRequest,
        .parameter (.put ⟨sampleNamespace, "limit"⟩ "70" "json" "" "ops" false false)⟩]

/-- その parameter の version を指す release。 -/
private def samplePinned (version : Nat) (digest : String) : ConfigurationRelease :=
  { sampleRelease with
    version
    entries := [{ entryAlias := "limit", kind := .parameter, ref := ⟨sampleNamespace, "limit"⟩
                  version, resourceNamespaceID := 0, contentType := "json", metadata := ""
                  parameterDigest := digest }] }

private def sampleFill : Prog Shared (List ReleaseDiffRow) :=
  fillReleaseDiffPins Ctx.empty ⟨"ops", true, "token"⟩ true {}
    (computeReleaseDiff (samplePinned 1 "5") (samplePinned 2 "70") false)

/-- 違う version を指す二つの release を比べ、両側の値を載せる。 -/
theorem computeReleaseDiff_exact_sample :
    ((sampleFill.alone ⟨sampleDiffStore, 2⟩).2.1.map (fun row =>
      (row.change, row.pins.map (fun pin => (pin.valueState, pin.value))))) =
        [(.changed, [(.present, "5"), (.present, "70")])] ∧
      List.Forall₂ (FilledRow Ctx.empty ⟨"ops", true, "token"⟩ (fun a b => a = b)
          (sampleFill.alone ⟨sampleDiffStore, 2⟩).1 true
          (valueBytesTotal ((sampleFill.alone ⟨sampleDiffStore, 2⟩).2.1.flatMap (·.pins))))
        (computeReleaseDiff (samplePinned 1 "5") (samplePinned 2 "70") false)
        (sampleFill.alone ⟨sampleDiffStore, 2⟩).2.1 := by
  refine ⟨by decide +kernel, ?_⟩
  obtain ⟨-, -, -, -, -, hfill⟩ :=
    computeReleaseDiff_exact (samplePinned 1 "5") (samplePinned 2 "70") false
  exact (hfill _ _ _ _ _ _ _ _ (runs_alone (fun _ => rfl) sampleFill ⟨sampleDiffStore, 2⟩)).1

end Sample

end Kms.Core
