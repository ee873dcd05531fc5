import Kms.Storage.Releases

/-!
# parameter

`internal/storage/parameters.go` の書き込みと削除を写す。version は追記だけで、
書き換えられることはない。

* `putParameter_ok_cases` — 既存の parameter と version はそのまま残る
* `deleteParameterTx_ok_cases` — 保護された release が指す parameter は消えない
-/

namespace Kms.Storage

open Kms.Infra

/-! ## 書き込み -/

/-- parameter の行の content type と metadata を書き換える。 -/
def touchParameter (t : AutoTable ParameterModel.id ParameterModel.key) (id : Nat)
    (contentType metadata : String) : AutoTable ParameterModel.id ParameterModel.key :=
  t.updateWhere (fun m => decide (m.id = id))
    (fun m => { m with contentType, metadataJSON := metadata })

theorem get_touchParameter {t : AutoTable ParameterModel.id ParameterModel.key} {id : Nat}
    {contentType metadata : String} {k : Nat × String} {p : ParameterModel}
    (hp : t.get k = some p) :
    ∃ p', (touchParameter t id contentType metadata).get k = some p' ∧ p'.id = p.id := by
  rw [touchParameter, AutoTable.get_updateWhere, hp, Option.map_some]
  · refine ⟨_, rfl, ?_⟩
    split <;> rfl
  all_goals exact fun _ => rfl

/-- parameter の行を用意する。返り値は id、version に書く metadata、新しい表。 -/
def ensureParameter (s : Store) (nsID : Nat) (ref : Ref) (contentType metadata : String)
    (createOnly preserveMetadata : Bool) :
    Except Err (Nat × String × AutoTable ParameterModel.id ParameterModel.key) :=
  match s.parameters.get (nsID, ref.key) with
  | none => do
    let parameters ← orThrow
      (s.parameters.insert? (fun id => ⟨id, nsID, ref.key, contentType, metadata⟩) (fun _ => rfl))
      (.alreadyExists s!"parameter {ref}")
    pure (s.parameters.seq + 1, metadata, parameters)
  | some p => do
    require (createOnly = false) (.alreadyExists s!"parameter {ref}")
    let metadata := if preserveMetadata then p.metadataJSON else metadata
    pure (p.id, metadata, touchParameter s.parameters p.id contentType metadata)

def maxParameterVersion (s : Store) (parameterID : Nat) : Nat :=
  ((s.parameterVersions.rows.filter (fun m => decide (m.parameterID = parameterID))).map
    (·.versionNumber)).foldr max 0

/-- 書き込み後の label。古い current は previous になる。 -/
def putParameterLabels (s : Store) (parameterID newVer : Nat) :
    Table ParameterLabelModel.key :=
  let labels := s.parameterLabels.upsert ⟨parameterID, .current, newVer⟩
  match s.parameterLabels.get (parameterID, .current) with
  | some old =>
    if old.versionNumber ≠ newVer then
      labels.upsert ⟨parameterID, .previous, old.versionNumber⟩
    else labels
  | none => labels

/-- `putParameterWithModeTx`。返り値は version と revision。 -/
def putParameter (rq : Request) (s : Store) (ref : Ref)
    (value contentType metadata createdBy : String) (createOnly preserveMetadata : Bool) :
    Except Err ((Nat × Nat) × Store) := do
  let contentType := zeroOr contentType "string"
  let metadata := zeroOr metadata "\x7b\x7d"
  let nsID ← resolveNamespaceID rq s ref.ns
  let (id, metadata, parameters) ←
    ensureParameter s nsID ref contentType metadata createOnly preserveMetadata
  let newVer := maxParameterVersion s id + 1
  let parameterVersions ← orThrow
    (s.parameterVersions.insert? ⟨id, newVer, value, contentType, metadata, createdBy⟩)
    (.alreadyExists s!"parameter {ref} version {newVer}")
  let parameterLabels := putParameterLabels s id newVer
  let (rev, s) := appendChange rq { s with parameters, parameterVersions, parameterLabels } nsID
    { resourceType := .parameter, ref, changeType := .put, value := some value, contentType,
      versionNumber := newVer, label := some .current }
  pure ((newVer, rev), s)

/-- 行の用意は既存の parameter の id を変えない。 -/
theorem ensureParameter_keeps {s : Store} {nsID : Nat} {ref : Ref} {contentType metadata : String}
    {createOnly preserveMetadata : Bool} {id : Nat} {metadata' : String}
    {t : AutoTable ParameterModel.id ParameterModel.key}
    (h : ensureParameter s nsID ref contentType metadata createOnly preserveMetadata =
      .ok (id, metadata', t)) {k : Nat × String} {p : ParameterModel}
    (hp : s.parameters.get k = some p) : ∃ p', t.get k = some p' ∧ p'.id = p.id := by
  unfold ensureParameter at h
  cases hg : s.parameters.get (nsID, ref.key) with
  | none =>
    simp only [hg, bind_eq_ok_iff, orThrow_eq_ok_iff, pure_eq_ok_iff] at h
    obtain ⟨t', ht', heq⟩ := h
    cases heq
    refine ⟨p, ?_, rfl⟩
    rw [AutoTable.get_insert? ht', if_neg, hp]
    rintro rfl
    exact absurd (hg.symm.trans hp) (by simp)
  | some q =>
    simp only [hg, bind_eq_ok_iff, pure_eq_ok_iff] at h
    obtain ⟨_, _, heq⟩ := h
    cases heq
    exact get_touchParameter hp

theorem putParameter_ok_cases {rq : Request} {s s' : Store} {ref : Ref}
    {value contentType metadata createdBy : String} {createOnly preserveMetadata : Bool}
    {out : Nat × Nat}
    (h : putParameter rq s ref value contentType metadata createdBy createOnly preserveMetadata =
      .ok (out, s')) :
    ∃ parameters versions labels nsID entry,
      (∀ k p, s.parameters.get k = some p → ∃ p', parameters.get k = some p' ∧ p'.id = p.id) ∧
      (∀ k v, s.parameterVersions.get k = some v → versions.get k = some v) ∧
      s' = { s with
        parameters := parameters
        parameterVersions := versions
        parameterLabels := labels
        changeLog := logChange s.changeLog entry nsID rq.now } := by
  simp only [putParameter, bind_eq_ok_iff, orThrow_eq_ok_iff, pure_eq_ok_iff, appendChange] at h
  obtain ⟨nsID, _, ⟨id, md, t⟩, ht, versions, hv, heq⟩ := h
  cases heq
  exact ⟨t, versions, _, nsID, _, fun k p hp => ensureParameter_keeps ht hp,
    fun k v hk => Table.get_insert?_of_some hv hk, rfl⟩

/-! ## 削除 -/

def findParameter (rq : Request) (s : Store) (ref : Ref) : Except Err ParameterModel := do
  let nsID ← resolveNamespaceID rq s ref.ns
  orThrow (s.parameters.get (nsID, ref.key)) (.notFound s!"parameter {ref}")

def deleteParameterTx (rq : Request) (s : Store) (ref : Ref) : Except Err (Nat × Store) := do
  let p ← findParameter rq s ref
  rejectProtectedReleaseReference rq s ref .parameter 0
  let parameterLabels := s.parameterLabels.deleteWhere (fun m => decide (m.parameterID = p.id))
  let parameterVersions := s.parameterVersions.deleteWhere (fun m => decide (m.parameterID = p.id))
  let parameters := s.parameters.deleteWhere (fun m => decide (m.id = p.id))
  pure (appendChange rq { s with parameters, parameterVersions, parameterLabels } p.namespaceID
    { resourceType := .parameter, ref, changeType := .delete })

theorem deleteParameterTx_ok_cases {rq : Request} {s s' : Store} {ref : Ref} {rev : Nat}
    (h : deleteParameterTx rq s ref = .ok (rev, s')) :
    ∃ nsID p entry, resolveNamespaceID rq s ref.ns = .ok nsID ∧
      s.parameters.get (nsID, ref.key) = some p ∧
      rejectProtectedReleaseReference rq s ref .parameter 0 = .ok () ∧
      s' = { s with
        parameters := s.parameters.deleteWhere (fun m => decide (m.id = p.id))
        parameterVersions :=
          s.parameterVersions.deleteWhere (fun m => decide (m.parameterID = p.id))
        parameterLabels := s.parameterLabels.deleteWhere (fun m => decide (m.parameterID = p.id))
        changeLog := logChange s.changeLog entry p.namespaceID rq.now } := by
  simp only [deleteParameterTx, findParameter, bind_eq_ok_iff, orThrow_eq_ok_iff, pure_eq_ok_iff,
    appendChange] at h
  obtain ⟨p, ⟨nsID, hns, hp⟩, _, hrej, heq⟩ := h
  cases heq
  exact ⟨nsID, p, _, hns, hp, hrej, rfl⟩

end Kms.Storage
