import Mathlib.Data.List.Nodup

/-!
# 一意 key を持つ表

SQL の表を「行の list と key の一意性」で持つ。一意性は field に持たせるので、
UNIQUE 制約に反する表は作れない。操作は SQL 文に対応する。

* `insert?` — INSERT。key が既にあれば `none`
* `insertIgnore` — INSERT ... ON CONFLICT DO NOTHING
* `upsert` — INSERT ... ON CONFLICT DO UPDATE
* `updateWhere` — UPDATE ... WHERE
* `deleteWhere` — DELETE ... WHERE

`le_foldr_max` と `foldr_max_mem` は MAX の集約に使う。各操作には `mem_` の補題 (どの行が残るか) と
`get_` の補題 (key で引くと何が返るか) を付ける。利用側は定義を開かず、この二系統だけで推論する。
-/

namespace Kms.Infra

universe u v

/-- key が一意な行の集まり。 -/
structure Table {α : Type u} {κ : Type v} (key : α → κ) where
  rows : List α
  nodup : (rows.map key).Nodup

namespace Table

variable {α : Type u} {κ : Type v} {key : α → κ}

def empty : Table key := ⟨[], List.nodup_nil⟩

instance : Membership α (Table key) := ⟨fun t r => r ∈ t.rows⟩

variable {t : Table key} {r : α}

theorem mem_def : r ∈ t ↔ r ∈ t.rows := Iff.rfl

@[simp] theorem not_mem_empty (r : α) : r ∉ (empty : Table key) := List.not_mem_nil

theorem eq_of_key_eq {r' : α} (h : r ∈ t) (h' : r' ∈ t) (hk : key r = key r') : r = r' :=
  List.inj_on_of_nodup_map t.nodup h h' hk

/-! ## 検索 -/

section Get

variable [DecidableEq κ]

def get (t : Table key) (k : κ) : Option α :=
  t.rows.find? (fun r => decide (key r = k))

variable {t : Table key} {k : κ} {r : α}

theorem get_eq_some_iff : t.get k = some r ↔ r ∈ t ∧ key r = k := by
  constructor
  · intro h
    exact ⟨List.mem_of_find?_eq_some h, by simpa using List.find?_some h⟩
  · rintro ⟨hr, hk⟩
    cases hg : t.get k with
    | none =>
      have hnone := List.find?_eq_none.mp hg r hr
      simp [hk] at hnone
    | some r' =>
      have hr' : r' ∈ t := List.mem_of_find?_eq_some hg
      have hk' : key r' = k := by simpa using List.find?_some hg
      rw [eq_of_key_eq hr' hr (hk'.trans hk.symm)]

theorem get_eq_none_iff : t.get k = none ↔ ∀ r ∈ t, key r ≠ k := by
  unfold get
  rw [List.find?_eq_none]
  constructor
  all_goals
    intro h r hr
    simpa using h r hr

theorem mem_of_get (h : t.get k = some r) : r ∈ t :=
  (get_eq_some_iff.mp h).1

theorem key_of_get (h : t.get k = some r) : key r = k :=
  (get_eq_some_iff.mp h).2

theorem get_of_mem (h : r ∈ t) : t.get (key r) = some r :=
  get_eq_some_iff.mpr ⟨h, rfl⟩

theorem filter_key (t : Table key) (k : κ) :
    t.rows.filter (fun r => decide (key r = k)) = (t.get k).toList := by
  cases hg : t.get k with
  | none =>
    rw [Option.toList_none, List.filter_eq_nil_iff]
    intro r hr
    simpa using get_eq_none_iff.mp hg r hr
  | some r =>
    have hnodup : (t.rows.filter (fun r => decide (key r = k))).Nodup :=
      (List.Nodup.of_map key t.nodup).filter _
    refine List.perm_singleton.mp
      ((List.perm_ext_iff_of_nodup hnodup (List.nodup_singleton r)).mpr ?_)
    intro x
    rw [List.mem_filter, List.mem_singleton, decide_eq_true_eq]
    constructor
    · rintro ⟨hx, hk⟩
      exact eq_of_key_eq hx (mem_of_get hg) (hk.trans (key_of_get hg).symm)
    · rintro rfl
      exact ⟨mem_of_get hg, key_of_get hg⟩

/-- 二つの表が key ごとに同じ行を返すための十分条件。 -/
theorem get_congr {t' : Table key}
    (h : ∀ r, key r = k → (r ∈ t ↔ r ∈ t')) : t.get k = t'.get k := by
  cases hg : t'.get k with
  | none =>
    rw [get_eq_none_iff] at hg ⊢
    intro r hr hk
    exact hg r ((h r hk).mp hr) hk
  | some r =>
    rw [get_eq_some_iff] at hg ⊢
    exact ⟨(h r hg.2).mpr hg.1, hg.2⟩

end Get

/-! ## DELETE -/

def deleteWhere (t : Table key) (p : α → Bool) : Table key where
  rows := t.rows.filter (fun r => !p r)
  nodup := t.nodup.sublist (List.filter_sublist.map key)

@[simp] theorem mem_deleteWhere {p : α → Bool} : r ∈ t.deleteWhere p ↔ r ∈ t ∧ p r = false := by
  simp [deleteWhere, mem_def]

section Write

variable [DecidableEq κ]

variable {t t' : Table key} {r x : α}

theorem get_deleteWhere {p : α → Bool} {k : κ} :
    (t.deleteWhere p).get k = (t.get k).filter (fun r => !p r) := by
  cases hg : t.get k with
  | none =>
    rw [get_eq_none_iff] at hg
    rw [Option.filter_none, get_eq_none_iff]
    intro r hr
    exact hg r (mem_deleteWhere.mp hr).1
  | some r =>
    obtain ⟨hr, hk⟩ := get_eq_some_iff.mp hg
    cases hp : p r with
    | false =>
      rw [Option.filter_some_pos (by simp [hp]), get_eq_some_iff]
      exact ⟨mem_deleteWhere.mpr ⟨hr, hp⟩, hk⟩
    | true =>
      rw [Option.filter_some_neg (by simp [hp]), get_eq_none_iff]
      intro r' hr' hk'
      obtain ⟨hm, hp'⟩ := mem_deleteWhere.mp hr'
      rw [eq_of_key_eq hm hr (hk'.trans hk.symm), hp] at hp'
      cases hp'

/-! ## UPDATE -/

def updateWhere (t : Table key) (p : α → Bool) (f : α → α) : Table key where
  rows := t.rows.map (fun r => if p r && decide (key (f r) = key r) then f r else r)
  nodup := by
    have hkey : key ∘ (fun r => if p r && decide (key (f r) = key r) then f r else r) = key := by
      funext r
      show key (if p r && decide (key (f r) = key r) then f r else r) = key r
      split
      · next h =>
        simp only [Bool.and_eq_true, decide_eq_true_eq] at h
        exact h.2
      · rfl
    rw [List.map_map, hkey]
    exact t.nodup

section Update

variable {t : Table key} {p : α → Bool} {f : α → α}

theorem mem_updateWhere (hf : ∀ r, key (f r) = key r) {r : α} :
    r ∈ t.updateWhere p f ↔ ∃ r₀ ∈ t, (if p r₀ then f r₀ else r₀) = r := by
  simp [updateWhere, mem_def, hf]

theorem get_updateWhere (hf : ∀ r, key (f r) = key r) {k : κ} :
    (t.updateWhere p f).get k = (t.get k).map (fun r => if p r then f r else r) := by
  have hkey : ∀ r, key (if p r then f r else r) = key r := by
    intro r
    split
    · exact hf r
    · rfl
  cases hg : t.get k with
  | none =>
    rw [get_eq_none_iff] at hg
    rw [Option.map_none, get_eq_none_iff]
    intro r hr
    obtain ⟨r₀, hr₀, rfl⟩ := (mem_updateWhere hf).mp hr
    rw [hkey]
    exact hg r₀ hr₀
  | some r =>
    obtain ⟨hr, hk⟩ := get_eq_some_iff.mp hg
    rw [Option.map_some, get_eq_some_iff]
    exact ⟨(mem_updateWhere hf).mpr ⟨r, hr, rfl⟩, by rw [hkey, hk]⟩

theorem updateWhere_congr {g : α → α} (h : ∀ r ∈ t, p r = true → f r = g r) :
    t.updateWhere p f = t.updateWhere p g := by
  unfold updateWhere
  congr 1
  refine List.map_congr_left (fun r hr => ?_)
  cases hp : p r with
  | false => rfl
  | true => rw [h r hr hp]

end Update

/-! ## INSERT -/

def insert? (t : Table key) (r : α) : Option (Table key) :=
  if h : t.get (key r) = none then
    some
      { rows := t.rows ++ [r]
        nodup := by
          rw [List.map_append, List.map_singleton]
          refine List.nodup_append.mpr ⟨t.nodup, List.nodup_singleton _, ?_⟩
          intro k hk k' hk' he
          obtain ⟨r', hr', rfl⟩ := List.mem_map.mp hk
          rw [List.mem_singleton.mp hk'] at he
          exact get_eq_none_iff.mp h r' hr' he }
  else none

theorem insert?_eq_some_iff :
    t.insert? r = some t' ↔ t.get (key r) = none ∧ t'.rows = t.rows ++ [r] := by
  unfold insert?
  split
  · next h =>
    simp only [Option.some.injEq, h, true_and]
    constructor
    · rintro rfl; rfl
    · intro hr; cases t'; cases hr; rfl
  · next h => simp [h]

theorem insert?_eq_none_iff : t.insert? r = none ↔ t.get (key r) ≠ none := by
  unfold insert?
  split <;> next h => simp [h]

theorem mem_insert? (h : t.insert? r = some t') : x ∈ t' ↔ x ∈ t ∨ x = r := by
  rw [mem_def, (insert?_eq_some_iff.mp h).2, List.mem_append, List.mem_singleton, mem_def]

theorem get_insert? (h : t.insert? r = some t') (k : κ) :
    t'.get k = if key r = k then some r else t.get k := by
  split
  · next hk => exact get_eq_some_iff.mpr ⟨(mem_insert? h).mpr (Or.inr rfl), hk⟩
  · next hk =>
    refine get_congr (fun x hx => ?_)
    rw [mem_insert? h]
    constructor
    · rintro (hm | rfl)
      · exact hm
      · exact absurd hx hk
    · exact Or.inl

theorem get_insert?_of_some (h : t.insert? r = some t') {k : κ}
    (hx : t.get k = some x) : t'.get k = some x := by
  rw [get_insert? h, if_neg, hx]
  rintro rfl
  exact absurd ((insert?_eq_some_iff.mp h).1.symm.trans hx) (by simp)

def insertIgnore (t : Table key) (r : α) : Table key := (t.insert? r).getD t

theorem mem_insertIgnore : x ∈ t.insertIgnore r ↔ x ∈ t ∨ (x = r ∧ t.get (key r) = none) := by
  unfold insertIgnore
  cases h : t.insert? r with
  | none => simp [insert?_eq_none_iff.mp h]
  | some t' => simp [mem_insert? h, (insert?_eq_some_iff.mp h).1]

theorem get_insertIgnore (k : κ) :
    (t.insertIgnore r).get k = if key r = k then some ((t.get k).getD r) else t.get k := by
  unfold insertIgnore
  cases h : t.insert? r with
  | none =>
    have hne := insert?_eq_none_iff.mp h
    split
    · next hk =>
      subst hk
      obtain ⟨x, hx⟩ := Option.ne_none_iff_exists'.mp hne
      simp [hx]
    · rfl
  | some t' =>
    rw [Option.getD_some, get_insert? h]
    split
    · next hk =>
      subst hk
      rw [(insert?_eq_some_iff.mp h).1]; rfl
    · rfl

def upsert (t : Table key) (r : α) : Table key :=
  ((t.deleteWhere (fun x => decide (key x = key r))).insert? r).getD t

theorem upsert_insert? (t : Table key) (r : α) :
    ∃ t', (t.deleteWhere (fun x => decide (key x = key r))).insert? r = some t' ∧
      t.upsert r = t' := by
  cases h : (t.deleteWhere (fun x => decide (key x = key r))).insert? r with
  | none =>
    refine absurd ?_ (insert?_eq_none_iff.mp h)
    rw [get_eq_none_iff]
    intro x hx
    simpa using (mem_deleteWhere.mp hx).2
  | some t' => exact ⟨t', rfl, by rw [upsert, h]; rfl⟩

theorem mem_upsert : x ∈ t.upsert r ↔ x = r ∨ (x ∈ t ∧ key x ≠ key r) := by
  obtain ⟨t', h, he⟩ := upsert_insert? t r
  rw [he, mem_insert? h, mem_deleteWhere, or_comm]
  simp

theorem get_upsert (k : κ) : (t.upsert r).get k = if key r = k then some r else t.get k := by
  split
  · next hk => exact get_eq_some_iff.mpr ⟨mem_upsert.mpr (Or.inl rfl), hk⟩
  · next hk =>
    refine get_congr (fun x hx => ?_)
    rw [mem_upsert]
    constructor
    · rintro (rfl | hm)
      · exact absurd hx hk
      · exact hm.1
    · exact fun hm => Or.inr ⟨hm, fun he => hk (he.symm.trans hx)⟩

end Write

end Table

/-! ## MAX -/

theorem le_foldr_max {l : List Nat} {a : Nat} (h : a ∈ l) : a ≤ l.foldr max 0 := by
  induction l with
  | nil => cases h
  | cons b l ih =>
    rcases List.mem_cons.mp h with rfl | h
    · exact Nat.le_max_left ..
    · exact Nat.le_trans (ih h) (Nat.le_max_right ..)

theorem foldr_max_mem {l : List Nat} (h : l.foldr max 0 ≠ 0) : l.foldr max 0 ∈ l := by
  induction l with
  | nil => exact absurd rfl h
  | cons b l ih =>
    rw [List.foldr_cons] at h ⊢
    rcases Nat.le_total b (l.foldr max 0) with hle | hle
    · rw [Nat.max_eq_right hle] at h ⊢
      exact List.mem_cons_of_mem b (ih h)
    · rw [Nat.max_eq_left hle]
      exact List.mem_cons_self ..

end Kms.Infra
