import Kms.Infra.Table

/-!
# 採番付きの表と追記 log

AUTOINCREMENT の id を持つ表と、採番順に並ぶ追記 log を置く。
採番の高水位 `seq` は行を消しても下がらないので、id は再利用されない。

* `AutoTable` — id と一意 key の両方を持つ表
* `Journal` — 採番順に並んだ追記専用の log。行の削除は途中の抜けを作ってよい
-/

namespace Kms.Infra

universe u v

/-! ## id を採番する表 -/

structure AutoTable {α : Type u} {κ : Type v} (id : α → Nat) (key : α → κ) where
  table : Table key
  seq : Nat
  id_le : ∀ r ∈ table, id r ≤ seq
  id_inj : ∀ r ∈ table, ∀ r' ∈ table, id r = id r' → r = r'

namespace AutoTable

variable {α : Type u} {κ : Type v} {id : α → Nat} {key : α → κ}

def empty : AutoTable id key :=
  ⟨Table.empty, 0, fun r hr => absurd hr (Table.not_mem_empty r),
    fun r hr => absurd hr (Table.not_mem_empty r)⟩

instance : Membership α (AutoTable id key) := ⟨fun t r => r ∈ t.table⟩

variable {t : AutoTable id key} {r : α}

theorem mem_def : r ∈ t ↔ r ∈ t.table := Iff.rfl

@[simp] theorem not_mem_empty (r : α) : r ∉ (empty : AutoTable id key) :=
  Table.not_mem_empty r

def byId (t : AutoTable id key) (i : Nat) : Option α :=
  t.table.rows.find? (fun r => decide (id r = i))

theorem byId_eq_some_iff {i : Nat} : t.byId i = some r ↔ r ∈ t ∧ id r = i := by
  constructor
  · intro h
    exact ⟨List.mem_of_find?_eq_some h, by simpa using List.find?_some h⟩
  · rintro ⟨hr, hi⟩
    cases hg : t.byId i with
    | none =>
      have hnone := List.find?_eq_none.mp hg r hr
      simp [hi] at hnone
    | some r' =>
      have hr' : r' ∈ t := List.mem_of_find?_eq_some hg
      have hi' : id r' = i := by simpa using List.find?_some hg
      rw [t.id_inj r' hr' r hr (hi'.trans hi.symm)]

theorem byId_of_mem (h : r ∈ t) : t.byId (id r) = some r :=
  byId_eq_some_iff.mpr ⟨h, rfl⟩

/-- 条件に合う行を消す。採番は戻らない。 -/
def deleteWhere (t : AutoTable id key) (p : α → Bool) : AutoTable id key where
  table := t.table.deleteWhere p
  seq := t.seq
  id_le := fun r hr => t.id_le r (Table.mem_deleteWhere.mp hr).1
  id_inj := fun r hr r' hr' =>
    t.id_inj r (Table.mem_deleteWhere.mp hr).1 r' (Table.mem_deleteWhere.mp hr').1

@[simp] theorem mem_deleteWhere {p : α → Bool} :
    r ∈ t.deleteWhere p ↔ r ∈ t ∧ p r = false := Table.mem_deleteWhere

section Write

variable [DecidableEq κ]

variable {t t' : AutoTable id key} {p : α → Bool} {f : α → α} {r : α} {k : κ} {mk : Nat → α}

theorem updated_of_mem {t : Table key}
    (hr : r ∈ t.updateWhere (fun r => p r && decide (id (f r) = id r)) f) :
    ∃ r₀ ∈ t, id r = id r₀ ∧ r = if p r₀ && decide (id (f r₀) = id r₀) &&
      decide (key (f r₀) = key r₀) then f r₀ else r₀ := by
  obtain ⟨r₀, hr₀, rfl⟩ := List.mem_map.mp hr
  refine ⟨r₀, hr₀, ?_, rfl⟩
  split
  · next h =>
    simp only [Bool.and_eq_true, decide_eq_true_eq] at h
    exact h.1.2
  · rfl

def get (t : AutoTable id key) (k : κ) : Option α := t.table.get k

theorem mem_of_get (h : t.get k = some r) : r ∈ t :=
  Table.mem_of_get h

theorem key_of_get (h : t.get k = some r) :
    key r = k := Table.key_of_get h

theorem get_deleteWhere :
    (t.deleteWhere p).get k = (t.get k).filter (fun r => !p r) := Table.get_deleteWhere

/-- 条件に合う行を書き換える。id か key を変える書き換えは行わない。 -/
def updateWhere (t : AutoTable id key) (p : α → Bool) (f : α → α) : AutoTable id key where
  table := t.table.updateWhere (fun r => p r && decide (id (f r) = id r)) f
  seq := t.seq
  id_le := by
    intro r hr
    obtain ⟨r₀, hr₀, hid, rfl⟩ := updated_of_mem hr
    rw [hid]
    exact t.id_le r₀ hr₀
  id_inj := by
    intro r hr r' hr' he
    obtain ⟨r₀, hr₀, hid₀, rfl⟩ := updated_of_mem hr
    obtain ⟨r₁, hr₁, hid₁, rfl⟩ := updated_of_mem hr'
    rw [hid₀, hid₁] at he
    rw [t.id_inj r₀ hr₀ r₁ hr₁ he]

theorem mem_updateWhere (hid : ∀ r, id (f r) = id r) (hf : ∀ r, key (f r) = key r) :
    r ∈ t.updateWhere p f ↔ ∃ r₀ ∈ t, (if p r₀ then f r₀ else r₀) = r := by
  rw [mem_def, updateWhere, Table.mem_updateWhere hf]
  simp [hid, mem_def]

theorem get_updateWhere (hid : ∀ r, id (f r) = id r) (hf : ∀ r, key (f r) = key r) :
    (t.updateWhere p f).get k = (t.get k).map (fun r => if p r then f r else r) := by
  rw [get, updateWhere, Table.get_updateWhere hf]
  simp [hid, get]

/-- 次の id を採番して一行を足す。key が既にあれば `none`。 -/
def insert? (t : AutoTable id key) (mk : Nat → α) (hmk : ∀ n, id (mk n) = n) :
    Option (AutoTable id key) :=
  match h : t.table.insert? (mk (t.seq + 1)) with
  | none => none
  | some t' => some
      { table := t'
        seq := t.seq + 1
        id_le := by
          intro r hr
          rcases (Table.mem_insert? h).mp hr with hr | rfl
          · exact Nat.le_succ_of_le (t.id_le r hr)
          · exact Nat.le_of_eq (hmk _)
        id_inj := by
          intro r hr r' hr' he
          rcases (Table.mem_insert? h).mp hr with hr | rfl <;>
            rcases (Table.mem_insert? h).mp hr' with hr' | rfl
          · exact t.id_inj r hr r' hr' he
          · have hle := t.id_le r hr
            rw [he, hmk] at hle
            omega
          · have hle := t.id_le r' hr'
            rw [← he, hmk] at hle
            omega
          · rfl }

theorem insert?_table {hmk : ∀ n, id (mk n) = n} (h : t.insert? mk hmk = some t') :
    t.table.insert? (mk (t.seq + 1)) = some t'.table ∧ t'.seq = t.seq + 1 := by
  unfold insert? at h
  split at h
  · cases h
  · next t₁ h₁ =>
    cases h
    exact ⟨h₁, rfl⟩

theorem mem_insert? {hmk : ∀ n, id (mk n) = n} (h : t.insert? mk hmk = some t') {x : α} :
    x ∈ t' ↔ x ∈ t ∨ x = mk (t.seq + 1) :=
  Table.mem_insert? (insert?_table h).1

theorem get_insert? {hmk : ∀ n, id (mk n) = n} (h : t.insert? mk hmk = some t') (k : κ) :
    t'.get k = if key (mk (t.seq + 1)) = k then some (mk (t.seq + 1)) else t.get k :=
  Table.get_insert? (insert?_table h).1 k

end Write

end AutoTable

/-! ## 追記 log -/

theorem le_getLast_of_sorted {α : Type u} {rev : α → Nat} {l : List α}
    (hsorted : l.Pairwise (fun a b => rev a < rev b)) {x last : α}
    (hlast : l.getLast? = some last) (hx : x ∈ l) : rev x ≤ rev last := by
  obtain ⟨front, rfl⟩ := List.getLast?_eq_some_iff.mp hlast
  rcases List.mem_append.mp hx with hx | hx
  · exact Nat.le_of_lt ((List.pairwise_append.mp hsorted).2.2 x hx last (List.mem_singleton_self _))
  · exact Nat.le_of_eq (congrArg rev (List.mem_singleton.mp hx))

structure Journal {α : Type u} (rev : α → Nat) where
  rows : List α
  seq : Nat
  sorted : rows.Pairwise (fun a b => rev a < rev b)
  rev_le : ∀ r ∈ rows, rev r ≤ seq

namespace Journal

variable {α : Type u} {rev : α → Nat}

def empty : Journal rev := ⟨[], 0, List.Pairwise.nil, fun _ hr => absurd hr List.not_mem_nil⟩

instance : Membership α (Journal rev) := ⟨fun j r => r ∈ j.rows⟩

variable {j : Journal rev} {r : α}

theorem mem_def : r ∈ j ↔ r ∈ j.rows := Iff.rfl

/-- 次の番号を採番して末尾に足す。 -/
def append (j : Journal rev) (mk : Nat → α) (hmk : ∀ n, rev (mk n) = n) : Journal rev where
  rows := j.rows ++ [mk (j.seq + 1)]
  seq := j.seq + 1
  sorted := by
    refine List.pairwise_append.mpr ⟨j.sorted, List.pairwise_singleton _ _, ?_⟩
    intro a ha b hb
    rw [List.mem_singleton.mp hb, hmk]
    exact Nat.lt_succ_of_le (j.rev_le a ha)
  rev_le := by
    intro r hr
    rcases List.mem_append.mp hr with hr | hr
    · exact Nat.le_succ_of_le (j.rev_le r hr)
    · rw [List.mem_singleton.mp hr]
      exact Nat.le_of_eq (hmk _)

theorem mem_append {mk : Nat → α} {hmk : ∀ n, rev (mk n) = n} :
    r ∈ j.append mk hmk ↔ r ∈ j ∨ r = mk (j.seq + 1) := by
  simp [append, mem_def]

/-- 条件に合う行を消す。採番は戻らない。 -/
def deleteWhere (j : Journal rev) (p : α → Bool) : Journal rev where
  rows := j.rows.filter (fun r => !p r)
  seq := j.seq
  sorted := j.sorted.filter _
  rev_le := fun r hr => j.rev_le r (List.mem_filter.mp hr).1

@[simp] theorem seq_deleteWhere (j : Journal rev) (p : α → Bool) :
    (j.deleteWhere p).seq = j.seq := rfl

@[simp] theorem mem_deleteWhere {p : α → Bool} : r ∈ j.deleteWhere p ↔ r ∈ j ∧ p r = false := by
  simp [deleteWhere, mem_def]

end Journal

end Kms.Infra
