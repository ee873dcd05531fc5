import Mathlib.Data.List.Sort
import Kms.Infra.Loop

/-!
# cursor で区切る一覧

行を key の順に並べ、cursor より後ろを `limit` 件ずつ返す一覧。cursor は最後に返した行の key である。読んでいる間に
行が変わらなければ、頁を順に読むと、全ての行を一度ずつ key の順に読む。

* `mem_page_of_le` — 頁は、cursor から次の cursor までの行を一つも飛ばさない
* `Reading.page` — 読み終えた所までの cursor で読む頁は、残りの先頭である
* `readPage_complete` — 頁を順に読む loop は終わり、全ての行を一度ずつ読む
-/

namespace Kms.Infra

universe u v w

variable {α : Type u} {κ : Type v} [LinearOrder κ] (key : α → κ)

def ordered (rows : List α) : List α := rows.insertionSort (fun a b => key a ≤ key b)

def page (rows : List α) (limit : Nat) (after : Option κ) : List α × Option κ :=
  let found := (ordered key (rows.filter (fun r => after.all (fun c => decide (c < key r))))).take
    (limit + 1)
  if limit < found.length then (found.take limit, (found.take limit).getLast?.map key)
  else (found, none)

variable {key}

theorem ordered_perm (rows : List α) : (ordered key rows).Perm rows := List.perm_insertionSort ..

theorem pairwise_ordered (rows : List α) :
    (ordered key rows).Pairwise (fun a b => key a ≤ key b) := by
  have : Std.Total (fun a b : α => key a ≤ key b) := ⟨fun a b => le_total (key a) (key b)⟩
  have : IsTrans α (fun a b : α => key a ≤ key b) := ⟨fun _ _ _ => le_trans⟩
  exact List.pairwise_insertionSort ..

variable {rows front rest : List α} {limit : Nat} {after : Option κ}

theorem strict_ordered (h : (rows.map key).Nodup) :
    (ordered key rows).Pairwise (fun a b => key a < key b) := by
  have hnodup : ((ordered key rows).map key).Nodup := ((ordered_perm rows).map key).nodup_iff.mpr h
  refine List.Pairwise.imp₂ (fun a b hle hne => lt_of_le_of_ne hle hne) (pairwise_ordered rows) ?_
  exact List.pairwise_map.mp hnodup

theorem ordered_eq_of_perm {l : List α} (hperm : l.Perm rows)
    (hl : l.Pairwise (fun a b => key a < key b)) : ordered key rows = l := by
  have hle : l.Pairwise (fun a b => key a ≤ key b) := hl.imp le_of_lt
  refine List.Perm.eq_of_pairwise ?_ (pairwise_ordered rows) hle
    ((ordered_perm rows).trans hperm.symm)
  intro a b ha hb hab hba
  have hmem : a ∈ l := ((ordered_perm rows).trans hperm.symm).mem_iff.mp ha
  have hinj : Set.InjOn key { x | x ∈ l } := by
    have hnodup : (l.map key).Nodup := List.pairwise_map.mpr (hl.imp ne_of_lt)
    exact List.inj_on_of_nodup_map hnodup
  exact hinj hmem hb (le_antisymm hab hba)

theorem mem_of_mem_page {r : α} (h : r ∈ (page key rows limit after).1) : r ∈ rows := by
  have hfound : ∀ n, r ∈ (ordered key (rows.filter
      (fun r => after.all (fun c => decide (c < key r))))).take n → r ∈ rows := by
    intro n hr
    exact List.mem_of_mem_filter ((ordered_perm _).mem_iff.mp (List.mem_of_mem_take hr))
  unfold page at h
  dsimp only at h
  split at h
  · exact hfound _ (List.mem_of_mem_take h)
  · exact hfound _ h

theorem mem_page_of_le {r : α} (hkeys : (rows.map key).Nodup) (hlimit : 0 < limit) (hr : r ∈ rows)
    (hafter : ∀ c, after = some c → c < key r)
    (hnext : ∀ c, (page key rows limit after).2 = some c → key r ≤ c) :
    r ∈ (page key rows limit after).1 := by
  let behind := rows.filter (fun r => after.all (fun c => decide (c < key r)))
  have hmem : r ∈ ordered key behind := by
    refine (ordered_perm _).mem_iff.mpr (List.mem_filter.mpr ⟨hr, ?_⟩)
    cases after with
    | none => rfl
    | some c => exact decide_eq_true (hafter c rfl)
  have hsorted : (ordered key behind).Pairwise (fun a b => key a < key b) :=
    strict_ordered (hkeys.sublist (List.filter_sublist.map key))
  have hpage : page key rows limit after =
      if limit < ((ordered key behind).take (limit + 1)).length then
        (((ordered key behind).take (limit + 1)).take limit,
          (((ordered key behind).take (limit + 1)).take limit).getLast?.map key)
      else ((ordered key behind).take (limit + 1), none) := rfl
  rw [hpage] at hnext ⊢
  split
  · next hmore =>
    rw [if_pos hmore] at hnext
    rw [List.take_take, Nat.min_eq_left (Nat.le_succ limit)] at hnext ⊢
    rw [← List.take_append_drop limit (ordered key behind)] at hmem hsorted
    refine (List.mem_append.mp hmem).resolve_right (fun hdrop => ?_)
    -- 残りの行の key は、頁の最後の key より大きい
    have hne : (ordered key behind).take limit ≠ [] := by
      intro hnil
      rw [List.length_take] at hmore
      have := congrArg List.length hnil
      rw [List.length_take, List.length_nil] at this
      omega
    have hle := hnext _ (by rw [List.getLast?_eq_some_getLast hne]; rfl)
    have hlt := (List.pairwise_append.mp hsorted).2.2 _ (List.getLast_mem hne) r hdrop
    exact absurd hle (not_le_of_gt hlt)
  · next hfew =>
    rw [List.length_take] at hfew
    rw [List.take_of_length_le (by omega)]
    exact hmem

theorem filter_after_append {c : κ} (h : (front ++ rest).Pairwise (fun a b => key a < key b))
    (hc : front.getLast?.map key = some c) :
    (front ++ rest).filter (fun r => decide (c < key r)) = rest := by
  obtain ⟨last, hlast, rfl⟩ := Option.map_eq_some_iff.mp hc
  obtain ⟨init, rfl⟩ := List.getLast?_eq_some_iff.mp hlast
  obtain ⟨hfront, _, hcross⟩ := List.pairwise_append.mp h
  have hnone : (init ++ [last]).filter (fun r => decide (key last < key r)) = [] := by
    rw [List.filter_eq_nil_iff]
    intro r hr
    rcases List.mem_append.mp hr with hr | hr
    · have hlt := (List.pairwise_append.mp hfront).2.2 r hr last List.mem_cons_self
      simpa using le_of_lt hlt
    · rw [List.mem_singleton.mp hr]
      simp
  have hall : rest.filter (fun r => decide (key last < key r)) = rest := by
    rw [List.filter_eq_self]
    intro r hr
    exact decide_eq_true (hcross last (List.mem_append_right _ List.mem_cons_self) r hr)
  rw [List.filter_append, hnone, hall, List.nil_append]

/-- 先頭から順に読んで、今までに `front` を読み、`rest` が残っている。 -/
structure Reading (key : α → κ) (rows front rest : List α) (after : Option κ) : Prop where
  perm : (front ++ rest).Perm rows
  sorted : (front ++ rest).Pairwise (fun a b => key a < key b)
  cursor : front = [] ∧ after = none ∨ front.getLast?.map key = after ∧ after ≠ none

theorem Reading.start (h : (rows.map key).Nodup) :
    Reading key rows [] (ordered key rows) none where
  perm := ordered_perm rows
  sorted := strict_ordered h
  cursor := Or.inl ⟨rfl, rfl⟩

theorem Reading.remaining (h : Reading key rows front rest after) :
    ordered key (rows.filter (fun r => after.all (fun c => decide (c < key r)))) = rest := by
  have hrest := (List.pairwise_append.mp h.sorted).2.1
  refine ordered_eq_of_perm ?_ hrest
  refine List.Perm.trans ?_ (h.perm.filter _)
  rcases h.cursor with ⟨rfl, rfl⟩ | ⟨hlast, hne⟩
  · simp
  · obtain ⟨c, rfl⟩ := Option.ne_none_iff_exists'.mp hne
    rw [show (fun r => (some c).all (fun c => decide (c < key r))) =
      fun r => decide (c < key r) from rfl, filter_after_append h.sorted hlast]

theorem Reading.page (h : Reading key rows front rest after) (hlimit : 0 < limit) :
    (Infra.page key rows limit after).1 = rest.take limit ∧
      ((Infra.page key rows limit after).2 = none → rest.length ≤ limit) ∧
      ∀ c, (Infra.page key rows limit after).2 = some c →
        Reading key rows (front ++ rest.take limit) (rest.drop limit) (some c) ∧
          limit < rest.length := by
  have htake : (rest.take (limit + 1)).take limit = rest.take limit := by
    rw [List.take_take, Nat.min_eq_left (Nat.le_succ limit)]
  unfold Infra.page
  simp only [h.remaining, htake, List.length_take]
  by_cases hmore : limit < rest.length
  · have hlt : limit < min (limit + 1) rest.length := by omega
    rw [if_pos hlt]
    refine ⟨rfl, fun hnone => ?_, fun c hc => ⟨⟨?_, ?_, Or.inr ⟨?_, by simp⟩⟩, hmore⟩⟩
    · -- `limit` 件は空でないので、最後の key がある。
      have hne : rest.take limit ≠ [] := by
        intro hnil
        have := congrArg List.length hnil
        rw [List.length_take, List.length_nil] at this
        omega
      rw [List.getLast?_eq_some_getLast hne] at hnone
      cases hnone
    · rw [List.append_assoc, List.take_append_drop]
      exact h.perm
    · rw [List.append_assoc, List.take_append_drop]
      exact h.sorted
    · obtain ⟨last, hlast, rfl⟩ := Option.map_eq_some_iff.mp hc
      rw [List.getLast?_append, hlast]
      rfl
  · have hge : ¬ limit < min (limit + 1) rest.length := by omega
    rw [if_neg hge, List.take_of_length_le (by omega), List.take_of_length_le (by omega)]
    exact ⟨rfl, fun _ => by omega, fun c hc => by cases hc⟩

/-! ## 頁を順に読む loop -/

section Loop

variable {ε : Type w}

/-- 一頁の行を順に調べ、残す行だけを選ぶ。調べた行の error はそのまま返す。 -/
def keepRows (visit : α → Except ε Bool) : List α → Except ε (List α)
  | [] => .ok []
  | r :: rs =>
    match visit r with
    | .error e => .error e
    | .ok keep => (keepRows visit rs).map (fun kept => if keep then r :: kept else kept)

variable {visit : α → Except ε Bool} {p : α → Bool} {rows : List α}

theorem keepRows_ok
    (h : ∀ r ∈ rows, visit r = .ok (p r)) : keepRows visit rows = .ok (rows.filter p) := by
  induction rows with
  | nil => rfl
  | cons r rs ih =>
    rw [keepRows, h r List.mem_cons_self, ih (fun x hx => h x (List.mem_cons_of_mem _ hx)),
      List.filter_cons]
    rfl

/-- 読んだ頁の残す行を溜める。次の cursor が無ければ、溜めた行が結果である。 -/
def takePage (visit : α → Except ε Bool) (acc : List α) (p : List α × Option κ) :
    (List α × Option κ) ⊕ Except ε (List α) :=
  match keepRows visit p.1, p.2 with
  | .error e, _ => .inr (.error e)
  | .ok kept, none => .inr (.ok (acc ++ kept))
  | .ok kept, some c => .inl (acc ++ kept, some c)

def readPage (key : α → κ) (rows : List α) (limit : Nat) (visit : α → Except ε Bool)
    (s : List α × Option κ) : (List α × Option κ) ⊕ Except ε (List α) :=
  takePage visit s.1 (page key rows limit s.2)

/-- 残りの行数より多い回数を許せば、loop は残す行を key の順に全て読んで終わる。 -/
theorem Reading.complete {limit : Nat}
    (hlimit : 0 < limit) (hvisit : ∀ r ∈ rows, visit r = .ok (p r)) {fuel : Nat} :
    ∀ {front rest : List α} {after : Option κ} {k : Nat}, Reading key rows front rest after →
      rest.length < fuel →
      ∃ m, iterate (fun _ => readPage key rows limit visit) fuel k (front.filter p, after) =
        some (m, .ok ((front ++ rest).filter p)) := by
  induction fuel with
  | zero =>
    intro front rest after k _ hlt
    exact absurd hlt (Nat.not_lt_zero _)
  | succ fuel ih =>
    intro front rest after k h hlt
    obtain ⟨hbatch, hlast, hnext⟩ := h.page hlimit
    have hkept : keepRows visit (rest.take limit) = .ok ((rest.take limit).filter p) := by
      refine keepRows_ok (fun r hr => hvisit r (h.perm.mem_iff.mp ?_))
      exact List.mem_append_right _ (List.mem_of_mem_take hr)
    unfold iterate readPage takePage
    cases hp : Infra.page key rows limit after with
    | mk batch next =>
      rw [hp] at hbatch hlast hnext
      simp only [show batch = rest.take limit from hbatch, hkept]
      cases next with
      | none =>
        refine ⟨k + 1, ?_⟩
        rw [List.take_of_length_le (hlast rfl), List.filter_append]
      | some c =>
        obtain ⟨hread, hmore⟩ := hnext c rfl
        have hshort : (rest.drop limit).length < fuel := by
          rw [List.length_drop]
          omega
        obtain ⟨m, hm⟩ := ih (k := k + 1) hread hshort
        refine ⟨m, ?_⟩
        rw [List.filter_append, List.append_assoc, List.take_append_drop] at hm
        exact hm

theorem readPage_complete {limit : Nat}
    (hlimit : 0 < limit) (hvisit : ∀ r ∈ rows, visit r = .ok (p r))
    (hkeys : (rows.map key).Nodup) {fuel : Nat} (hfuel : rows.length < fuel) :
    ∃ m, iterate (fun _ => readPage key rows limit visit) fuel 0 ([], none) =
      some (m, .ok ((ordered key rows).filter p)) := by
  have hlen : (ordered key rows).length < fuel := by
    rw [(ordered_perm rows).length_eq]
    exact hfuel
  exact Reading.complete hlimit hvisit (Reading.start hkeys) hlen

end Loop

end Kms.Infra
