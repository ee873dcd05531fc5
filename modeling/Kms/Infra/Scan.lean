import Kms.Infra.Except
import Mathlib.Data.List.Range
import Mathlib.Data.Nat.SuccPred

/-!
# 予算付きの走査

番号ごとに値があるかないかの表 `f` を、ある番号から途切れるまで辿る。見付けた数 `size` が上限に達した後に
もう一つあれば失敗する。

* `scan` — 一方向のループ
* `MaximalRun` — 途切れずに続く最も広い区間
-/

namespace Kms.Infra

variable {α ε : Type} {f : Nat → Option α} {limit : Nat} {err : ε} {next : Nat → Nat}
  {lo hi n m size fuel : Nat}

/--
`n` から `next` へ辿り、見付けた値を順に並べ、増えた `size` を添えて返す。

`size` が一歩ごとに増えるので、`fuel` は `limit` で足りる。
-/
def scan (f : Nat → Option α) (next : Nat → Nat) (limit : Nat) (err : ε) :
    Nat → Nat → Nat → Except ε (List α × Nat)
  | 0, _, size => .ok ([], size)
  | fuel + 1, n, size =>
    match f n with
    | none => .ok ([], size)
    | some row =>
      if size = limit then .error err
      else do
        let (rest, size) ← scan f next limit err fuel (next n) (size + 1)
        pure (row :: rest, size)

structure MaximalRun (f : Nat → Option α) (lo anchor hi : Nat) : Prop where
  pos : 0 < lo
  bounds : lo ≤ anchor ∧ anchor ≤ hi
  all : ∀ n, lo ≤ n → n ≤ hi → (f n).isSome
  left : lo = 1 ∨ f (lo - 1) = none
  right : f (hi + 1) = none

/-! ## 一方向 -/

theorem scan_eq (hall : ∀ i < m, (f (next^[i] n)).isSome) (hstop : f (next^[m] n) = none)
    (hsize : size ≤ limit) (hfuel : limit < size + fuel) :
    scan f next limit err fuel n size = if size + m ≤ limit
      then .ok ((List.range m).filterMap (fun i => f (next^[i] n)), size + m) else .error err := by
  induction fuel generalizing n m size with
  | zero => omega
  | succ fuel ih =>
    unfold scan
    cases m with
    | zero =>
      rw [show f n = none from hstop, Nat.add_zero size, if_pos hsize]
      rfl
    | succ m =>
      obtain ⟨row, hrow⟩ := Option.isSome_iff_exists.mp (hall 0 (Nat.succ_pos m))
      rw [show f n = some row from hrow]
      by_cases hfull : size = limit
      · rw [if_neg (by omega)]
        exact if_pos hfull
      · simp only [if_neg hfull]
        rw [ih (fun i hi => hall (i + 1) (by omega)) hstop (by omega) (by omega),
          show size + 1 + m = size + (m + 1) by omega, List.range_succ_eq_map,
          List.filterMap_cons_some (f := fun i => f (next^[i] n)) hrow, List.filterMap_map]
        split <;> rfl

theorem mem_scan {rows : List α × Nat} {r : α}
    (h : scan f next limit err fuel n size = .ok rows) (hr : r ∈ rows.1) : ∃ k, f k = some r := by
  induction fuel generalizing n size rows with
  | zero =>
    cases h
    cases hr
  | succ fuel ih =>
    unfold scan at h
    split at h
    · cases h
      cases hr
    · next row hrow =>
      split at h
      · cases h
      · simp only [bind_eq_ok_iff, pure_eq_ok_iff] at h
        obtain ⟨rest, hrest, rfl⟩ := h
        rcases List.mem_cons.mp hr with rfl | hr
        · exact ⟨_, hrow⟩
        · exact ih hrest hr

theorem exists_stop (h : ∃ k, f k = none) : ∃ m, (∀ i < m, (f i).isSome) ∧ f m = none := by
  classical
  exact ⟨Nat.find h, fun i hi => Option.ne_none_iff_isSome.mp (Nat.find_min h hi), Nat.find_spec h⟩

/-! ## 両側 -/

theorem exists_maximalRun {anchor bound : Nat} (hpos : 0 < anchor) (h : (f anchor).isSome)
    (hbound : ∀ n, bound ≤ n → f n = none) : ∃ lo hi, MaximalRun f lo anchor hi := by
  obtain ⟨d, hdown, hd⟩ := exists_stop
    (f := fun i => if i < anchor - 1 then f (anchor - 1 - i) else none)
    ⟨anchor - 1, if_neg (Nat.lt_irrefl _)⟩
  obtain ⟨u, hup, hu⟩ := exists_stop (f := fun i => f (anchor + 1 + i))
    ⟨bound, hbound _ (by omega)⟩
  have hlt : ∀ i < d, i < anchor - 1 ∧ (f (anchor - 1 - i)).isSome := by
    intro i hi
    have hsome := hdown i hi
    split at hsome
    · exact ⟨‹_›, hsome⟩
    · cases hsome
  have hdle : d ≤ anchor - 1 := by
    rcases Nat.eq_zero_or_pos d with h0 | h0
    · omega
    · have := (hlt (d - 1) (by omega)).1
      omega
  refine ⟨anchor - d, anchor + u, by omega, ⟨by omega, by omega⟩, fun n h1 h2 => ?_, ?_, ?_⟩
  · rcases Nat.lt_trichotomy n anchor with hn | rfl | hn
    · have := (hlt (anchor - 1 - n) (by omega)).2
      rwa [show anchor - 1 - (anchor - 1 - n) = n by omega] at this
    · exact h
    · have := hup (n - (anchor + 1)) (by omega)
      rwa [show anchor + 1 + (n - (anchor + 1)) = n by omega] at this
  · by_cases hend : d < anchor - 1
    · simp only [if_pos hend] at hd
      exact Or.inr (by rwa [Nat.sub_right_comm])
    · exact Or.inl (by omega)
  · rwa [Nat.add_right_comm] at hu

theorem filterMap_range'_split {row : α} {anchor : Nat} (hlo : lo ≤ anchor) (hhi : anchor ≤ hi)
    (hrow : f anchor = some row) :
    ((List.range (anchor - lo)).filterMap (fun i => f (lo + (anchor - lo) - 1 - i))).reverse ++
        [row] ++ (List.range (hi - anchor)).filterMap (fun i => f (anchor + 1 + i)) =
      (List.range' lo (hi + 1 - lo)).filterMap f := by
  have hsplit := @List.range'_append_1 lo (anchor - lo) (hi - anchor + 1)
  rw [show anchor - lo + (hi - anchor + 1) = hi + 1 - lo by omega,
    Nat.add_sub_cancel' hlo] at hsplit
  rw [← hsplit, List.filterMap_append, List.range'_succ, List.filterMap_cons_some hrow,
    ← List.reverse_reverse (List.range' lo _), List.reverse_range', List.filterMap_reverse,
    List.filterMap_map, List.range'_eq_map_range, List.filterMap_map, List.append_assoc]
  rfl

/--
両側を続けて辿ると、極大の区間の全ての値を番号の順に得る。区間が上限より長ければ
失敗する。
-/
theorem MaximalRun.scan {β : Type} {anchor : Nat} {row : α} (h : MaximalRun f lo anchor hi)
    (hrow : f anchor = some row) (hlimit : 0 < limit) (g : List α → β) :
    (scan (fun n => if 0 < n then f n else none) Nat.pred limit err limit (anchor - 1) 1 >>=
        fun down => scan f Nat.succ limit err limit (anchor + 1) down.2 >>=
        fun up => pure (g (down.1.reverse ++ [row] ++ up.1))) =
      if hi + 1 - lo ≤ limit then .ok (g ((List.range' lo (hi + 1 - lo)).filterMap f))
      else .error err := by
  obtain ⟨hlo, hhi⟩ := h.bounds
  have hpos := h.pos
  have hdown : ∀ i < anchor - lo,
      (if 0 < Nat.pred^[i] (anchor - 1) then f (Nat.pred^[i] (anchor - 1))
      else none) = f (lo + (anchor - lo) - 1 - i) := by
    intro i hlt
    rw [Nat.pred_iterate, if_pos (by omega), show lo + (anchor - lo) = anchor by omega]
  have hend : (if 0 < Nat.pred^[anchor - lo] (anchor - 1)
      then f (Nat.pred^[anchor - lo] (anchor - 1)) else none) = none := by
    rw [Nat.pred_iterate, show anchor - 1 - (anchor - lo) = lo - 1 by omega]
    rcases h.left with h1 | hnone
    · exact if_neg (by omega)
    · rw [hnone, ite_self]
  rw [scan_eq (m := anchor - lo) (fun i hlt => by
    rw [hdown i hlt]
    exact h.all _ (by omega) (by omega)) hend hlimit (by omega)]
  by_cases hfit : 1 + (anchor - lo) ≤ limit
  · rw [if_pos hfit, List.filterMap_congr (fun i hlt => hdown i (List.mem_range.mp hlt)),
      bind_of_ok rfl]
    dsimp only
    rw [scan_eq (m := hi - anchor) (fun i hlt => by
      rw [Nat.succ_iterate]
      exact h.all _ (by omega) (by omega)) (by
      rw [Nat.succ_iterate, show anchor + 1 + (hi - anchor) = hi + 1 by omega]
      exact h.right) hfit (by omega),
      show 1 + (anchor - lo) + (hi - anchor) = hi + 1 - lo by omega]
    simp only [Nat.succ_iterate]
    split
    · exact congrArg (fun rows => Except.ok (g rows)) (filterMap_range'_split hlo hhi hrow)
    · rfl
  · rw [if_neg hfit, if_neg (by omega)]
    rfl

end Kms.Infra
