import Kms.Core.AuditRecord
import Kms.Infra.Paging
import Kms.Infra.Run
import Kms.Storage.ChangeLog

/-!
# 監査の保存期間

`RunOnce` は、古い監査の行を日ごとの file に追記し、sync した後で、表から消す。追記は途中で切れることがあり、次の回は同じ行を
もう一度書く。

* `Retention` — 表と file と、進行中の一回
* `deleted_rows_are_archived` — 追記がいつも行頭から始まるなら、消えた行は、その日の file の一行である
* `torn_line_swallows_retry` — 切れた行の後への追記は、書き直した行を巻き込む
-/

namespace Kms.Core

open Kms.Infra Kms.Storage

/-! ## 行 -/

/-- `archiveDay`。作られた時刻の UTC の日付 `20060102`。 -/
def archiveDay (r : AuditRow) : List Char :=
  padded 4 r.createdAtTime.year ++ padded 2 r.createdAtTime.month ++ padded 2 r.createdAtTime.day

abbrev AuditTable := Table AuditRow.id

/-- `ListAuditBefore`。cutoff より前に作られた行を、id の順に返す。時刻は text のまま比べる。 -/
def listAuditBefore (t : AuditTable) (before : Time) (limit : Nat) : List AuditRow :=
  if before = 0 then []
  else
    let old := t.rows.filter (fun r => decide (r.createdAtText < formatTimestamp before))
    (ordered AuditRow.id old).take (clampLimit limit)

def auditPruneBatch : Nat := 1000

def auditPruneMaxBatches : Nat := 100

/-! ## 一回の実行 -/

/-- batch の段。`archiving` の `todo` は、まだ追記していない行である。 -/
inductive BatchPhase where
  | listing
  | archiving (rows todo : List AuditRow)
  | deleting (rows : List AuditRow)

/-- `RunOnce` の途中。`left` は残りの batch の数である。 -/
structure RetentionPass where
  cutoff : Time
  left : Nat
  phase : BatchPhase

structure Retention where
  retain : Nat
  table : AuditTable
  files : List Char → List UInt8
  pass : Option RetentionPass
  deleted : List AuditRow

/--
`archive cut` は一日分の追記である。`cut = some n` は、`n` byte を書いた所で、書き込みか sync が失敗したか、落ちたことを
言う。
-/
inductive RetentionEvent where
  | record (row : AuditRow)
  | start (now : Time)
  | list
  | archive (cut : Option Nat)
  | delete (ok : Bool)
  | crash

namespace Retention

def archiveText (rows : List AuditRow) : List UInt8 := joinLines newline (rows.map auditLine)

def append (s : Retention) (day : List Char) (text : List UInt8) : Retention :=
  { s with files := Function.update s.files day (s.files day ++ text) }

/-- `appendArchive`。記録を書けなければ、file を開く前に終わる。 -/
def appendArchive (s : Retention) (day : List Char) (rows : List AuditRow) (cut : Option Nat)
    (next : RetentionPass) : Retention :=
  match writeAuditJSONL rows, cut with
  | none, _ => { s with pass := none }
  | some text, some n => { s.append day (text.take n) with pass := none }
  | some text, none => { s.append day text with pass := some next }

/-- `archive` の loop の一周。先頭の行と同じ日の続きを、一度に追記する。 -/
def archiveRun (s : Retention) (p : RetentionPass) (rows : List AuditRow) (r : AuditRow)
    (rest : List AuditRow) (cut : Option Nat) : Retention :=
  let sameDay := fun x => decide (archiveDay x = archiveDay r)
  s.appendArchive (archiveDay r) (r :: rest.takeWhile sameDay) cut
    { p with phase := .archiving rows (rest.dropWhile sameDay) }

/-- `DeleteAuditByIDs` と、batch の loop の続き。 -/
def deleteBatch (s : Retention) (p : RetentionPass) (rows : List AuditRow) : Retention :=
  let listed := fun r : AuditRow => decide (r.id ∈ rows.map AuditRow.id)
  { s with
    table := s.table.deleteWhere listed
    deleted := s.deleted ++ s.table.rows.filter listed
    pass :=
      if rows.length < auditPruneBatch ∨ p.left ≤ 1 then none
      else some { p with left := p.left - 1, phase := .listing } }

def step (s : Retention) : RetentionEvent → Retention
  | .record row =>
    match s.table.insert? row with
    | some table => { s with table }
    | none => s
  | .start now =>
    if s.retain = 0 ∨ s.pass.isSome then s
    else { s with pass := some ⟨now - s.retain, auditPruneMaxBatches, .listing⟩ }
  | .list =>
    match s.pass with
    | some ⟨cutoff, left, .listing⟩ =>
      match listAuditBefore s.table cutoff auditPruneBatch with
      | [] => { s with pass := none }
      | r :: rows => { s with pass := some ⟨cutoff, left, .archiving (r :: rows) (r :: rows)⟩ }
    | _ => s
  | .archive cut =>
    match s.pass with
    | some ⟨cutoff, left, .archiving rows (r :: rest)⟩ =>
      s.archiveRun ⟨cutoff, left, .archiving rows (r :: rest)⟩ rows r rest cut
    | some ⟨cutoff, left, .archiving rows []⟩ =>
      { s with pass := some ⟨cutoff, left, .deleting rows⟩ }
    | _ => s
  | .delete ok =>
    match s.pass with
    | some ⟨cutoff, left, .deleting rows⟩ =>
      if ok then s.deleteBatch ⟨cutoff, left, .deleting rows⟩ rows else { s with pass := none }
    | _ => s
  | .crash => { s with pass := none }

def initial (retain : Nat) : Retention := ⟨retain, .empty, fun _ => [], none, []⟩

/-! ## 不変条件 -/

/-- file が行頭で終わっている。 -/
def LineStart (file : List UInt8) : Prop := file = [] ∨ file.getLast? = some newline

/-- 追記する file の日。 -/
def appending (s : Retention) : RetentionEvent → Option (List Char)
  | .archive _ =>
    match s.pass with
    | some ⟨_, _, .archiving _ (r :: _)⟩ => some (archiveDay r)
    | _ => none
  | _ => none

/-- 追記するなら、その file は行頭で終わっている。 -/
def AppendsAtLineStart (s : Retention) (e : RetentionEvent) : Prop :=
  ∀ day ∈ s.appending e, LineStart (s.files day)

instance (s : Retention) (e : RetentionEvent) : Decidable (s.AppendsAtLineStart e) :=
  inferInstanceAs (Decidable (∀ day ∈ s.appending e, _ ∨ _))

/-- 切れた行。ある行の頭である。 -/
def Torn (line : List UInt8) : Prop := line = [] ∨ ∃ r, line <+: auditLine r

/-- その日の、書ける行。 -/
def Files (day : List Char) (r : AuditRow) : Prop := archiveDay r = day ∧ Encodes r

/-- file は、完全な行と、最後の切れた行から成る。 -/
structure FileIs (file : List UInt8) (day : List Char) (recs : List AuditRow)
    (tail : List UInt8) : Prop where
  text : file = archiveText recs ++ tail
  torn : Torn tail
  files : ∀ r ∈ recs, Files day r

/-- 進行中の一回について、追記し終えた行は file にあり、batch の行は表にある。 -/
def PassInv (s : Retention) (recs : List Char → List AuditRow) : BatchPhase → Prop
  | .listing => True
  | .archiving rows todo =>
    (∀ r ∈ rows, r ∈ s.table) ∧ ∀ r ∈ rows, r ∈ todo ∨ r ∈ recs (archiveDay r)
  | .deleting rows => (∀ r ∈ rows, r ∈ s.table) ∧ ∀ r ∈ rows, r ∈ recs (archiveDay r)

def RetentionInv (s : Retention) : Prop :=
  ∃ (recs : List Char → List AuditRow) (tails : List Char → List UInt8),
    (∀ day, FileIs (s.files day) day (recs day) (tails day)) ∧
    (∀ r ∈ s.deleted, r ∈ recs (archiveDay r)) ∧ ∀ p, s.pass = some p → s.PassInv recs p.phase

variable {s : Retention}

theorem newline_notMem_torn {line : List UInt8} (h : Torn line) : newline ∉ line := by
  obtain rfl | ⟨r, hr⟩ := h
  · exact List.not_mem_nil
  · exact fun hm => newline_notMem_auditLine r (hr.subset hm)

theorem FileIs.tail_eq_nil {file tail : List UInt8} {day : List Char} {recs : List AuditRow}
    (h : FileIs file day recs tail) (hstart : LineStart file) : tail = [] := by
  by_contra hne
  obtain ⟨init, b, rfl⟩ := (List.eq_nil_or_concat tail).resolve_left hne
  have hfile := h.text
  obtain rfl | hlast := hstart
  · simp at hfile
  · rw [hfile] at hlast
    have hb : b = newline := by simpa using hlast
    exact newline_notMem_torn h.torn (by simp [hb])

section

variable {file tail : List UInt8} {day : List Char} {recs rows : List AuditRow}

theorem FileIs.append (h : FileIs file day recs tail) (hstart : LineStart file)
    (hrows : ∀ r ∈ rows, Files day r) {tail' : List UInt8} (htorn : Torn tail') :
    FileIs (file ++ (archiveText rows ++ tail')) day (recs ++ rows) tail' := by
  have htext := h.text
  rw [h.tail_eq_nil hstart, List.append_nil] at htext
  refine ⟨?_, htorn, fun r hr => (List.mem_append.mp hr).elim (h.files r) (hrows r)⟩
  rw [htext, archiveText, archiveText, archiveText, List.map_append, joinLines_append,
    List.append_assoc]

theorem take_archiveText (rows : List AuditRow) (n : Nat) :
    ∃ k tail, (archiveText rows).take n = archiveText (rows.take k) ++ tail ∧ Torn tail := by
  obtain ⟨k, tail, htake, htail⟩ := take_joinLines newline (rows.map auditLine) n
  refine ⟨k, tail, by rw [archiveText, htake, archiveText, List.map_take], ?_⟩
  obtain rfl | ⟨l, hl, hp⟩ := htail
  · exact .inl rfl
  · obtain ⟨r, -, rfl⟩ := List.mem_map.mp hl
    exact .inr ⟨r, hp⟩

end

/-! ## 一歩 -/

/-- 一日分の追記。その日の file だけが、`rows` の行で伸びる。 -/
theorem retentionInv_append {recs : List Char → List AuditRow}
    {tails : List Char → List UInt8} {day : List Char} {rows : List AuditRow} {tail : List UInt8}
    {pass : Option RetentionPass}
    (hfiles : ∀ d, FileIs (s.files d) d (recs d) (tails d))
    (hdeleted : ∀ r ∈ s.deleted, r ∈ recs (archiveDay r)) (hstart : LineStart (s.files day))
    (hrows : ∀ r ∈ rows, Files day r) (htorn : Torn tail)
    (hpass : ∀ recs' : List Char → List AuditRow, (∀ d r, r ∈ recs d → r ∈ recs' d) →
      (∀ r ∈ rows, r ∈ recs' (archiveDay r)) → ∀ p, pass = some p → s.PassInv recs' p.phase) :
    RetentionInv { s.append day (archiveText rows ++ tail) with pass } := by
  have hgrow : ∀ d r, r ∈ recs d → r ∈ Function.update recs day (recs day ++ rows) d := by
    intro d r hr
    by_cases hd : d = day
    · subst hd
      simp [hr]
    · simpa [Function.update_of_ne hd] using hr
  refine ⟨Function.update recs day (recs day ++ rows), Function.update tails day tail, fun d => ?_,
    fun r hr => hgrow _ r (hdeleted r hr), hpass _ hgrow fun r hr => ?_⟩
  · by_cases hd : d = day
    · subst hd
      simpa [append] using (hfiles d).append hstart hrows htorn
    · simpa [append, Function.update_of_ne hd] using hfiles d
  · simp [(hrows r hr).1, hr]

theorem retentionInv_appendArchive {recs : List Char → List AuditRow}
    {tails : List Char → List UInt8} {day : List Char} {rows : List AuditRow}
    {next : RetentionPass} (hfiles : ∀ d, FileIs (s.files d) d (recs d) (tails d))
    (hdeleted : ∀ r ∈ s.deleted, r ∈ recs (archiveDay r)) (hstart : LineStart (s.files day))
    (hday : ∀ r ∈ rows, archiveDay r = day) (cut : Option Nat)
    (hpass : ∀ recs' : List Char → List AuditRow, (∀ d r, r ∈ recs d → r ∈ recs' d) →
      (∀ r ∈ rows, r ∈ recs' (archiveDay r)) → s.PassInv recs' next.phase) :
    (s.appendArchive day rows cut next).RetentionInv := by
  unfold appendArchive
  cases hwrite : writeAuditJSONL rows with
  | none => exact ⟨recs, tails, hfiles, hdeleted, fun p hp => nomatch hp⟩
  | some text =>
    obtain ⟨hencodes, htext⟩ := writeAuditJSONL_eq_some hwrite
    rw [← archiveText] at htext
    subst htext
    have hrows : ∀ r ∈ rows, Files day r := fun r hr => ⟨hday r hr, hencodes r hr⟩
    cases cut with
    | some n =>
      obtain ⟨k, tail, htake, htorn⟩ := take_archiveText rows n
      dsimp only
      rw [htake]
      exact retentionInv_append hfiles hdeleted hstart
        (fun r hr => hrows r (List.mem_of_mem_take hr)) htorn (fun _ _ _ p hp => nomatch hp)
    | none =>
      dsimp only
      rw [← List.append_nil (archiveText rows)]
      refine retentionInv_append hfiles hdeleted hstart hrows (.inl rfl) ?_
      rintro recs' hgrow hnew _ ⟨⟩
      exact hpass recs' hgrow hnew

theorem retentionInv_archiveRun (hinv : s.RetentionInv) {cutoff : Time} {left : Nat}
    {rows rest : List AuditRow} {r : AuditRow}
    (hp : s.pass = some ⟨cutoff, left, .archiving rows (r :: rest)⟩)
    (hstart : LineStart (s.files (archiveDay r))) (cut : Option Nat) :
    (s.archiveRun ⟨cutoff, left, .archiving rows (r :: rest)⟩ rows r rest cut).RetentionInv := by
  obtain ⟨recs, tails, hfiles, hdeleted, hpass⟩ := hinv
  obtain ⟨htable, hrows⟩ := hpass _ hp
  refine retentionInv_appendArchive hfiles hdeleted hstart (fun x hx => ?_) cut
    fun recs' hgrow hnew => ⟨htable, fun x hx => ?_⟩
  · obtain rfl | hx := List.mem_cons.mp hx
    · rfl
    · simpa using List.mem_takeWhile_imp hx
  · obtain hx | hx := hrows x hx
    · -- まだ追記していなかった行は、今追記したか、残りにある
      rw [← List.takeWhile_append_dropWhile (p := fun x => decide (archiveDay x = archiveDay r))
        (l := rest), ← List.cons_append, List.mem_append] at hx
      exact hx.symm.imp_right (hnew x)
    · exact .inr (hgrow _ x hx)

theorem mem_table_of_mem_listed {r : AuditRow} {before : Time} {limit : Nat}
    (h : r ∈ listAuditBefore s.table before limit) : r ∈ s.table := by
  unfold listAuditBefore at h
  split at h
  · simp at h
  · exact List.mem_of_mem_filter ((ordered_perm ..).mem_iff.mp (List.mem_of_mem_take h))

theorem retentionInv_step {e : RetentionEvent} (hstart : s.AppendsAtLineStart e)
    (hinv : s.RetentionInv) : (s.step e).RetentionInv := by
  obtain ⟨recs, tails, hfiles, hdeleted, hpass⟩ := id hinv
  have hquiet : RetentionInv { s with pass := none } :=
    ⟨recs, tails, hfiles, hdeleted, by simp⟩
  cases e with
  | record row =>
    simp only [step]
    split
    · rename_i table htable
      refine ⟨recs, tails, hfiles, hdeleted, fun p hp => ?_⟩
      have hkeep : ∀ r ∈ s.table, r ∈ table := fun r hr => (Table.mem_insert? htable).mpr (.inl hr)
      have hold := hpass p hp
      revert hold
      cases p.phase with
      | listing => exact id
      | archiving rows todo | deleting rows => exact fun h => ⟨fun r hr => hkeep r (h.1 r hr), h.2⟩
    · exact hinv
  | start now =>
    simp only [step]
    split
    · exact hinv
    · refine ⟨recs, tails, hfiles, hdeleted, ?_⟩
      rintro _ ⟨⟩
      trivial
  | list =>
    simp only [step]
    split
    · split
      · exact hquiet
      · rename_i hlist
        refine ⟨recs, tails, hfiles, hdeleted, ?_⟩
        rintro _ ⟨⟩
        exact ⟨fun x hx => mem_table_of_mem_listed (hlist ▸ hx), fun x hx => .inl hx⟩
    · exact hinv
  | archive cut =>
    simp only [step]
    split
    · rename_i hp
      exact retentionInv_archiveRun hinv hp (hstart _ (by simp [appending, hp])) cut
    · rename_i hp
      refine ⟨recs, tails, hfiles, hdeleted, ?_⟩
      rintro _ ⟨⟩
      obtain ⟨htable, hrows⟩ := hpass _ hp
      exact ⟨htable, fun x hx => (hrows x hx).resolve_left List.not_mem_nil⟩
    · exact hinv
  | delete ok =>
    simp only [step]
    split
    · rename_i hp
      split
      · obtain ⟨htable, hrows⟩ := hpass _ hp
        refine ⟨recs, tails, hfiles, fun x hx => ?_, fun p hp => ?_⟩
        · obtain hx | hx := List.mem_append.mp hx
          · exact hdeleted x hx
          · -- id の一意性により、消えるのは batch の行である
            obtain ⟨hx, hid⟩ := List.mem_filter.mp hx
            obtain ⟨y, hy, hyx⟩ := List.mem_map.mp (of_decide_eq_true hid)
            rw [← Table.eq_of_key_eq (htable y hy) hx hyx]
            exact hrows y hy
        · simp only [deleteBatch] at hp
          split at hp
          · cases hp
          · cases hp
            trivial
      · exact hquiet
    · exact hinv
  | crash => exact hquiet

/-! ## run -/

/--
追記がいつも行頭から始まるなら、追記がどこで切れ、どの段の間で落ちても、消えた行はその日の file の一行であり、file のどの行も、
その日の一件か、一件の頭だけの切れた行である。
-/
theorem deleted_rows_are_archived (retain : Nat) (events : List RetentionEvent)
    (hstart : AlongSteps step AppendsAtLineStart (initial retain) events) :
    let s := run step (initial retain) events
    (∀ r ∈ s.deleted, ∃ line ∈ (s.files (archiveDay r)).splitOn newline,
      readJson line = some (auditRecordFrom r)) ∧
    ∀ day, ∀ line ∈ (s.files day).splitOn newline,
      (∃ r, archiveDay r = day ∧ readJson line = some (auditRecordFrom r)) ∨ Torn line := by
  intro s
  have hinit : (initial retain).RetentionInv :=
    ⟨fun _ => [], fun _ => [], fun _ => ⟨rfl, .inl rfl, by simp⟩, by simp [initial],
      by simp [initial]⟩
  obtain ⟨recs, tails, hfiles, hdeleted, -⟩ : s.RetentionInv :=
    run_steps_invariant (fun _ _ hq hi => retentionInv_step hq hi) hinit hstart
  have hsplit : ∀ day, (s.files day).splitOn newline =
      (recs day).map auditLine ++ [tails day] := by
    intro day
    rw [(hfiles day).text, archiveText,
      splitOn_joinLines (newline_notMem_torn (hfiles day).torn)]
    intro l hl
    obtain ⟨r, -, rfl⟩ := List.mem_map.mp hl
    exact newline_notMem_auditLine r
  refine ⟨fun r hr => ⟨auditLine r, ?_, ?_⟩, fun day line hline => ?_⟩
  · rw [hsplit]
    exact List.mem_append_left _ (List.mem_map_of_mem (hdeleted r hr))
  · exact readJson_auditLine ((hfiles _).files r (hdeleted r hr)).2
  · rw [hsplit, List.mem_append, List.mem_singleton] at hline
    obtain hline | rfl := hline
    · obtain ⟨r, hr, rfl⟩ := List.mem_map.mp hline
      obtain ⟨hday, hencodes⟩ := (hfiles day).files r hr
      exact .inl ⟨r, hday, readJson_auditLine hencodes⟩
    · exact .inr (hfiles day).torn

/-! ## 切れた行への追記 -/

/-- 1970 年の最初の日に作られた行。metadata は JSON ではない。 -/
def sampleAuditRow : AuditRow where
  id := 1
  eventType := encodeUTF8 "secret.read".toList
  actorIdentity := encodeUTF8 "ops".toList
  actorType := encodeUTF8 "user".toList
  resourceType := encodeUTF8 "secret".toList
  resourceNamespaceID := 1
  resourceEnv := encodeUTF8 "prod".toList
  resourceApp := encodeUTF8 "api".toList
  resourceKey := encodeUTF8 "token".toList
  resourceVersion := 3
  decision := encodeUTF8 "allow".toList
  sourceIP := encodeUTF8 "10.0.0.1".toList
  userAgent := [255]
  requestID := []
  createdAt := 500000000
  metadata := encodeUTF8 "abc".toList

/-- 一つ目の追記は一 byte で切れる。二つ目の回は、同じ行をその続きに書いて、表から消す。 -/
def sampleRetry (cut : Nat) : List RetentionEvent :=
  [.record sampleAuditRow, .start 2000000000, .list, .archive (some cut), .start 2000000000, .list,
    .archive none, .archive none, .delete true]

theorem parse_two_braces (text : List Char) : Json.parse ('\x7b' :: '\x7b' :: text) = none := rfl

/-- 書き直した行は、切れた行に繋がって読めない一行になり、表からも消えている。 -/
theorem torn_line_swallows_retry :
    let s := run step (initial 1) (sampleRetry 1)
    sampleAuditRow ∈ s.deleted ∧
      ∀ line ∈ (s.files (archiveDay sampleAuditRow)).splitOn newline, readJson line = none := by
  intro s
  have hdeleted : s.deleted = [sampleAuditRow] := by decide +kernel
  have hfile : s.files (archiveDay sampleAuditRow) =
      (123 :: auditLine sampleAuditRow) ++ [newline] := by decide +kernel
  have hline : newline ∉ 123 :: auditLine sampleAuditRow := by
    rw [List.mem_cons, not_or]
    exact ⟨by decide, newline_notMem_auditLine _⟩
  have hglued : readJson (123 :: auditLine sampleAuditRow) = none := by
    have hcode : 123 :: auditLine sampleAuditRow =
        encodeUTF8 ('\x7b' :: (auditRecordFrom sampleAuditRow).render) := rfl
    obtain ⟨text, hrender⟩ : ∃ text, (auditRecordFrom sampleAuditRow).render = '\x7b' :: text := by
      unfold auditRecordFrom
      rw [Json.render]
      exact ⟨_, rfl⟩
    rw [hcode, readJson, decodeUTF8_encodeUTF8 none le_rfl, hrender, Option.bind_some,
      parse_two_braces]
  refine ⟨by simp [hdeleted], fun line hl => ?_⟩
  rw [hfile, List.splitOn_append_cons_self_of_not_mem hline, List.splitOn_nil] at hl
  obtain rfl | hl := List.mem_cons.mp hl
  · exact hglued
  · rw [List.mem_singleton.mp hl]
    rfl

/-- 一 byte も書けなかった追記の後で、書き直した run。 -/
theorem deleted_rows_are_archived_after_full_disk :
    ∃ line ∈ ((run step (initial 1) (sampleRetry 0)).files
        (archiveDay sampleAuditRow)).splitOn newline,
      readJson line = some (auditRecordFrom sampleAuditRow) := by
  have hdeleted : (run step (initial 1) (sampleRetry 0)).deleted = [sampleAuditRow] := by
    decide +kernel
  have harchived := deleted_rows_are_archived 1 (sampleRetry 0) (by decide +kernel)
  exact harchived.1 sampleAuditRow (hdeleted ▸ List.mem_singleton_self _)

end Retention

end Kms.Core
