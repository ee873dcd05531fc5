import Kms.Infra.Text

/-!
# SSE の parser

`frontend/lib/sse.ts` を写す。文字列は UTF-16 の code unit の列で、handler の答えは、それまでに届けた message の列で
決まる。止まった後の parser は状態が chunk の切り方で変わるので、止まった message までの列だけを比べる。

* `SseParser.future` — 残りの text を止まらずに読んだ時に届く message の列
* `future_push` — 一つの chunk を読んでも、止まる所までの `future` は変わらない
* `messagesOf_groups` — 空行で区切った行の組ごとに一つの message
-/

namespace Kms.Console

open Kms.Infra

/-- JavaScript の文字列。 -/
abbrev JsString := List UInt16

/-- ASCII の文字列。 -/
def js (s : String) : JsString := s.toList.map (fun c => c.toNat.toUInt16)

/-! ## parser -/

structure SseMessage where
  event : JsString
  data : JsString
  id : Option JsString
  deriving DecidableEq

structure Frame where
  event : JsString := []
  data : List JsString := []
  id : Option JsString := none

def lf : UInt16 := 10

def cr : UInt16 := 13

/-- frame を閉じる。data の行が無い frame は捨てる。 -/
def dispatch (f : Frame) : Option SseMessage :=
  if f.data.length = 0 then none
  else some ⟨if f.event = [] then js "message" else f.event, [lf].intercalate f.data, f.id⟩

/-- 行末の CR を一つ除く。 -/
def stripCR (l : JsString) : JsString := if l.getLast? = some cr then l.dropLast else l

def fieldName (l : JsString) : JsString := l.takeWhile (· ≠ 58)

/-- 最初の colon の後。先頭の空白を一つ除く。 -/
def fieldValue (l : JsString) : JsString :=
  match (l.dropWhile (· ≠ 58)).drop 1 with
  | 32 :: v => v
  | v => v

/-- 空でない行を frame に加える。 -/
def Frame.addLine (f : Frame) (l : JsString) : Frame :=
  if l.head? = some 58 then f
  else if fieldName l = js "event" then { f with event := fieldValue l }
  else if fieldName l = js "data" then { f with data := f.data ++ [fieldValue l] }
  else if fieldName l = js "id" then { f with id := some (fieldValue l) }
  else f

/-- 一行を読む。空行は frame を閉じる。 -/
def handleLine (f : Frame) (rawLine : JsString) : Frame × Option SseMessage :=
  if stripCR rawLine = [] then ({}, dispatch f) else (f.addLine (stripCR rawLine), none)

/-- parser の状態と、handler に届けた message。 -/
structure SseParser where
  buffer : JsString := []
  frame : Frame := {}
  delivered : List SseMessage := []

section Parser

variable (onMessage : List SseMessage → Bool)

/-- message を handler に届ける。handler が止めたかを返す。 -/
def SseParser.deliver (p : SseParser) : Frame × Option SseMessage → SseParser × Bool
  | (frame, none) => ({ p with frame }, false)
  | (frame, some m) =>
    ({ p with frame, delivered := p.delivered ++ [m] }, onMessage (p.delivered ++ [m]))

/-- buffer に改行がある間、一行ずつ読む。 -/
def SseParser.drain (p : SseParser) : SseParser × Bool :=
  if _h : lf ∈ p.buffer then
    let line := p.buffer.takeWhile (· ≠ lf)
    let rest := (p.buffer.dropWhile (· ≠ lf)).drop 1
    match SseParser.deliver onMessage { p with buffer := rest } (handleLine p.frame line) with
    | (q, true) => (q, true)
    | (q, false) => drain { q with buffer := rest }
  else (p, false)
termination_by p.buffer.length
decreasing_by
  have hle := (List.dropWhile_suffix (l := p.buffer) (· ≠ lf)).length_le
  have hpos := List.length_pos_of_mem _h
  simp only [List.length_drop]
  omega

def SseParser.push (p : SseParser) (chunk : JsString) : SseParser :=
  (SseParser.drain onMessage { p with buffer := p.buffer ++ chunk }).1

/-- stream の終わり。改行の無い最後の行と、閉じていない frame を届ける。 -/
def SseParser.flush (p : SseParser) : SseParser :=
  if p.buffer = [] then (p.deliver onMessage ({}, dispatch p.frame)).1
  else
    match SseParser.deliver onMessage { p with buffer := [] } (handleLine p.frame p.buffer) with
    | (q, true) => q
    | (q, false) => (q.deliver onMessage ({}, dispatch q.frame)).1

/-- chunk を順に読んで閉じた時に、届けた message の列。 -/
def sseMessages (chunks : List JsString) : List SseMessage :=
  (SseParser.flush onMessage (chunks.foldl (SseParser.push onMessage) {})).delivered

/-- handler が初めて止めた message までの列。 -/
def firstStop (ms : List SseMessage) : Option (List SseMessage) :=
  ms.inits.find? (fun pre => !pre.isEmpty && onMessage pre)

def uptoStop (ms : List SseMessage) : List SseMessage := (firstStop onMessage ms).getD ms

end Parser

/-! ## 止まらずに読む -/

/-- 行を順に読んだ時の message の列。 -/
def messagesOf : Frame → List JsString → List SseMessage
  | _, [] => []
  | f, l :: ls => (handleLine f l).2.toList ++ messagesOf (handleLine f l).1 ls

def SseParser.future (p : SseParser) (rest : JsString) : List SseMessage :=
  p.delivered ++ messagesOf p.frame ((p.buffer ++ rest).splitOn lf ++ [[]])

section Future

variable {onMessage : List SseMessage → Bool} {p q : SseParser} {line rest : JsString}

theorem uptoStop_append {ms : List SseMessage} (h : (firstStop onMessage ms).isSome)
    (more : List SseMessage) : uptoStop onMessage (ms ++ more) = uptoStop onMessage ms := by
  obtain ⟨pre, hpre⟩ := Option.isSome_iff_exists.mp h
  have happend : firstStop onMessage (ms ++ more) = some pre := by
    rw [firstStop] at hpre ⊢
    rw [List.inits_append, List.find?_append, hpre]
    rfl
  rw [uptoStop, uptoStop, happend, hpre]
  rfl

theorem firstStop_of_stopped {ms : List SseMessage} {m : SseMessage}
    (h : onMessage (ms ++ [m]) = true) : (firstStop onMessage (ms ++ [m])).isSome := by
  rw [firstStop, List.find?_isSome]
  refine ⟨ms ++ [m], (List.mem_inits _ _).mpr List.prefix_rfl, ?_⟩
  simp [h]

theorem deliver_spec {r : Frame × Option SseMessage} {stopped : Bool}
    (h : p.deliver onMessage r = (q, stopped)) :
    q = { p with frame := r.1, delivered := p.delivered ++ r.2.toList } ∧
      (stopped = true → (firstStop onMessage q.delivered).isSome) := by
  obtain ⟨f, _ | m⟩ := r
  · cases h
    exact ⟨by simp, nofun⟩
  · cases h
    exact ⟨rfl, firstStop_of_stopped⟩

theorem deliver_delivered (p : SseParser) (r : Frame × Option SseMessage) :
    (p.deliver onMessage r).1.delivered = p.delivered ++ r.2.toList :=
  congrArg SseParser.delivered (deliver_spec rfl).1

theorem mem_split_lf {b : JsString} (h : lf ∈ b) : lf ∉ b.takeWhile (· ≠ lf) ∧
    b = b.takeWhile (· ≠ lf) ++ lf :: (b.dropWhile (· ≠ lf)).drop 1 := by
  obtain ⟨line, rest, rfl, hline⟩ := List.eq_append_cons_of_mem h
  have hpos : ∀ c ∈ line, decide (c ≠ lf) = true := fun c hc =>
    decide_eq_true (fun heq => hline (heq ▸ hc))
  rw [List.takeWhile_append_of_pos hpos, List.dropWhile_append_of_pos hpos]
  simpa using hline

theorem future_line {stopped : Bool} (h : lf ∈ p.buffer)
    (hd : SseParser.deliver onMessage
      { p with buffer := (p.buffer.dropWhile (· ≠ lf)).drop 1 }
      (handleLine p.frame (p.buffer.takeWhile (· ≠ lf))) = (q, stopped)) :
    q.future rest = p.future rest := by
  obtain ⟨hline, hbuffer⟩ := mem_split_lf h
  have hsplit : (p.buffer ++ rest).splitOn lf = p.buffer.takeWhile (· ≠ lf) ::
      ((p.buffer.dropWhile (· ≠ lf)).drop 1 ++ rest).splitOn lf := by
    rw [← List.splitOn_append_cons_self_of_not_mem hline, ← List.cons_append, ← List.append_assoc,
      ← hbuffer]
  rw [(deliver_spec hd).1, SseParser.future, SseParser.future, hsplit]
  exact List.append_assoc ..

/-- 改行を読み切ったか、既に止まったか。 -/
def Settled (onMessage : List SseMessage → Bool) (p : SseParser) : Prop :=
  lf ∉ p.buffer ∨ (firstStop onMessage p.delivered).isSome

theorem future_drain (onMessage : List SseMessage → Bool) (p : SseParser) (rest : JsString) :
    uptoStop onMessage ((SseParser.drain onMessage p).1.future rest) =
        uptoStop onMessage (p.future rest) ∧
      Settled onMessage (SseParser.drain onMessage p).1 := by
  fun_induction SseParser.drain onMessage p with
  | case1 p h line more q hd =>
    exact ⟨by rw [future_line h hd], .inr ((deliver_spec hd).2 rfl)⟩
  | case2 p h line more q hd ih =>
    have hq : { q with buffer := more } = q := by rw [(deliver_spec hd).1]
    rw [hq] at ih ⊢
    exact ⟨ih.1.trans (by rw [future_line h hd]), ih.2⟩
  | case3 p h => exact ⟨rfl, .inl h⟩

theorem future_push (onMessage : List SseMessage → Bool) (p : SseParser)
    (chunk rest : JsString) :
    uptoStop onMessage ((p.push onMessage chunk).future rest) =
        uptoStop onMessage (p.future (chunk ++ rest)) ∧
      Settled onMessage (p.push onMessage chunk) := by
  have h := future_drain onMessage { p with buffer := p.buffer ++ chunk } rest
  refine ⟨h.1.trans ?_, h.2⟩
  rw [SseParser.future, SseParser.future, List.append_assoc]

theorem future_foldl (onMessage : List SseMessage → Bool) (chunks : List JsString) :
    ∀ p : SseParser, Settled onMessage p →
      uptoStop onMessage ((chunks.foldl (SseParser.push onMessage) p).future []) =
          uptoStop onMessage (p.future chunks.flatten) ∧
        Settled onMessage (chunks.foldl (SseParser.push onMessage) p) := by
  induction chunks with
  | nil => exact fun p hp => ⟨rfl, hp⟩
  | cons c cs ih =>
    intro p hp
    obtain ⟨hpush, hsettled⟩ := future_push onMessage p c cs.flatten
    exact ⟨(ih _ hsettled).1.trans hpush, (ih _ hsettled).2⟩

theorem flush_spec (onMessage : List SseMessage → Bool) (p : SseParser) :
    ∃ ms, (p.flush onMessage).delivered =
        p.delivered ++ (handleLine p.frame p.buffer).2.toList ++ ms ∧
      (ms = (dispatch (handleLine p.frame p.buffer).1).toList ∨
        (firstStop onMessage (p.delivered ++ (handleLine p.frame p.buffer).2.toList)).isSome) := by
  unfold SseParser.flush
  split
  · next hnil =>
    refine ⟨[], ?_, .inl ?_⟩
    · rw [deliver_delivered, hnil]
      simp [handleLine, stripCR]
    · rw [hnil]
      rfl
  · split
    · next q hd =>
      obtain ⟨rfl, hstop⟩ := deliver_spec hd
      exact ⟨[], (List.append_nil _).symm, .inr (hstop rfl)⟩
    · next q hd =>
      obtain ⟨rfl, _⟩ := deliver_spec hd
      exact ⟨_, deliver_delivered .., .inl rfl⟩

theorem flush_delivered (hp : Settled onMessage p) :
    uptoStop onMessage (p.flush onMessage).delivered = uptoStop onMessage (p.future []) := by
  obtain ⟨ms, hms, hlast⟩ := flush_spec onMessage p
  rw [hms]
  rcases hp with hbuffer | hstop
  · have hfuture : p.future [] = p.delivered ++ (handleLine p.frame p.buffer).2.toList ++
        (dispatch (handleLine p.frame p.buffer).1).toList := by
      rw [SseParser.future, List.append_nil, List.splitOn_eq_singleton hbuffer, List.append_assoc]
      simp [messagesOf, handleLine, stripCR]
    rw [hfuture]
    rcases hlast with rfl | hstop
    · rfl
    · rw [uptoStop_append hstop, uptoStop_append hstop]
  · rw [SseParser.future, List.append_assoc, uptoStop_append hstop, uptoStop_append hstop]

theorem uptoStop_sseMessages (onMessage : List SseMessage → Bool) (chunks : List JsString) :
    uptoStop onMessage (sseMessages onMessage chunks) =
      uptoStop onMessage (messagesOf {} (chunks.flatten.splitOn lf ++ [[]])) := by
  obtain ⟨hfuture, hsettled⟩ := future_foldl onMessage chunks {} (.inl List.not_mem_nil)
  exact (flush_delivered hsettled).trans hfuture

end Future

/-! ## 空行で区切った frame -/

/-- 行の組の、その名の field の値。 -/
def fieldValues (name : JsString) (group : List JsString) : List JsString :=
  (group.filter (fun l => l.head? ≠ some 58 ∧ fieldName l = name)).map fieldValue

/-- 空行に挟まれた行の組が表す message。data の行が無ければ無い。event と id は最後のものが残る。 -/
def groupMessage (group : List JsString) : Option SseMessage :=
  if fieldValues (js "data") group = [] then none
  else
    let event := (fieldValues (js "event") group).getLast?.getD []
    some ⟨if event = [] then js "message" else event,
      [lf].intercalate (fieldValues (js "data") group),
      (fieldValues (js "id") group).getLast?⟩

theorem foldl_addLine (group : List JsString) : group.foldl Frame.addLine {} =
    ⟨(fieldValues (js "event") group).getLast?.getD [], fieldValues (js "data") group,
      (fieldValues (js "id") group).getLast?⟩ := by
  induction group using List.reverseRecOn with
  | nil => rfl
  | append_singleton group l ih =>
    have hde : js "data" ≠ js "event" := by decide
    have hie : js "id" ≠ js "event" := by decide
    have hid : js "id" ≠ js "data" := by decide
    rw [List.foldl_concat, ih, Frame.addLine]
    by_cases hcomment : l.head? = some 58
    · simp [fieldValues, hcomment]
    · by_cases he : fieldName l = js "event"
      · simp [fieldValues, hcomment, he, hde.symm, hie.symm]
      · by_cases hd : fieldName l = js "data"
        · simp [fieldValues, hcomment, hd, hde, hid.symm]
        · by_cases hi : fieldName l = js "id"
          · simp [fieldValues, hcomment, hi, hie, hid]
          · simp [fieldValues, hcomment, he, hd, hi]

theorem dispatch_foldl (group : List JsString) :
    dispatch (group.foldl Frame.addLine {}) = groupMessage group := by
  rw [foldl_addLine]
  simp [dispatch, groupMessage]

theorem messagesOf_groups {ls : List JsString} (hls : ∀ l ∈ ls, l.getLast? ≠ some cr) :
    ∀ {group : List JsString}, [] ∉ group →
      messagesOf (group.foldl Frame.addLine {}) (ls ++ [[]]) =
        ((group ++ ls).splitOn []).filterMap groupMessage := by
  induction ls with
  | nil =>
    intro group hgroup
    have hmessages : messagesOf (group.foldl Frame.addLine {}) ([] ++ [[]]) =
        (groupMessage group).toList := by
      simp [messagesOf, handleLine, stripCR, dispatch_foldl]
    rw [hmessages, List.append_nil, List.splitOn_eq_singleton hgroup]
    cases h : groupMessage group <;> simp [h]
  | cons l ls ih =>
    intro group hgroup
    have hrest := @ih (fun m hm => hls m (List.mem_cons_of_mem _ hm))
    have hstrip : stripCR l = l := if_neg (hls l List.mem_cons_self)
    by_cases hl : l = []
    · -- 空行は組を閉じる。
      subst hl
      rw [List.splitOn_append_cons_self_of_not_mem hgroup, List.cons_append, messagesOf]
      have hline : handleLine (group.foldl Frame.addLine {}) [] = ({}, groupMessage group) := by
        rw [← dispatch_foldl]
        rfl
      rw [hline]
      have hnext : messagesOf {} (ls ++ [[]]) = (ls.splitOn []).filterMap groupMessage :=
        hrest List.not_mem_nil
      rw [hnext]
      cases h : groupMessage group <;> simp [h]
    · have hline : handleLine (group.foldl Frame.addLine {}) l =
          ((group ++ [l]).foldl Frame.addLine {}, none) := by
        rw [handleLine, hstrip, if_neg hl, List.foldl_concat]
      rw [List.cons_append, messagesOf, hline, List.append_cons group l ls]
      refine hrest (fun hm => ?_)
      rcases List.mem_append.mp hm with hm | hm
      · exact hgroup hm
      · exact hl (List.mem_singleton.mp hm).symm

theorem messagesOf_congr : ∀ {ls ms : List JsString} (f : Frame),
    ls.map stripCR = ms.map stripCR → messagesOf f ls = messagesOf f ms
  | [], [], _, _ => rfl
  | l :: ls, m :: ms, f, h => by
    obtain ⟨hl, hls⟩ := List.cons.inj h
    rw [messagesOf, messagesOf, messagesOf_congr _ hls, handleLine, handleLine, hl]

/-- 行と、その終わりが CRLF であるかの列を、text に繋ぐ。 -/
def textOf (ls : List (JsString × Bool)) (tail : JsString) : JsString :=
  ls.flatMap (fun l => l.1 ++ if l.2 then [cr, lf] else [lf]) ++ tail

theorem splitOn_textOf {ls : List (JsString × Bool)} {tail : JsString} (htail : lf ∉ tail)
    (hls : ∀ l ∈ ls, lf ∉ l.1) : (textOf ls tail).splitOn lf =
      ls.map (fun l => l.1 ++ if l.2 then [cr] else []) ++ [tail] := by
  rw [← splitOn_joinLines htail]
  · simp only [textOf, joinLines, List.flatMap_map]
    congr 3
    funext l
    cases l.2 <;> simp
  · intro l hl
    obtain ⟨m, hm, rfl⟩ := List.mem_map.mp hl
    have hne : lf ≠ cr := by decide
    cases m.2 <;> simp [hls m hm, hne]

/-- **SSE の parser が届ける message は、chunk の切り方によらない。** 行が LF か CRLF で終わる text では、空行で区切った
行の組ごとに一つの message である。 -/
theorem sse_chunking_independent (onMessage : List SseMessage → Bool) (chunks : List JsString) :
    uptoStop onMessage (sseMessages onMessage chunks) =
        uptoStop onMessage (sseMessages onMessage [chunks.flatten]) ∧
      ∀ (ls : List (JsString × Bool)) (tail : JsString),
        (∀ l ∈ ls, lf ∉ l.1 ∧ l.1.getLast? ≠ some cr) → lf ∉ tail → tail.getLast? ≠ some cr →
        chunks.flatten = textOf ls tail →
        uptoStop onMessage (sseMessages onMessage chunks) = uptoStop onMessage
          (((ls.map (·.1) ++ [tail]).splitOn []).filterMap groupMessage) := by
  refine ⟨?_, fun ls tail hls hlf hcr htext => ?_⟩
  · rw [uptoStop_sseMessages, uptoStop_sseMessages, List.flatten_singleton]
  · have hplain : ∀ l ∈ ls.map (·.1) ++ [tail], l.getLast? ≠ some cr := by
      intro l hl
      rcases List.mem_append.mp hl with hl | hl
      · obtain ⟨m, hm, rfl⟩ := List.mem_map.mp hl
        exact (hls m hm).2
      · rw [List.mem_singleton.mp hl]
        exact hcr
    have hstrip : (ls.map (fun l => l.1 ++ if l.2 then [cr] else [])).map stripCR =
        (ls.map (·.1)).map stripCR := by
      rw [List.map_map, List.map_map]
      refine List.map_congr_left (fun l hl => ?_)
      cases h : l.2 <;> simp [h, stripCR, (hls l hl).2]
    have hgroups := @messagesOf_groups _ hplain [] List.not_mem_nil
    rw [List.nil_append] at hgroups
    rw [uptoStop_sseMessages, htext, splitOn_textOf hlf (fun l hl => (hls l hl).1), ← hgroups]
    refine congrArg _ (messagesOf_congr _ ?_)
    rw [List.map_append, List.map_append, hstrip, ← List.map_append, ← List.map_append]

section Sample

private def sampleLines : List (JsString × Bool) :=
  [(js "data: a", true), ([], true), (js "event: tick", false), (js "data: b", true), ([], false)]

/-- CR と LF の間で切れた二つの chunk。 -/
private def sampleChunks : List JsString :=
  [js "data: a\r", js "\n\r\nevent: tick\ndata: b\r\n\n"]

/-- CRLF の途中で切れても、二つの message が届く。 -/
theorem sse_chunking_independent_crlf :
    uptoStop (fun _ => false) (sseMessages (fun _ => false) sampleChunks) =
      [⟨js "message", js "a", none⟩, ⟨js "tick", js "b", none⟩] := by
  have hgroups := (sse_chunking_independent (fun _ => false) sampleChunks).2 sampleLines []
    (by decide) (by decide) (by decide) (by decide)
  rw [hgroups]
  decide +kernel

end Sample

end Kms.Console
