import Kms.Domain
import Kms.Infra.Json
import Kms.Infra.Timestamp

/-!
# 監査の記録の一行

`AuditRecordFrom` は `audit_events` の行を、外に出す形の JSON に写し、`WriteAuditJSONL` は、それを一件一行で書く。UTF-8 として
読めない byte は、置き換えの文字になる。

* `auditRecordFrom` — 行の JSON
* `readJson_auditLine` — 深すぎない記録の行は、その記録として読める
* `newline_notMem_auditLine` — 記録の行に、改行は無い
-/

namespace Kms.Core

open Kms.Infra

/-- `audit_events` の行。text の列は、UTF-8 とは限らない byte の列である。`created_at` の列は `fmtTime` の text で持つ。 -/
structure AuditRow where
  id : Nat
  eventType : List UInt8
  actorIdentity : List UInt8
  actorType : List UInt8
  resourceType : List UInt8
  resourceNamespaceID : Nat
  resourceEnv : List UInt8
  resourceApp : List UInt8
  resourceKey : List UInt8
  resourceVersion : Nat
  decision : List UInt8
  sourceIP : List UInt8
  userAgent : List UInt8
  requestID : List UInt8
  createdAt : Time
  metadata : List UInt8
  deriving DecidableEq

namespace AuditRow

def createdAtText (row : AuditRow) : List Char := formatTimestamp row.createdAt

/-- `toAuditEvent` の時刻。読めない text は、Go の零の時刻、1 年 1 月 1 日になる。 -/
def createdAtTime (row : AuditRow) : DateTime :=
  match parseTimestamp row.createdAtText with
  | some t => .ofNanos t
  | none => ⟨1, 1, 1, 0, 0, 0, 0⟩

end AuditRow

/-- `time.RFC3339Nano`。小数の終わりの零は書かない。 -/
def rfc3339Nano (d : DateTime) : List Char :=
  let digits := ((padded 9 d.nano).reverse.dropWhile (· = '0')).reverse
  d.formatThen (if digits = [] then ['Z'] else '.' :: (digits ++ ['Z']))

/-- `AllowInvalidUTF8` で書く文字列。 -/
def jsonText (raw : List UInt8) : Json :=
  .string ((decodeUTF8 (some '�') raw.length raw).getD [])

/-- 厳密に読む。UTF-8 でない byte も断る。 -/
def readJson (raw : List UInt8) : Option Json := (decodeUTF8 none raw.length raw).bind Json.parse

/-- `AuditMetadataValue`。JSON として正しければその値、そうでなければ、元の text の文字列。 -/
def auditMetadataValue (raw : List UInt8) : Json := (readJson raw).getD (jsonText raw)

def auditRecordFrom (row : AuditRow) : Json :=
  .object
    [("id".toList, .nat row.id),
      ("created_at".toList, .string (rfc3339Nano row.createdAtTime)),
      ("event".toList, jsonText row.eventType),
      ("decision".toList, jsonText row.decision),
      ("actor".toList, .object
        [("identity".toList, jsonText row.actorIdentity), ("type".toList, jsonText row.actorType)]),
      ("resource".toList, .object
        [("type".toList, jsonText row.resourceType),
          ("namespace_id".toList, .nat row.resourceNamespaceID),
          ("env".toList, jsonText row.resourceEnv), ("app".toList, jsonText row.resourceApp),
          ("key".toList, jsonText row.resourceKey), ("version".toList, .nat row.resourceVersion)]),
      ("source_ip".toList, jsonText row.sourceIP),
      ("user_agent".toList, jsonText row.userAgent),
      ("request_id".toList, jsonText row.requestID),
      ("metadata".toList, auditMetadataValue row.metadata)]

def newline : UInt8 := 10

def auditLine (row : AuditRow) : List UInt8 := encodeUTF8 (auditRecordFrom row).render

/-- encoder は、入れ子の深すぎる値を断る。metadata は、一段深い所に書かれる。 -/
def Encodes (row : AuditRow) : Prop := (auditRecordFrom row).depth ≤ Json.maxNestingDepth

instance (row : AuditRow) : Decidable (Encodes row) := inferInstanceAs (Decidable (_ ≤ _))

/-- `WriteAuditJSONL` が buffer に書く text。 -/
def writeAuditJSONL (rows : List AuditRow) : Option (List UInt8) :=
  if ∀ r ∈ rows, Encodes r then some (joinLines newline (rows.map auditLine)) else none

theorem writeAuditJSONL_eq_some {rows : List AuditRow} {text : List UInt8}
    (h : writeAuditJSONL rows = some text) :
    (∀ r ∈ rows, Encodes r) ∧ text = joinLines newline (rows.map auditLine) := by
  rw [writeAuditJSONL, Option.ite_none_right_eq_some, Option.some.injEq] at h
  exact h.imp_right Eq.symm

/-! ## 読み戻し -/

theorem wf_auditMetadataValue (raw : List UInt8) : (auditMetadataValue raw).WF := by
  unfold auditMetadataValue
  cases hread : readJson raw with
  | none => trivial
  | some v =>
    obtain ⟨chars, -, hparse⟩ := Option.bind_eq_some_iff.mp hread
    exact (Json.wf_of_parse hparse).1

theorem wf_auditRecordFrom (row : AuditRow) : (auditRecordFrom row).WF := by
  unfold auditRecordFrom jsonText
  refine ⟨?names, Json.wf_nat _, trivial, trivial, trivial,
    ⟨?actorNames, trivial, trivial, trivial⟩,
    ⟨?resourceNames, trivial, Json.wf_nat _, trivial, trivial, trivial, Json.wf_nat _, trivial⟩,
    trivial, trivial, trivial, wf_auditMetadataValue _, trivial⟩
  all_goals
    simp only [List.map_cons, List.map_nil]
    decide

theorem readJson_auditLine {row : AuditRow} (h : Encodes row) :
    readJson (auditLine row) = some (auditRecordFrom row) := by
  rw [readJson, auditLine, decodeUTF8_encodeUTF8 none le_rfl, Option.bind_some]
  exact Json.parse_render (wf_auditRecordFrom row) h

theorem newline_notMem_auditLine (row : AuditRow) : newline ∉ auditLine row := by
  intro h
  obtain ⟨c, hc, hten⟩ := mem_of_mem_encodeUTF8 (by decide) h
  have hle := Json.le_of_mem_render (wf_auditRecordFrom row) c hc
  rw [hten] at hle
  exact absurd hle (by decide)

end Kms.Core
