import Veyaan.Handshake
import Veyaan.Provenance

/-!
# The payload of a queued command

`create_command` and `decide_approval` build the payload of a `command.queued`
event, `publish_js` writes it as JSON text, and `nats_listener` makes a
`CommandRequestMessage` of the text in another process. The payload has a null
where the command has no `expires_at`; the field of the message is no optional
one.
-/

namespace Veyaan

open Sys

/-! ## Writing and reading -/

structure CommandRequest where
  commandId : UUID
  commandType : String
  parameters : Json
  expiresAt : Time
  riskMetadata : Json
  traceId : UUID

structure Codec where
  /-- `json.dumps`. -/
  dumps : Json → String
  /-- `json.loads`, or a `JSONDecodeError`. -/
  loads : String → Option Json
  isoformat : Time → String
  datetime : Json → Option Time
  /-- `UUID(s)`, or a `ValueError`. -/
  uuid : String → Option UUID

def RiskLevel.value : RiskLevel → String
  | .low => "low"
  | .medium => "medium"
  | .high => "high"
  | .prohibited => "prohibited"

def Json.asStr : Json → Option String
  | .str s => some s
  | _ => none

def Json.asDict : Json → Option Json
  | .obj l => some (.obj l)
  | _ => none

namespace Codec
variable (C : Codec)

/-- The dictionary that `create_command` and `decide_approval` hand to `add_event`. -/
def payload (p : ReadyPayload) : Json :=
  .obj [("command_id", .str (String.ofList (strUuid p.commandId))),
    ("device_id", .str (String.ofList (strUuid p.deviceId))),
    ("command_type", .str p.commandType),
    ("parameters", p.parameters),
    ("expires_at", p.expiresAt.elim .null fun t => .str (C.isoformat t)),
    ("risk_level", .str p.riskLevel.value)]

/-- What `publish_js` sends. -/
def encode (p : ReadyPayload) : String := C.dumps (C.payload p)

/-- `CommandRequestMessage(…)` as `nats_listener` calls it on the data of a message;
`uuid4` is the trace identifier that it generates. -/
def decode (data : String) (uuid4 : UUID) : Option CommandRequest := do
  match ← C.loads data with
  | .obj payload =>
    let cmdId ← (getField payload "command_id").bind Json.asStr
    let commandId ← C.uuid cmdId
    let commandType ← (getField payload "command_type").bind Json.asStr
    let parameters ← ((getField payload "parameters").getD (.obj [])).asDict
    let expiresAt ← C.datetime ((getField payload "expires_at").getD .null)
    let riskMetadata := .obj [("level", (getField payload "risk_level").getD (.str "low"))]
    let traceId ← match getField payload "trace_id" with
      | some j => j.asStr.bind C.uuid
      | none => some uuid4
    return { commandId, commandType, parameters, expiresAt, riskMetadata, traceId }
  | _ => none

/-- What the code relies on for this payload: JSON text is read back as it was
written, and so are the identifier of the command and its `expires_at`; a null is
no `datetime`. -/
structure Exact (p : ReadyPayload) : Prop where
  json : C.loads (C.dumps (C.payload p)) = some (C.payload p)
  uuid : C.uuid (String.ofList (strUuid p.commandId)) = some p.commandId
  isoformat : ∀ t, p.expiresAt = some t → C.datetime (.str (C.isoformat t)) = some t
  null : C.datetime .null = none

end Codec

def CommandRequestMessage.model (m : CommandRequestMessage) : CommandRequest where
  commandId := m.commandId
  commandType := m.commandType
  parameters := m.parameters
  expiresAt := m.expiresAt
  riskMetadata := .obj [("level", .str m.riskLevel.value)]
  traceId := m.traceId

/-- Decoding the payload of a command comes to the message of `sendCommand`, or to
an error where that raises one. -/
theorem decode_encode {C : Codec} {p : ReadyPayload} (h : C.Exact p) {l : List (String × Json)}
    (hl : p.parameters = .obj l) (traceId : UUID) : C.decode (C.encode p) traceId = p.expiresAt.map fun t =>
      (CommandRequestMessage.mk p.commandId p.commandType p.parameters t p.riskLevel traceId).model := by
  unfold Codec.decode Codec.encode
  rw [h.json, Codec.payload]
  simp only [Option.bind_eq_bind, Option.bind_some, getField, List.reverse_cons, List.reverse_nil, List.nil_append,
    List.cons_append, List.lookup_cons, String.reduceBEq, beq_self_eq_true, List.lookup_nil, Json.asStr, h.uuid, hl,
    Option.getD_some, Json.asDict]
  cases he : p.expiresAt with
  | none => simp [h.null]
  | some t => simp [h.isoformat t he, CommandRequestMessage.model]

/-! ## The events of the outbox -/

/-- Every `command.queued` event has the payload of its command. -/
def DB.Payloads (d : DB) : Prop :=
  ∀ k e, d.outbox.find k = some e → e.isQueued = true →
    ∃ c, d.commands.find e.aggregateId = some c ∧ e.msg = readyMsg c c.deviceId

/-- Rows that come later have the payload too, since commands keep what is in it. -/
theorem DB.Later.payload {d d' : DB} (h : d.Later d') {id : UUID} {m : Msg}
    (hp : ∃ c, d.commands.find id = some c ∧ m = readyMsg c c.deviceId) :
    ∃ c, d'.commands.find id = some c ∧ m = readyMsg c c.deviceId := by
  obtain ⟨c, hc, rfl⟩ := hp
  obtain ⟨c', hc', hs⟩ := h.command id c hc
  exact ⟨c', hc', by rw [hs.deviceId, hs.readyMsg]⟩

theorem Write.Allowed.payloads {i : Nat} {t : Tag} {s : St} {d : DB} {w : Write} (h : w.Allowed i t s d)
    (hd : d.Payloads) : (w.apply d).Payloads := by
  intro k e' he hq
  have hold : ∀ e, d.outbox.find k = some e → e.Same e' →
      ∃ c, (w.apply d).commands.find e'.aggregateId = some c ∧ e'.msg = readyMsg c c.deviceId := by
    intro e hf hs
    refine h.later.payload ?_
    rw [hs.aggregateId, hs.msg]
    exact hd k e hf (hs.isQueued ▸ hq)
  cases h with
  | @notice x hf hx hm =>
    simp only [Write.apply, Table.find_put, key_outbox] at he
    split at he
    · cases he; rw [hx] at hq; cases hq
    · exact hold e' he (.refl e')
  | @outbox x x' hf hs _ =>
    simp only [Write.apply, Table.find_put, key_outbox] at he
    split at he
    · rename_i hid
      cases he
      exact hold x (hid ▸ hf) hs
    · exact hold e' he (.refl e')
  | _ => exact hold e' he (.refl e')

theorem Tx.payloads {P : Params} {s : St} {i : Nat} {t : Tag} {d : DB} (h : Tx P s i t d) (hd : s.db.Payloads) :
    d.Payloads := by
  have hl := h.later
  cases h with
  | @create _ q c r o h =>
    intro k e he hq
    rcases h.form with ⟨-, -, ho, -⟩ | ⟨-, -, -, x, -, -, ha, -, hm, ho⟩
    · rw [ho] at he
      exact hl.payload (hd k e he hq)
    · rw [ho, Table.find_put] at he
      split at he
      · cases he
        exact ⟨c, by rw [ha, h.commands]; exact Table.find_put_self .., hm⟩
      · exact hl.payload (hd k e he hq)
  | @approve x _ c c' v a a' _ h =>
    intro k e he hq
    rw [h.outbox, Table.find_put] at he
    split at he
    · cases he
      refine ⟨c', ?_, by rw [h.msg, h.same.deviceId]⟩
      rw [h.aggregateId, h.commands, ← h.same.id]
      exact Table.find_put_self ..
    · exact hl.payload (hd k e he hq)
  | chain hc _ => exact hc.keeps (fun d w hw hi => hw.payloads hi) hd

theorem reachable_payloads {P : Params} {c : Conf} (h : Reachable P c) : c.world.sh.db.Payloads := by
  refine reach_induct (I := fun s => s.db.Payloads) (fun d x hi k e he => ?_)
    (fun s s' _ hs ha => ?_) (reachable_real h)
  · rw [hi.outbox] at he; cases he
  · rcases ha.store with hd | ⟨i, t, htx, -, -⟩
    · rw [hd]; exact hs
    · exact htx.payloads hs

def Carried (C : Codec) (cmd : Command) (e : OutboxEvent) : Prop :=
  ∃ p, e.msg = .commandReady cmd.deviceId p ∧ ∀ traceId, ∃ m, C.decode (C.encode p) traceId = some m ∧
    m.commandId = cmd.id ∧ m.commandType = cmd.commandType ∧ m.parameters = cmd.parameters ∧
    cmd.expiresAt = some m.expiresAt ∧ m.riskMetadata = .obj [("level", .str cmd.riskLevel.value)]

def Command.ready (cmd : Command) : ReadyPayload :=
  ⟨cmd.id, cmd.deviceId, cmd.commandType, cmd.parameters, cmd.expiresAt, cmd.riskLevel⟩

theorem carried_iff {C : Codec} {cmd : Command} {e : OutboxEvent}
    (hC : C.Exact cmd.ready) {l : List (String × Json)}
    (hl : cmd.parameters = .obj l) (hm : e.msg = readyMsg cmd cmd.deviceId) :
    Carried C cmd e ↔ cmd.expiresAt ≠ none := by
  have hdec := decode_encode (p := cmd.ready) hC hl
  constructor
  · rintro ⟨p, -, h⟩ hnone
    obtain ⟨m, -, -, -, -, ht, -⟩ := h 0
    rw [hnone] at ht
    cases ht
  · intro hne
    obtain ⟨t, ht⟩ := Option.ne_none_iff_exists'.mp hne
    refine ⟨cmd.ready, hm, fun traceId => ?_⟩
    have hmap := hdec traceId
    rw [show cmd.ready.expiresAt = some t from ht] at hmap
    exact ⟨_, hmap, rfl, rfl, rfl, ht, rfl⟩

section
variable {P : Params} {c : Conf} {cmd : Command} {C : Codec} {l : List (String × Json)}

end

/-! ## Pings on the wire -/

/-- The text of the ping's payload, but for the value of `expires_at`. -/
def pingText (expiresAt : String) : String :=
  "\x7b\"command_id\": \"00000000-0000-0000-0000-00000000000a\", " ++
    "\"device_id\": \"00000000-0000-0000-0000-000000000001\", \"command_type\": \"system.ping\", " ++
    "\"parameters\": \x7b\x7d, \"expires_at\": " ++ expiresAt ++ ", \"risk_level\": \"low\"\x7d"

def pingTime : String := "1970-01-01T00:00:00.001000+00:00"

def pingPayload (expiresAt : Json) : Json :=
  .obj [("command_id", .str "00000000-0000-0000-0000-00000000000a"),
    ("device_id", .str "00000000-0000-0000-0000-000000000001"),
    ("command_type", .str "system.ping"),
    ("parameters", .obj []),
    ("expires_at", expiresAt),
    ("risk_level", .str "low")]

/-- The libraries on the payloads of the ping, with an `expires_at` and without. -/
def pingCodec : Codec where
  dumps
    | .obj [_, _, _, _, (_, .null), _] => pingText "null"
    | _ => pingText ("\"" ++ pingTime ++ "\"")
  loads s :=
    if s = pingText "null" then some (pingPayload .null)
    else if s = pingText ("\"" ++ pingTime ++ "\"") then some (pingPayload (.str pingTime))
    else none
  isoformat _ := pingTime
  datetime
    | .str s => if s = pingTime then some 1000 else none
    | _ => none
  uuid s := if s = "00000000-0000-0000-0000-00000000000a" then some 10 else none

def pingReady (expiresAt : Option Time) : ReadyPayload := ⟨10, 1, "system.ping", .obj [], expiresAt, .low⟩

theorem pingCodec_exact (expiresAt : Option Time) (h : ∀ t, expiresAt = some t → t = 1000) :
    pingCodec.Exact (pingReady expiresAt) := by
  have hid : String.ofList (strUuid 10) = "00000000-0000-0000-0000-00000000000a" := by decide +kernel
  have hdev : String.ofList (strUuid 1) = "00000000-0000-0000-0000-000000000001" := by decide +kernel
  have hp : pingCodec.payload (pingReady expiresAt) =
      pingPayload (expiresAt.elim .null fun _ => .str pingTime) := by
    simp only [Codec.payload, pingReady, hid, hdev]
    rfl
  refine ⟨?_, ?_, fun t ht => ?_, rfl⟩
  · rw [hp]
    cases expiresAt with
    | none => simp [pingCodec, pingPayload]
    | some t =>
      have hne : ¬ pingText ("\"" ++ pingTime ++ "\"") = pingText "null" := by decide +kernel
      simp [pingCodec, pingPayload, hne]
  · simp only [pingReady, hid]
    rfl
  · rw [h t ht]
    rfl

/-- The row `10` is a queued ping with this `expires_at`. -/
def queuedPing (expiresAt : Option Time) (c : Conf) : Bool :=
  (c.world.sh.db.commands.find 10).any fun cmd =>
    cmd.id == 10 && cmd.state == .queued && cmd.deviceId == 1 && cmd.commandType == "system.ping" &&
      cmd.expiresAt == expiresAt && cmd.riskLevel == .low &&
      (match cmd.parameters with | .obj [] => true | _ => false)

theorem queuedPing_ready {expiresAt : Option Time} {c : Conf} (h : queuedPing expiresAt c = true) :
    ∃ cmd, c.world.sh.db.commands.find cmd.id = some cmd ∧ cmd.state = .queued ∧ cmd.parameters = .obj [] ∧
      cmd.ready = pingReady expiresAt := by
  obtain ⟨cmd, hf, hc⟩ := (Option.any_eq_true _ _).mp h
  simp only [Bool.and_eq_true, beq_iff_eq] at hc
  obtain ⟨⟨⟨⟨⟨⟨hid, hst⟩, hdev⟩, hty⟩, hexp⟩, hrisk⟩, hpar⟩ := hc
  have hpar : cmd.parameters = .obj [] := by
    split at hpar
    · assumption
    · cases hpar
  exact ⟨cmd, by rw [hid]; exact hf, hst, hpar,
    by simp only [Command.ready, pingReady, hid, hdev, hty, hexp, hrisk, hpar]⟩

end Veyaan
