import Veyaan.Lib.Python
import Veyaan.Runtime

/-!
# Client messages

`ProtocolValidator.parse_client_message` and the models of the six messages that
a device may send. `json` and `pydantic` are parameters: what `json.loads` gives,
and what the validator of each type of field gives.
-/

namespace Veyaan.Client

open Python

/-! ## Fields of a model -/

abbrev Refusals := List (String × String)

def collect {α β : Type} : Except Refusals (α → β) → Except Refusals α → Except Refusals β
  | .ok f, .ok a => .ok (f a)
  | .ok _, .error es => .error es
  | .error es, .ok _ => .error es
  | .error es, .error es' => .error (es ++ es')

section
variable {α : Type} (validate : Value → Except String α)

def validated (name : String) (v : Value) : Except Refusals α :=
  match validate v with
  | .ok a => .ok a
  | .error e => .error [(name, e)]

def required (name : String) (data : List (Text × Value)) : Except Refusals α :=
  match get data name with
  | some v => validated validate name v
  | none => .error [(name, "Field required")]

def withDefault (a : α) (name : String) (data : List (Text × Value)) : Except Refusals α :=
  match get data name with
  | some v => validated validate name v
  | none => .ok a

def optional : Value → Except String (Option α)
  | .none => .ok none
  | v => (validate v).map some

end

def literal (s : String) (v : Value) : Except String Unit :=
  if v.isString s then .ok () else .error ("Input should be '" ++ s ++ "'")

structure Library where
  /-- `json.loads(s)`. Of its exceptions only a `JSONDecodeError` carries its text: the
  others are a number of too many digits and a value nested too deeply. -/
  loads : String → Except (Option Text) Value
  str : Value → Text
  uuid : Value → Except String UUID
  string : Value → Except String Text
  integer : Value → Except String Int
  boolean : Value → Except String Bool
  datetime : Value → Except String Time
  dictionary : Value → Except String (List (Text × Value))
  report : Refusals → Text

/-! ## The models -/

structure HelloMessage where
  deviceId : UUID
  protocolVersion : Text
  appVersion : Text

structure HeartbeatMessage where
  deviceTime : Time
  state : Text
  activeCommandCount : Int
  appVersion : Text

structure CommandAckMessage where
  commandId : UUID
  accepted : Bool
  rejectionReason : Option Text
  deviceTimestamp : Time

structure CommandProgressMessage where
  commandId : UUID
  progressPercent : Option Int
  stage : Option Text
  statusMessage : Option Text

structure CommandResultMessage where
  commandId : UUID
  success : Bool
  resultData : Option (List (Text × Value))
  errorCode : Option Text
  errorMessage : Option Text
  startedAt : Time
  finishedAt : Time

structure DeviceStatusUpdateMessage where
  state : Text
  metadata : Option (List (Text × Value))

inductive ClientMessage where
  | hello (m : HelloMessage)
  | heartbeat (m : HeartbeatMessage)
  | acknowledge (m : CommandAckMessage)
  | progress (m : CommandProgressMessage)
  | result (m : CommandResultMessage)
  | statusUpdate (m : DeviceStatusUpdateMessage)

inductive Model where
  | hello
  | heartbeat
  | acknowledge
  | progress
  | result
  | statusUpdate
  deriving DecidableEq

def Model.type : Model → String
  | .hello => "hello"
  | .heartbeat => "heartbeat"
  | .acknowledge => "acknowledge"
  | .progress => "progress"
  | .result => "result"
  | .statusUpdate => "status_update"

def ClientMessage.model : ClientMessage → Model
  | .hello _ => .hello
  | .heartbeat _ => .heartbeat
  | .acknowledge _ => .acknowledge
  | .progress _ => .progress
  | .result _ => .result
  | .statusUpdate _ => .statusUpdate

def ClientMessage.type (m : ClientMessage) : String := m.model.type

section
variable (L : Library) (data : List (Text × Value))

def Model.fields : Model → Except Refusals ClientMessage
  | .hello => .map .hello <| collect (collect (collect (.ok .mk)
      (required L.uuid "device_id" data)) (required L.string "protocol_version" data))
      (required L.string "app_version" data)
  | .heartbeat => .map .heartbeat <| collect (collect (collect (collect (.ok .mk)
      (required L.datetime "device_time" data)) (required L.string "state" data))
      (required L.integer "active_command_count" data)) (required L.string "app_version" data)
  | .acknowledge => .map .acknowledge <| collect (collect (collect (collect (.ok .mk)
      (required L.uuid "command_id" data)) (required L.boolean "accepted" data))
      (withDefault (optional L.string) none "rejection_reason" data)) (required L.datetime "device_timestamp" data)
  | .progress => .map .progress <| collect (collect (collect (collect (.ok .mk)
      (required L.uuid "command_id" data)) (withDefault (optional L.integer) none "progress_percent" data))
      (withDefault (optional L.string) none "stage" data))
      (withDefault (optional L.string) none "status_message" data)
  | .result => .map .result <| collect (collect (collect (collect (collect (collect (collect (.ok .mk)
      (required L.uuid "command_id" data)) (required L.boolean "success" data))
      (withDefault (optional L.dictionary) none "result_data" data))
      (withDefault (optional L.string) none "error_code" data))
      (withDefault (optional L.string) none "error_message" data)) (required L.datetime "started_at" data))
      (required L.datetime "finished_at" data)
  | .statusUpdate => .map .statusUpdate <| collect (collect (.ok .mk)
      (required L.string "state" data)) (withDefault (optional L.dictionary) none "metadata" data)

/-- `model(**data)`. -/
def Model.construct (model : Model) : Except Refusals ClientMessage :=
  collect (collect (.ok fun _ m => m) (withDefault (literal model.type) () "type" data)) (model.fields L data)

end

/-! ## The validator -/

/-- What leaves `parse_client_message`. -/
inductive Raised where
  | protocolError (code : String) (message : Text)
  | unicodeDecodeError
  /-- Any exception of `json.loads` but a `JSONDecodeError`. -/
  | json
  | attributeError
  | typeError

def maxMessageSize : Nat := 1024 * 1024

def typeToModel : List (String × Model) :=
  [("hello", .hello), ("heartbeat", .heartbeat), ("acknowledge", .acknowledge),
    ("progress", .progress), ("result", .result), ("status_update", .statusUpdate)]

/-- `cls.TYPE_TO_MODEL.get(msg_type)`. -/
def findModel (msgType : Value) : Option Model := (typeToModel.find? fun p => msgType.isString p.1).map Prod.snd

def validateMessageSize (data : ByteArray) : Except Raised Unit :=
  if data.size > maxMessageSize then
    .error (.protocolError "MESSAGE_TOO_LARGE" (.ofString "Message exceeds maximum size of 1048576 bytes"))
  else .ok ()

/-- `f"{msg_type}"`. -/
def Library.format (L : Library) : Value → Text
  | .str t => t
  | v => L.str v

section
variable (L : Library)

/-- `json.loads(raw_data.decode("utf-8"))`, in its `try`. -/
def loadsRaw (rawData : ByteArray) : Except Raised Value :=
  match decode rawData with
  | none => .error .unicodeDecodeError
  | some s =>
    match L.loads s with
    | .ok data => .ok data
    | .error (some e) => .error (.protocolError "INVALID_JSON" (.ofString "Invalid JSON: " ++ e))
    | .error none => .error .json

/-- What follows `json.loads`. -/
def readMessage : Value → Except Raised ClientMessage
  | .dict data =>
    let msgType := (get data "type").getD .none
    if !msgType.truthy then .error (.protocolError "MISSING_TYPE" (.ofString "Message type is required"))
    else if !msgType.hashable then .error .typeError
    else
      match findModel msgType with
      | none =>
        .error (.protocolError "UNKNOWN_MESSAGE_TYPE" (.ofString "Unknown message type: " ++ L.format msgType))
      | some model =>
        match model.construct L data with
        | .ok m => .ok m
        | .error es =>
          .error (.protocolError "VALIDATION_ERROR" (.ofString "Invalid message format: " ++ L.report es))
  -- only a dictionary has a `get`
  | _ => .error .attributeError

def parseClientMessage (rawData : ByteArray) : Except Raised ClientMessage := do
  validateMessageSize rawData
  let data ← loadsRaw L rawData
  readMessage L data

end

/-! ## The grammar -/

def Holds {α : Type} (validate : Value → Except String α) (data : List (Text × Value))
    (name : String) (a : α) : Prop :=
  ∃ v, get data name = some v ∧ validate v = .ok a

def HoldsOr {α : Type} (validate : Value → Except String α) (d : α) (data : List (Text × Value))
    (name : String) (a : α) : Prop :=
  Holds validate data name a ∨ get data name = none ∧ a = d

def ClientMessage.Reads (L : Library) (data : List (Text × Value)) : ClientMessage → Prop
  | .hello m =>
    Holds L.uuid data "device_id" m.deviceId ∧ Holds L.string data "protocol_version" m.protocolVersion ∧
      Holds L.string data "app_version" m.appVersion
  | .heartbeat m => Holds L.datetime data "device_time" m.deviceTime ∧ Holds L.string data "state" m.state ∧
      Holds L.integer data "active_command_count" m.activeCommandCount ∧
      Holds L.string data "app_version" m.appVersion
  | .acknowledge m => Holds L.uuid data "command_id" m.commandId ∧ Holds L.boolean data "accepted" m.accepted ∧
      HoldsOr (optional L.string) none data "rejection_reason" m.rejectionReason ∧
      Holds L.datetime data "device_timestamp" m.deviceTimestamp
  | .progress m => Holds L.uuid data "command_id" m.commandId ∧
      HoldsOr (optional L.integer) none data "progress_percent" m.progressPercent ∧
      HoldsOr (optional L.string) none data "stage" m.stage ∧
      HoldsOr (optional L.string) none data "status_message" m.statusMessage
  | .result m => Holds L.uuid data "command_id" m.commandId ∧ Holds L.boolean data "success" m.success ∧
      HoldsOr (optional L.dictionary) none data "result_data" m.resultData ∧
      HoldsOr (optional L.string) none data "error_code" m.errorCode ∧
      HoldsOr (optional L.string) none data "error_message" m.errorMessage ∧
      Holds L.datetime data "started_at" m.startedAt ∧ Holds L.datetime data "finished_at" m.finishedAt
  | .statusUpdate m => Holds L.string data "state" m.state ∧
      HoldsOr (optional L.dictionary) none data "metadata" m.metadata

structure Grammar (L : Library) (rawData : ByteArray) (m : ClientMessage) (s : String)
    (data : List (Text × Value)) : Prop where
  size : rawData.size ≤ maxMessageSize
  utf8 : decode rawData = some s
  json : L.loads s = .ok (.dict data)
  type : get data "type" = some (.ofString m.type)
  reads : m.Reads L data

/-! ## What the validators accept -/

section
variable {α β : Type}

@[simp] theorem collect_ok_iff {f : Except Refusals (α → β)} {x : Except Refusals α} {b : β} :
    collect f x = .ok b ↔ ∃ g a, f = .ok g ∧ x = .ok a ∧ g a = b := by
  cases f <;> cases x <;> simp [collect]

theorem map_ok_iff {f : α → β} {x : Except Refusals α} {b : β} : Except.map f x = .ok b ↔
    ∃ a, x = .ok a ∧ f a = b := by
  cases x <;> simp [Except.map]

variable {validate : Value → Except String α} {data : List (Text × Value)} {name : String} {a d : α}

theorem validated_ok_iff {v : Value} : validated validate name v = .ok a ↔ validate v = .ok a := by
  unfold validated
  cases validate v <;> simp

@[simp] theorem required_ok_iff : required validate name data = .ok a ↔ Holds validate data name a := by
  unfold required Holds
  cases get data name <;> simp [validated_ok_iff]

@[simp] theorem withDefault_ok_iff : withDefault validate d name data = .ok a ↔ HoldsOr validate d data name a := by
  unfold withDefault HoldsOr Holds
  cases get data name with
  | some v => simp [validated_ok_iff]
  | none => simp [eq_comm]

end

section
variable {L : Library} {data : List (Text × Value)} {m : ClientMessage}

theorem fields_iff (model : Model) : model.fields L data = .ok m ↔ m.model = model ∧ m.Reads L data := by
  cases model with
  | hello | heartbeat | acknowledge | progress | result | statusUpdate =>
    simp only [Model.fields, map_ok_iff, collect_ok_iff, required_ok_iff, withDefault_ok_iff, Except.ok.injEq,
      exists_eq_left', exists_and_left, existsAndEq]
    cases m with
    | hello m | heartbeat m | acknowledge m | progress m | result m | statusUpdate m =>
      cases m
      simp [ClientMessage.model, ClientMessage.Reads, and_assoc]

theorem construct_iff {model : Model} (ht : get data "type" = some (.ofString model.type)) :
    model.construct L data = .ok m ↔ m.model = model ∧ m.Reads L data := by
  have hliteral : HoldsOr (literal model.type) () data "type" () :=
    .inl ⟨_, ht, by simp [literal]⟩
  simp [Model.construct, fields_iff, hliteral]

theorem typeToModel_type : ∀ p ∈ typeToModel, p.2.type = p.1 := by
  decide

theorem findModel_type (model : Model) : findModel (.ofString model.type) = some model := by
  cases model <;> decide

theorem findModel_eq_some {v : Value} {model : Model} (h : findModel v = some model) :
    v = .ofString model.type := by
  obtain ⟨p, hp, rfl⟩ := Option.map_eq_some_iff.mp h
  have hs : v.isString p.1 = true := by simpa using List.find?_some hp
  rw [typeToModel_type p (List.mem_of_find?_eq_some hp)]
  exact Value.eq_ofString hs

end

/-! ## What the parser accepts -/

inductive Mishandled (L : Library) (rawData : ByteArray) : Prop
  | undecodable : rawData.size ≤ maxMessageSize → decode rawData = none → Mishandled L rawData
  | unloadable {s : String} : rawData.size ≤ maxMessageSize → decode rawData = some s → L.loads s = .error none →
      Mishandled L rawData
  | notAnObject {s : String} {v : Value} : rawData.size ≤ maxMessageSize →
      decode rawData = some s → L.loads s = .ok v →
      (∀ data, v ≠ .dict data) → Mishandled L rawData
  | unhashable {s : String} {data : List (Text × Value)} {v : Value} : rawData.size ≤ maxMessageSize →
      decode rawData = some s → L.loads s = .ok (.dict data) → get data "type" = some v → v.truthy = true →
      v.hashable = false → Mishandled L rawData

def Raised.isProtocolError : Raised → Bool
  | .protocolError _ _ => true
  | _ => false

section
variable {L : Library} {rawData : ByteArray} {m : ClientMessage}

theorem parse_of_size (h : rawData.size ≤ maxMessageSize) :
    parseClientMessage L rawData = (loadsRaw L rawData).bind (readMessage L) := by
  unfold parseClientMessage validateMessageSize
  rw [if_neg (Nat.not_lt.mpr h)]
  rfl

theorem parse_of_large (h : ¬ rawData.size ≤ maxMessageSize) : ∃ message,
    parseClientMessage L rawData = .error (.protocolError "MESSAGE_TOO_LARGE" message) := by
  unfold parseClientMessage validateMessageSize
  rw [if_pos (Nat.not_le.mp h)]
  exact ⟨_, rfl⟩

theorem loadsRaw_ok_iff {v : Value} : loadsRaw L rawData = .ok v ↔
    ∃ s, decode rawData = some s ∧ L.loads s = .ok v := by
  unfold loadsRaw
  cases decode rawData with
  | none => simp
  | some s =>
    simp only [Option.some.injEq, exists_eq_left']
    split <;> simp_all

theorem get_of_truthy {data : List (Text × Value)} (h : ((get data "type").getD .none).truthy = true) :
    get data "type" = some ((get data "type").getD .none) := by
  cases ht : get data "type" with
  | some v => rfl
  | none =>
    rw [ht] at h
    cases h

theorem readMessage_cases (data : List (Text × Value)) :
    (∃ code message, readMessage L (.dict data) = .error (.protocolError code message)) ∨
    (∃ v, get data "type" = some v ∧ v.truthy = true ∧ v.hashable = false ∧
      readMessage L (.dict data) = .error .typeError) ∨
    ∃ m, get data "type" = some (.ofString m.type) ∧ m.Reads L data ∧ readMessage L (.dict data) = .ok m := by
  by_cases ht : ((get data "type").getD .none).truthy = true
  · have hget := get_of_truthy ht
    generalize (get data "type").getD .none = v at ht hget
    by_cases hh : v.hashable = true
    · simp only [readMessage, hget, Option.getD_some, ht, hh, Bool.not_true, Bool.false_eq_true, if_false]
      cases hmodel : findModel v with
      | none => exact .inl ⟨_, _, rfl⟩
      | some model =>
        obtain rfl := findModel_eq_some hmodel
        cases hc : model.construct L data with
        | error es =>
          simp only [hc]
          exact .inl ⟨_, _, rfl⟩
        | ok m =>
          obtain ⟨rfl, hr⟩ := (construct_iff hget).mp hc
          simp only [hc]
          exact .inr (.inr ⟨m, rfl, hr, rfl⟩)
    · rw [Bool.not_eq_true] at hh
      exact .inr (.inl ⟨v, hget, ht, hh, by simp [readMessage, hget, ht, hh]⟩)
  · rw [Bool.not_eq_true] at ht
    simp only [readMessage, ht, Bool.not_false, if_true]
    exact .inl ⟨_, _, rfl⟩

theorem readMessage_ok_iff {v : Value} : readMessage L v = .ok m ↔
    ∃ data, v = .dict data ∧ get data "type" = some (.ofString m.type) ∧ m.Reads L data := by
  constructor
  · intro h
    cases v with
    | dict data =>
      obtain ⟨_, _, he⟩ | ⟨_, _, _, _, he⟩ | ⟨m', ht, hr, hm⟩ := readMessage_cases (L := L) data
      · cases h.symm.trans he
      · cases h.symm.trans he
      · cases h.symm.trans hm
        exact ⟨data, rfl, ht, hr⟩
    | none | bool | int | float | nonFinite | str | list => cases h
  · rintro ⟨data, rfl, ht, hr⟩
    have htype : (Value.ofString m.type).truthy = true ∧ (Value.ofString m.type).hashable = true := by
      refine ⟨?_, rfl⟩
      cases m <;> simp [Value.ofString, Value.truthy, Text.ofString, ClientMessage.type,
        ClientMessage.model, Model.type]
    have hconstruct : m.model.construct L data = .ok m := (construct_iff ht).mpr ⟨rfl, hr⟩
    simp only [readMessage, ht, Option.getD_some, htype, Bool.not_true, Bool.false_eq_true, if_false]
    rw [ClientMessage.type, findModel_type]
    simp only [hconstruct]

theorem parse_ok_iff : parseClientMessage L rawData = .ok m ↔ ∃ s data, Grammar L rawData m s data := by
  by_cases hsize : rawData.size ≤ maxMessageSize
  · rw [parse_of_size hsize]
    constructor
    · intro h
      cases hl : loadsRaw L rawData with
      | error e =>
        rw [hl] at h
        cases h
      | ok v =>
        rw [hl] at h
        obtain ⟨s, hs, hv⟩ := loadsRaw_ok_iff.mp hl
        obtain ⟨data, rfl, ht, hr⟩ := readMessage_ok_iff.mp h
        exact ⟨s, data, hsize, hs, hv, ht, hr⟩
    · rintro ⟨s, data, hg⟩
      rw [loadsRaw_ok_iff.mpr ⟨s, hg.utf8, hg.json⟩]
      exact readMessage_ok_iff.mpr ⟨data, rfl, hg.type, hg.reads⟩
  · obtain ⟨message, h⟩ := parse_of_large (L := L) hsize
    rw [h]
    exact ⟨nofun, fun ⟨_, _, hg⟩ => absurd hg.size hsize⟩

theorem mishandled_of_raises {e : Raised} (h : parseClientMessage L rawData = .error e)
    (he : e.isProtocolError = false) :
    Mishandled L rawData := by
  by_cases hsize : rawData.size ≤ maxMessageSize
  · rw [parse_of_size hsize] at h
    cases hs : decode rawData with
    | none => exact .undecodable hsize hs
    | some s =>
      cases hl : L.loads s with
      | error t =>
        cases t with
        | none => exact .unloadable hsize hs hl
        | some text =>
          simp only [loadsRaw, hs, hl] at h
          cases h
          cases he
      | ok v =>
        rw [loadsRaw_ok_iff.mpr ⟨s, hs, hl⟩] at h
        cases v with
        | dict data =>
          obtain ⟨_, _, hp⟩ | ⟨v, hv, ht, hh, -⟩ | ⟨m', -, -, hm⟩ := readMessage_cases (L := L) data
          · cases h.symm.trans hp
            cases he
          · exact .unhashable hsize hs hl hv ht hh
          · cases h.symm.trans hm
        | none | bool | int | float | nonFinite | str | list => exact .notAnObject hsize hs hl fun _ h => nomatch h
  · obtain ⟨message, hlarge⟩ := parse_of_large (L := L) hsize
    rw [hlarge] at h
    cases h
    cases he

theorem refused_of_not_mishandled (h : ¬ Mishandled L rawData) (hno : ∀ m s data, ¬ Grammar L rawData m s data) :
    ∃ code message, parseClientMessage L rawData = .error (.protocolError code message) := by
  cases hp : parseClientMessage L rawData with
  | ok m =>
    obtain ⟨s, data, hg⟩ := parse_ok_iff.mp hp
    exact absurd hg (hno m s data)
  | error e =>
    cases e with
    | protocolError code message => exact ⟨code, message, rfl⟩
    | unicodeDecodeError | json | attributeError | typeError => exact absurd (mishandled_of_raises hp rfl) h

theorem Mishandled.raises (h : Mishandled L rawData) :
    ∃ e, parseClientMessage L rawData = .error e ∧ e.isProtocolError = false := by
  cases h with
  | undecodable hsize hs =>
    rw [parse_of_size hsize, loadsRaw, hs]
    exact ⟨_, rfl, rfl⟩
  | unloadable hsize hs hl =>
    rw [parse_of_size hsize, loadsRaw, hs]
    simp only [hl]
    exact ⟨_, rfl, rfl⟩
  | notAnObject hsize hs hl hv =>
    rw [parse_of_size hsize, loadsRaw_ok_iff.mpr ⟨_, hs, hl⟩]
    rename_i v
    cases v with
    | dict data => exact absurd rfl (hv data)
    | none | bool | int | float | nonFinite | str | list => exact ⟨_, rfl, rfl⟩
  | unhashable hsize hs hl hv ht hh =>
    rw [parse_of_size hsize, loadsRaw_ok_iff.mpr ⟨_, hs, hl⟩]
    refine ⟨.typeError, ?_, rfl⟩
    simp [Except.bind, readMessage, hv, ht, hh]

end

def AcceptsGrammar (L : Library) (rawData : ByteArray) : Prop :=
  (∀ m, parseClientMessage L rawData = .ok m ↔ ∃ s data, Grammar L rawData m s data) ∧
    ((∀ m s data, ¬ Grammar L rawData m s data) →
      ∃ code message, parseClientMessage L rawData = .error (.protocolError code message))

theorem Mishandled.not_grammar {L : Library} {rawData : ByteArray} (h : Mishandled L rawData)
    (m : ClientMessage) (s : String) (data : List (Text × Value)) : ¬ Grammar L rawData m s data := by
  intro hg
  obtain ⟨e, hraise, -⟩ := h.raises
  have hok := parse_ok_iff.mpr ⟨s, data, hg⟩
  rw [hraise] at hok
  cases hok

theorem Mishandled.not_accepts {L : Library} {rawData : ByteArray} (h : Mishandled L rawData) :
    ¬ AcceptsGrammar L rawData := by
  rintro ⟨-, href⟩
  obtain ⟨e, hraise, he⟩ := h.raises
  obtain ⟨code, message, hp⟩ := href h.not_grammar
  cases hraise.symm.trans hp
  cases he

theorem accepts_grammar_iff (L : Library) (rawData : ByteArray) : AcceptsGrammar L rawData ↔
    ¬ Mishandled L rawData := by
  constructor
  · exact fun h hm => hm.not_accepts h
  · exact fun h => ⟨fun m => parse_ok_iff, refused_of_not_mishandled h⟩

def demoLibrary : Library where
  loads s := if s = "[]" then .ok (.list []) else if s = "1" then .ok (.int 1) else
    .error (some (.ofString "Expecting value: line 1 column 1 (char 0)"))
  str _ := .ofString "1"
  uuid _ := .error "UUID input should be a string, bytes or UUID object"
  string _ := .error "Input should be a valid string"
  integer v :=
    match v with
    | .int n => .ok n
    | _ => .error "Input should be a valid integer"
  boolean _ := .error "Input should be a valid boolean"
  datetime _ := .error "Input should be a valid datetime"
  dictionary _ := .error "Input should be a valid dictionary"
  report _ := .ofString "1 validation error"

theorem demo_loads_list : demoLibrary.loads "[]" = .ok (.list []) := by
  simp [demoLibrary]

theorem demo_list_mishandled : Mishandled demoLibrary "[]".toUTF8 :=
  .notAnObject (by decide) (decode_toUTF8 "[]") demo_loads_list fun _ h => nomatch h

/-- The frame `[]` raises an `AttributeError`. -/
theorem list_message_raises : ¬ AcceptsGrammar demoLibrary "[]".toUTF8 :=
  demo_list_mishandled.not_accepts

end Veyaan.Client
