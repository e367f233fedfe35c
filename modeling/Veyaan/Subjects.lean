import Veyaan.Consumer
import Veyaan.Identifiers
import Veyaan.Lib.Python

/-!
# Subjects

Every message has a subject: words with dots between them, the last of which is
an identifier. The lifecycle consumer looks for its keys in the whole subject,
one after the other, and `security_callback` splits the subject at its dots. No
key and no identifier has a dot, so a key that stands in a subject stands in
one of its words; and no key consists of hexadecimal digits and dashes.
-/

namespace Veyaan

open Python (Value)

/-! ## The catalogue -/

namespace Subjects

def subject (area event id : String) : String := ".".intercalate ["veyaan", area, event, id]

def commandReady (deviceId : String) : String := subject "command" "ready" deviceId
def commandDelivered (commandId : String) : String := subject "command" "delivered" commandId
def commandAcknowledged (commandId : String) : String := subject "command" "acknowledged" commandId
def commandProgress (commandId : String) : String := subject "command" "progress" commandId
def commandResult (commandId : String) : String := subject "command" "result" commandId
def commandCancel (deviceId : String) : String := subject "command" "cancel" deviceId
def deviceLifecycle (deviceId : String) : String := subject "device" "lifecycle" deviceId
def approvalDecided (approvalId : String) : String := subject "approval" "decided" approvalId
def emergencyStop (ownerId : String) : String := subject "security" "emergency_stop" ownerId
def emergencyResume (ownerId : String) : String := subject "security" "emergency_resume" ownerId

def lifecycle : Lifecycle → String → String
  | .delivered => commandDelivered
  | .acknowledged => commandAcknowledged
  | .progress => commandProgress
  | .result => commandResult

def others : List (String → String) :=
  [commandReady, commandCancel, deviceLifecycle, approvalDecided, emergencyStop, emergencyResume]

end Subjects

/-- `str(id)`, as a string. -/
def uuidText (id : UUID) : String := .ofList (strUuid id)

def Msg.subject : Msg → String
  | .commandReady deviceId _ => Subjects.commandReady (uuidText deviceId)
  | .lifecycle kind commandId _ => Subjects.lifecycle kind (uuidText commandId)
  | .emergencyStop ownerId _ => Subjects.emergencyStop (uuidText ownerId)
  | .emergencyResume ownerId _ => Subjects.emergencyResume (uuidText ownerId)
  | .deviceLifecycle deviceId _ _ => Subjects.deviceLifecycle (uuidText deviceId)

/-! ## The lifecycle consumer -/

def occursIn (key text : String) : Bool := decide (key.toList <:+: text.toList)

/-- `_HANDLERS`: a kind stands for its handler, which is `handler kind`. -/
def handlers : List (String × Lifecycle) :=
  [("delivered", .delivered), ("acknowledged", .acknowledged), ("progress", .progress), ("result", .result)]

/-- `_route_handler`. -/
def routeHandler (subject : String) : Option Lifecycle :=
  (handlers.find? fun h => occursIn h.1 subject).map Prod.snd

/-- The body of `poll_sub` for one message with this payload. -/
def pollMessage (m : Msg) (payload : LifecyclePayload) : Op Unit :=
  match routeHandler m.subject with
  | none => effect (.ack m)
  | some kind => do
    match ← (handler kind payload).attempt with
    | .ok _ => effect (.ack m)
    | .error _ => effect (.nak m)

/-! ## The gateway -/

/-- The arguments of `broadcast_emergency_stop`. -/
structure Broadcast where
  ownerId : UUID
  active : Bool
  reason : Value

/-- `active` and `owner_id` of `security_callback`. A subject of fewer than four parts has
none, and one whose fourth part is no UUID raises. -/
def securityTarget (U : Unicode) (subject : String) : Option (Bool × UUID) :=
  match subject.toList.splitOn '.' with
  | _ :: _ :: action :: ownerId :: _ => (uuidOf U ownerId).map fun id => (action == "emergency_stop".toList, id)
  | _ => none

/-- What `security_callback` broadcasts, if anything: it swallows its exceptions. `data` is what
`json.loads(msg.data.decode())` returns, or `none` when that raises. -/
def securityCallback (U : Unicode) (subject : String) (data : Option Value) : Option Broadcast := do
  let data ← data
  let (active, ownerId) ← securityTarget U subject
  match data with
  | .dict fields => return { ownerId, active, reason := (Python.get fields "reason").getD (.ofString "") }
  | _ => none

/-! ## Keys in subjects -/

section
variable (area event : String) (id : UUID)

theorem subject_words (s : String) :
    (Subjects.subject area event s).toList = ['.'].intercalate ["veyaan".toList,
      area.toList, event.toList, s.toList] :=
  String.toList_intercalate

theorem occursIn_subject {h : String × Lifecycle} (hh : h ∈ handlers) :
    occursIn h.1 (Subjects.subject area event (uuidText id)) =
      (occursIn h.1 "veyaan" || occursIn h.1 area || occursIn h.1 event) := by
  have hkeys : (handlers.all fun h => !h.1.toList.contains '.' &&
      h.1.toList.any fun c => !"0123456789abcdef-".toList.contains c) = true := by
    decide
  have hkey := List.all_eq_true.mp hkeys h hh
  simp only [Bool.and_eq_true, Bool.not_eq_true', List.contains_eq_mem,
    decide_eq_false_iff_not, List.any_eq_true] at hkey
  obtain ⟨hdot, c, hc, hhex⟩ := hkey
  have hne : h.1.toList ≠ [] := List.ne_nil_of_mem hc
  -- no key is part of an identifier
  have hid : ¬ h.1.toList <:+: strUuid id := fun hi => not_mem_strUuid hhex id (hi.subset hc)
  have hiff := Words.infix_intercalate_iff hdot hne ["veyaan".toList, area.toList, event.toList, strUuid id]
  rw [Bool.eq_iff_iff]
  simp only [occursIn, decide_eq_true_eq, Bool.or_eq_true, subject_words, uuidText, String.toList_ofList]
  rw [hiff]
  simp [hid, or_assoc]

theorem routeHandler_subject : routeHandler (Subjects.subject area event (uuidText id)) =
    (handlers.find? fun h => occursIn h.1 "veyaan" || occursIn h.1 area || occursIn h.1 event).map Prod.snd := by
  have hfilter : handlers.filter (fun h => occursIn h.1 (Subjects.subject area event (uuidText id))) =
      handlers.filter fun h => occursIn h.1 "veyaan" || occursIn h.1 area || occursIn h.1 event := by
    apply List.filter_congr
    intro h hh
    exact occursIn_subject area event id hh
  unfold routeHandler
  rw [← List.head?_filter, ← List.head?_filter, hfilter]

theorem routeHandler_lifecycle (kind : Lifecycle) :
    routeHandler (Subjects.lifecycle kind (uuidText id)) = some kind := by
  cases kind with
  | delivered => exact (routeHandler_subject "command" "delivered" id).trans (by decide)
  | acknowledged => exact (routeHandler_subject "command" "acknowledged" id).trans (by decide)
  | progress => exact (routeHandler_subject "command" "progress" id).trans (by decide)
  | result => exact (routeHandler_subject "command" "result" id).trans (by decide)

theorem routeHandler_others (builder : String → String) (h : builder ∈ Subjects.others) :
    routeHandler (builder (uuidText id)) = none := by
  simp only [Subjects.others, List.mem_cons, List.not_mem_nil, or_false] at h
  rcases h with rfl | rfl | rfl | rfl | rfl | rfl <;> exact (routeHandler_subject _ _ id).trans (by decide)

/-! ## Subjects taken apart -/

theorem securityTarget_subject (U : Unicode) {id : UUID} (ha : '.' ∉ area.toList)
    (he : '.' ∉ event.toList) (hid : id < 2 ^ 128) :
    securityTarget U (Subjects.subject area event (uuidText id)) =
    some (event.toList == "emergency_stop".toList, id) := by
  have hsplit : (Subjects.subject area event (uuidText id)).toList.splitOn '.' =
      ["veyaan".toList, area.toList, event.toList, strUuid id] := by
    rw [subject_words, List.splitOn_intercalate]
    · simp [uuidText]
    · simp only [List.mem_cons, List.not_mem_nil, or_false, uuidText, String.toList_ofList]
      rintro l (rfl | rfl | rfl | rfl)
      · decide
      · exact ha
      · exact he
      · exact not_mem_strUuid (by decide) id
    · simp
  unfold securityTarget
  rw [hsplit]
  simp only [uuidOf_strUuid U hid, Option.map_some]

theorem securityTarget_stop (U : Unicode) {id : UUID} (h : id < 2 ^ 128) :
    securityTarget U (Subjects.emergencyStop (uuidText id)) = some (true, id) := by
  have ht := securityTarget_subject "security" "emergency_stop" U (by decide) (by decide) h
  rw [beq_self_eq_true] at ht
  exact ht

theorem securityTarget_resume (U : Unicode) {id : UUID} (h : id < 2 ^ 128) :
    securityTarget U (Subjects.emergencyResume (uuidText id)) = some (false, id) := by
  have ht := securityTarget_subject "security" "emergency_resume" U (by decide) (by decide) h
  have hne : ("emergency_resume".toList == "emergency_stop".toList) = false := by decide
  rw [hne] at ht
  exact ht

theorem securityCallback_dict {U : Unicode} {s : String} {active : Bool} (fields : List (Python.Text × Value))
    (h : securityTarget U s = some (active, id)) : securityCallback U s (some (.dict fields)) =
      some { ownerId := id, active, reason := (Python.get fields "reason").getD (.ofString "") } := by
  unfold securityCallback
  rw [h]
  rfl

/-- **Subjects route to their own handler**, for every UUID, and those of the emergency stop tell
the gateway whose stop it is, and whether it is on. -/
theorem subjects_routed (U : Unicode) (u : Fin (2 ^ 128)) :
    routeHandler (Subjects.commandDelivered (uuidText u)) = some .delivered ∧
    routeHandler (Subjects.commandAcknowledged (uuidText u)) = some .acknowledged ∧
    routeHandler (Subjects.commandProgress (uuidText u)) = some .progress ∧
    routeHandler (Subjects.commandResult (uuidText u)) = some .result ∧
    securityTarget U (Subjects.emergencyStop (uuidText u)) = some (true, u.val) ∧
    securityTarget U (Subjects.emergencyResume (uuidText u)) = some (false, u.val) ∧
    (∀ fields, securityCallback U (Subjects.emergencyStop (uuidText u)) (some (.dict fields)) =
      some { ownerId := u, active := true, reason := (Python.get fields "reason").getD (.ofString "") }) ∧
    (∀ fields, securityCallback U (Subjects.emergencyResume (uuidText u)) (some (.dict fields)) =
      some { ownerId := u, active := false, reason := (Python.get fields "reason").getD (.ofString "") }) ∧
    ∀ builder ∈ Subjects.others, routeHandler (builder (uuidText u)) = none := by
  have hstop := securityTarget_stop U u.isLt
  have hresume := securityTarget_resume U u.isLt
  refine ⟨routeHandler_lifecycle u .delivered, routeHandler_lifecycle u .acknowledged,
    routeHandler_lifecycle u .progress, routeHandler_lifecycle u .result, hstop, hresume, ?_, ?_, ?_⟩
  · intro fields
    exact securityCallback_dict _ fields hstop
  · intro fields
    exact securityCallback_dict _ fields hresume
  · intro builder hb
    exact routeHandler_others u builder hb

/-! ## Messages -/

theorem pollMessage_lifecycle (kind : Lifecycle) (payload : LifecyclePayload) :
    pollMessage (.lifecycle kind id payload) payload = consume kind id payload := by
  unfold pollMessage Msg.subject
  rw [routeHandler_lifecycle]
  rfl

theorem pollMessage_other {m : Msg} (h : ∀ kind id payload, m ≠ .lifecycle kind id payload)
    (payload : LifecyclePayload) :
    pollMessage m payload = effect (.ack m) := by
  have hnone : routeHandler m.subject = none := by
    cases m with
    | lifecycle kind id p => exact absurd rfl (h kind id p)
    | commandReady deviceId _ =>
      exact routeHandler_others deviceId Subjects.commandReady (by simp [Subjects.others])
    | emergencyStop ownerId _ =>
      exact routeHandler_others ownerId Subjects.emergencyStop (by simp [Subjects.others])
    | emergencyResume ownerId _ =>
      exact routeHandler_others ownerId Subjects.emergencyResume (by simp [Subjects.others])
    | deviceLifecycle deviceId _ _ =>
      exact routeHandler_others deviceId Subjects.deviceLifecycle (by simp [Subjects.others])
  unfold pollMessage
  rw [hnone]

end

end Veyaan
