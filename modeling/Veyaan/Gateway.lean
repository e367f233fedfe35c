import Veyaan.Consumer

/-!
# The gateway

One round of `nats_listener` for one ready message, and what
`handle_device_message` does with one frame of a device.
-/

namespace Veyaan

/-! ## Delivery -/

/-- The body of the `try` in `_pre_delivery_check`. -/
def deliverable (commandId deviceId : UUID) : Op Bool := do
  match ← Prog.call (.fresh (some (.preDelivery commandId deviceId)) fun d => d.commands.find commandId) with
  | none => return false
  | some command =>
    if command.deviceId ≠ deviceId then return false
    else if command.state ≠ .queued then return false
    else
      match command.expiresAt with
      | none => return true
      | some expiresAt =>
        let now ← effect .now
        return !(expiresAt < now)

/-- `_pre_delivery_check`: an exception of the check reads as a refusal. -/
def preDeliveryCheck (commandId deviceId : UUID) : Op Bool := do
  match ← (deliverable commandId deviceId).attempt with
  | .ok ok => return ok
  | .error _ => return false

def sendCommand (conn : DeviceConnection) (p : ReadyPayload) : Op Unit := do
  let traceId ← effect .uuid4
  match p.expiresAt with
  | none => raise .validation
  | some expiresAt =>
    let sent ← effect (.sendJson conn ⟨p.commandId, p.commandType, p.parameters, expiresAt, p.riskLevel, traceId⟩)
    if sent then
      effect (.publishJs (.lifecycle .delivered p.commandId
        { commandId := some p.commandId, deviceId := some conn.deviceId }) none)
      effect (.ack (.commandReady conn.deviceId p))
    else effect (.nak (.commandReady conn.deviceId p))

/-- The delivery once `is_active` has answered. -/
def deliverChecked (conn : DeviceConnection) (p : ReadyPayload) (stopped : Bool) : Op Unit := do
  if stopped then effect (.nak (.commandReady conn.deviceId p))
  else
    let preCheckOk ← preDeliveryCheck p.commandId conn.deviceId
    if preCheckOk then sendCommand conn p
    -- the message is discarded
    else effect (.ack (.commandReady conn.deviceId p))

/-- The body of the loop of `nats_listener`. -/
def natsListener (conn : DeviceConnection) (p : ReadyPayload) : Op Unit := do
  effect (.fetch conn (.commandReady conn.deviceId p))
  match ← (do let stopped ← isActive .deliver conn.ownerId; deliverChecked conn p stopped : Op Unit).attempt with
  | .ok _ => return ()
  | .error _ => effect (.nak (.commandReady conn.deviceId p))

/-! ## Frames -/

/-- `_command_belongs_to_device`. -/
def commandBelongsToDevice (commandId deviceId : UUID) : Op Bool := do
  match ← (Prog.call (.fresh none fun d => (d.commands.find commandId).map Command.deviceId) : Op _).attempt with
  | .ok (some row) => return row == deviceId
  | .ok none => return false
  | .error _ => return false

def publishOwned (conn : DeviceConnection) (commandId : UUID) (kind : Lifecycle) (p : LifecyclePayload) :
    Op Unit := do
  if ← commandBelongsToDevice commandId conn.deviceId then effect (.publish (.lifecycle kind commandId p))
  else return ()

/-- What `handle_device_message` publishes for a frame. -/
def Frame.message (deviceId : UUID) : Frame → Option (Lifecycle × UUID × LifecyclePayload)
  | .acknowledge commandId accepted rejectionReason =>
    some (.acknowledged, commandId,
      { commandId := some commandId, deviceId := some deviceId, accepted := some accepted, rejectionReason })
  | .progress commandId progressPercent stage =>
    some (.progress, commandId,
      { commandId := some commandId, deviceId := some deviceId, progressPercent, stage })
  | .result commandId success resultData errorCode errorMessage =>
    some (.result, commandId,
      { commandId := some commandId, deviceId := some deviceId, success := some success, resultData, errorCode,
        errorMessage })
  | _ => none

/-- The branches of `handle_device_message`. -/
def handleFrame (conn : DeviceConnection) (f : Frame) : Op Unit :=
  match f.message conn.deviceId with
  | some (kind, commandId, p) => publishOwned conn commandId kind p
  | none =>
    match f with
    | .heartbeat => effect (.setPresence conn.deviceId)
    | .statusUpdate state => effect (.publish (.deviceLifecycle conn.deviceId state none))
    | _ => return ()

def handleDeviceMessage (conn : DeviceConnection) (f : Frame) : Op Unit := do
  effect (.receive conn f)
  let _ ← (handleFrame conn f).attempt
  return ()

end Veyaan
