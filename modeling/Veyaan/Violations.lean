import Mathlib.Data.List.Induction
import Veyaan.ClientMessages

/-!
# Protocol violations

A connection counts the frames on it that are no client messages, and is closed
at the fifth. The counter that `handle_device_message` increases is that of the
connection which the device has now, and it is increased for a `ProtocolError`
only. The counters of a connection are right as long as neither shows.
-/

namespace Veyaan.Client

open Python

/-- What `connection_manager` and its connections keep of this. -/
structure Connections where
  activeConnections : UUID → Option DeviceConnection
  violations : DeviceConnection → Nat
  closed : List (DeviceConnection × Nat)

namespace Connections

/-- `conn.violations += 1`, and the close at the limit. -/
def violate (s : Connections) (conn : DeviceConnection) : Connections where
  activeConnections := s.activeConnections
  violations c := if c = conn then s.violations conn + 1 else s.violations c
  closed := if s.violations conn + 1 ≥ 5 then (conn, 4005) :: s.closed else s.closed

def register (s : Connections) (conn : DeviceConnection) : Connections where
  activeConnections id := if id = conn.deviceId then some conn else s.activeConnections id
  violations := s.violations
  closed := ((s.activeConnections conn.deviceId).map (·, 4000)).toList ++ s.closed

/-- `del self.active_connections[device_id]`, if the connection is this one. -/
def unregister (s : Connections) (conn : DeviceConnection) : Connections where
  activeConnections id :=
    if id = conn.deviceId ∧ s.activeConnections id = some conn then none else s.activeConnections id
  violations := s.violations
  closed := s.closed

end Connections

section
variable (L : Library)

/-- What `handle_device_message` does to the counters. Its branches for a message
leave them alone, and what they raise is logged. -/
def handleDeviceMessage (deviceId : UUID) (data : ByteArray) (s : Connections) : Connections :=
  match parseClientMessage L data with
  | .error (.protocolError _ _) =>
    match s.activeConnections deviceId with
    | some conn => s.violate conn
    | none => s
  -- logged
  | .error _ => s
  | .ok _ => s

/-- One frame in the receive loop. A frame that is too large ends the connection. -/
def receiveFrame (conn : DeviceConnection) (data : ByteArray) (s : Connections) : Connections :=
  match validateMessageSize data with
  | .error _ => { s with closed := (conn, 1009) :: s.closed }.unregister conn
  | .ok _ => handleDeviceMessage L conn.deviceId data s

inductive Move where
  | register (conn : DeviceConnection)
  | unregister (conn : DeviceConnection)
  | frame (conn : DeviceConnection) (data : ByteArray)

def step (s : Connections) : Move → Connections
  | .register conn => s.register conn
  | .unregister conn => s.unregister conn
  | .frame conn data => receiveFrame L conn data s

def run (s : Connections) (ms : List Move) : Connections := ms.foldl (step L) s

/-! ## The law -/

def IsMessage (data : ByteArray) : Prop := ∃ m s fields, Grammar L data m s fields

instance (data : ByteArray) : Decidable (IsMessage L data) :=
  decidable_of_iff ((parseClientMessage L data).toOption.isSome = true) <| by
    unfold IsMessage
    simp only [← parse_ok_iff]
    cases parseClientMessage L data <;> simp [Except.toOption]

def Violates (data : ByteArray) : Prop := data.size ≤ maxMessageSize ∧ ¬ IsMessage L data

instance (data : ByteArray) : Decidable (Violates L data) := inferInstanceAs (Decidable (_ ∧ _))

def offences (k : DeviceConnection) (ms : List Move) : Nat :=
  ms.countP fun
    | .frame conn data => conn = k ∧ Violates L data
    | _ => false

structure Counted (k : DeviceConnection) (data : ByteArray) (s s' : Connections) : Prop where
  message : IsMessage L data → s'.violations = s.violations
  violation : ¬ IsMessage L data → ∀ c, s'.violations c = if c = k then s.violations k + 1 else s.violations c

/-- Every frame of `k` is counted, and `k` is closed when there have been five violations. -/
structure Limits (k : DeviceConnection) (s : Connections) (ms : List Move) : Prop where
  counted : ∀ pre data post, ms = pre ++ .frame k data :: post → data.size ≤ maxMessageSize →
    Counted L k data (run L s pre) (run L s (pre ++ [.frame k data]))
  closed : ∀ pre post, ms = pre ++ post → 5 ≤ offences L k pre → (k, 4005) ∈ (run L s pre).closed

/-- The frames of `k` raise a `ProtocolError` or nothing, and those that do arrive
while `k` is the connection of its device. -/
def Attributed (k : DeviceConnection) (s : Connections) (ms : List Move) : Prop :=
  ∀ pre data post, ms = pre ++ .frame k data :: post → Violates L data →
    ¬ Mishandled L data ∧ (run L s pre).activeConnections k.deviceId = some k

end

/-! ## One frame -/

section
variable {L : Library} {data : ByteArray} {s : Connections} {k : DeviceConnection} {m : Move}

theorem handle_message {deviceId : UUID} (h : IsMessage L data) : handleDeviceMessage L deviceId data s = s := by
  obtain ⟨m, _, _, hg⟩ := h
  unfold handleDeviceMessage
  rw [parse_ok_iff.mpr ⟨_, _, hg⟩]

theorem handle_mishandled {deviceId : UUID} (h : Mishandled L data) :
    handleDeviceMessage L deviceId data s = s := by
  obtain ⟨e, hraise, he⟩ := h.raises
  unfold handleDeviceMessage
  rw [hraise]
  cases e with
  | protocolError => cases he
  | unicodeDecodeError | json | attributeError | typeError => rfl

/-- A frame that is refused counts against the connection which the device has now. -/
theorem handle_refused {deviceId : UUID} (h : ¬ IsMessage L data) (hm : ¬ Mishandled L data) :
    handleDeviceMessage L deviceId data s = match s.activeConnections deviceId with
      | some conn => s.violate conn
      | none => s := by
  obtain ⟨code, message, hp⟩ := refused_of_not_mishandled hm fun m s fields hg => h ⟨m, s, fields, hg⟩
  unfold handleDeviceMessage
  rw [hp]

theorem receive_admissible (h : data.size ≤ maxMessageSize) :
    receiveFrame L k data s = handleDeviceMessage L k.deviceId data s := by
  unfold receiveFrame validateMessageSize
  rw [if_neg (Nat.not_lt.mpr h)]

theorem step_grows (c : DeviceConnection) :
    s.violations c ≤ (step L s m).violations c ∧ ∀ e ∈ s.closed, e ∈ (step L s m).closed := by
  cases m with
  | register conn => exact ⟨Nat.le_refl _, fun e he => List.mem_append_right _ he⟩
  | unregister conn => exact ⟨Nat.le_refl _, fun e he => he⟩
  | frame conn data =>
    simp only [step, receiveFrame]
    split
    · exact ⟨Nat.le_refl _, fun e he => List.mem_cons_of_mem _ he⟩
    · unfold handleDeviceMessage
      split
      · split
        · rename_i conn' _
          simp only [Connections.violate]
          constructor
          · split
            · rename_i hc
              subst hc
              exact Nat.le_succ _
            · exact Nat.le_refl _
          · intro e he
            split
            · exact List.mem_cons_of_mem _ he
            · exact he
        · exact ⟨Nat.le_refl _, fun e he => he⟩
      · exact ⟨Nat.le_refl _, fun e he => he⟩
      · exact ⟨Nat.le_refl _, fun e he => he⟩

theorem run_append (pre post : List Move) : run L s (pre ++ post) = run L (run L s pre) post :=
  List.foldl_append

theorem run_snoc (pre : List Move) (m : Move) : run L s (pre ++ [m]) = step L (run L s pre) m := by
  rw [run_append]
  rfl

theorem offences_snoc (pre : List Move) (m : Move) :
    offences L k (pre ++ [m]) = offences L k pre + offences L k [m] :=
  List.countP_append

theorem Attributed.prefix {pre post : List Move} (h : Attributed L k s (pre ++ post)) : Attributed L k s pre := by
  intro p data q hp
  subst hp
  exact h p data (q ++ post) (by simp)

/-- A violation counts against the connection that it came on, if it is attributed to it. -/
theorem step_violation (hv : Violates L data) (hm : ¬ Mishandled L data)
    (hk : s.activeConnections k.deviceId = some k) :
    step L s (.frame k data) = s.violate k := by
  simp only [step]
  rw [receive_admissible hv.1, handle_refused hv.2 hm, hk]

/-- As long as the violations of `k` are attributed to it, its counter keeps up with them. -/
theorem Attributed.counts {ms : List Move} (h : Attributed L k s ms) :
    offences L k ms ≤ (run L s ms).violations k ∧ (5 ≤ offences L k ms → (k, 4005) ∈ (run L s ms).closed) := by
  induction ms using List.reverseRecOn with
  | nil => exact ⟨Nat.zero_le _, fun h5 => absurd h5 (by simp [offences])⟩
  | append_singleton pre m ih =>
    obtain ⟨hcount, hclosed⟩ := ih h.prefix
    have hgrows := step_grows (L := L) (s := run L s pre) (m := m) k
    rw [run_snoc, offences_snoc]
    by_cases ho : offences L k [m] = 0
    · rw [ho, Nat.add_zero]
      exact ⟨Nat.le_trans hcount hgrows.1, fun h5 => hgrows.2 _ (hclosed h5)⟩
    · cases m with
      | register | unregister => exact absurd rfl ho
      | frame conn data =>
        by_cases hf : conn = k ∧ Violates L data
        · obtain ⟨rfl, hv⟩ := hf
          obtain ⟨hm, hk⟩ := h pre data [] rfl hv
          have hone : offences L conn [.frame conn data] = 1 := by simp [offences, hv]
          rw [step_violation hv hm hk, hone]
          simp only [Connections.violate, if_true]
          refine ⟨by omega, fun h5 => ?_⟩
          rw [if_pos (by omega)]
          exact List.mem_cons_self ..
        · exact absurd (by simpa [offences] using hf) ho

/-- The counter and the limit are right for a connection exactly if what is wrong on it raises a
`ProtocolError` while it is the connection of its device. -/
theorem limits_iff (ms : List Move) : Limits L k s ms ↔ Attributed L k s ms := by
  constructor
  · intro h pre data post hms hv
    have hcount := (h.counted pre data post hms hv.1).violation hv.2 k
    rw [run_snoc, if_pos rfl] at hcount
    simp only [step, receive_admissible hv.1] at hcount
    by_cases hm : Mishandled L data
    · rw [handle_mishandled hm] at hcount
      omega
    · rw [handle_refused hv.2 hm] at hcount
      refine ⟨hm, ?_⟩
      cases hactive : (run L s pre).activeConnections k.deviceId with
      | none =>
        simp only [hactive] at hcount
        omega
      | some conn =>
        by_cases hc : k = conn
        · rw [hc]
        · simp only [hactive, Connections.violate, if_neg hc] at hcount
          omega
  · intro h
    refine ⟨fun pre data post hms hsize => ?_, fun pre post hms h5 => ?_⟩
    · rw [run_snoc]
      refine ⟨fun hmsg => ?_, fun hno c => ?_⟩
      · simp only [step, receive_admissible hsize, handle_message hmsg]
      · obtain ⟨hm, hk⟩ := h pre data post hms ⟨hsize, hno⟩
        rw [step_violation ⟨hsize, hno⟩ hm hk]
        rfl
    · subst hms
      exact h.prefix.counts.2 h5

end

def demoConnection : DeviceConnection := ⟨5, 7, 1⟩

def demoConnections : Connections where
  activeConnections id := if id = 5 then some demoConnection else none
  violations _ := 0
  closed := []

/-- The frame `[]` is not counted. -/
theorem list_frame_uncounted :
    ¬ Limits demoLibrary demoConnection demoConnections [.frame demoConnection "[]".toUTF8] := by
  intro h
  have hno : ¬ IsMessage demoLibrary "[]".toUTF8 :=
    fun ⟨m, s, data, hg⟩ => demo_list_mishandled.not_grammar m s data hg
  have hsize : "[]".toUTF8.size ≤ maxMessageSize := by decide
  have hcount := (h.counted [] _ [] rfl hsize).violation hno demoConnection
  rw [run_snoc] at hcount
  simp only [step, receive_admissible hsize, handle_mishandled demo_list_mishandled] at hcount
  exact absurd hcount (by decide)

end Veyaan.Client
