import Veyaan.System

/-!
# The rows of an owner

A device has an owner, and with it what hangs on the device. The routes that read
show a user nothing but his own rows: what belongs to others looks like what is
not there.
-/

/-! ## The rows that are selected -/

namespace Table

variable {ρ κ : Type} [Keyed ρ κ] [DecidableEq κ] {t : Table ρ} {r : ρ} {p : ρ → Bool}

omit [DecidableEq κ] in
/-- `SELECT … WHERE`, as a table. -/
def only (t : Table ρ) (p : ρ → Bool) : Table ρ := ⟨t.rows.filter p, t.nodup.sublist (List.filter_sublist.map key)⟩

theorem find_iff {k : κ} : t.find k = some r ↔ r ∈ t.rows ∧ key r = k := by
  constructor
  · intro h
    exact ⟨mem_of_find h, key_of_find h⟩
  · rintro ⟨hr, rfl⟩
    exact find_of_mem hr

omit [DecidableEq κ] in
theorem mem_only : r ∈ (t.only p).rows ↔ r ∈ t.rows ∧ p r = true := List.mem_filter

theorem find_only (k : κ) : (t.only p).find k = (t.find k).filter p := by
  apply Option.ext
  intro r
  rw [find_iff, mem_only, Option.filter_eq_some_iff, find_iff]
  tauto

theorem only_put {u : Table ρ} (h : t.only p = u) (hr : p r = false) (hold : u.find (key r) = none) :
    (t.put r).only p = u := by
  subst h
  suffices h : ∀ l : List ρ, (∀ x ∈ l, key x = key r → p x = false) → (putRow r l).filter p = l.filter p by
    have hrows : ((t.put r).only p).rows = (t.only p).rows := by
      apply h
      intro x hx hk
      by_cases hp : p x = true
      · have := find_of_mem (mem_only.mpr ⟨hx, hp⟩)
        rw [hk, hold] at this
        cases this
      · simpa using hp
    cases hs : (t.put r).only p
    cases ht : t.only p
    rw [hs, ht] at hrows
    cases hrows
    rfl
  intro l hl
  induction l with
  | nil => simp [putRow, hr]
  | cons y l ih =>
    by_cases hy : key y = key r
    · have hpy := hl y (List.mem_cons_self ..) hy
      simp [putRow, hy, hr, hpy]
    · have := ih fun x hx => hl x (List.mem_cons_of_mem _ hx)
      by_cases hp : p y = true <;> simp [putRow, hy, hp, this]

end Table

namespace Veyaan

open Sys

/-! ## The rows of an owner -/

@[ext] structure Slice where
  devices : Table Device
  credentials : Table DeviceCredential
  pairings : Table PairingRequest
  commands : Table Command
  tasks : Table Task
  events : List CommandStateEvent
  approvals : Table Approval
  stop : Option EmergencyStop
  outbox : Table OutboxEvent
  audits : List AuditLog

namespace Slice

variable (s : Slice) (o : UUID)

def owns (deviceId : UUID) : Bool := (s.devices.find deviceId).isSome

def ownsCommand (commandId : UUID) : Bool := (s.commands.find commandId).isSome

def concerns : AggregateType → UUID → Bool
  | .command, id => s.ownsCommand id
  | .owner, id => id == o
  | .device, id => s.owns id

end Slice

def PairingRequest.pairedBy (o : UUID) (p : PairingRequest) : Bool := p.status == .confirmed && p.ownerId == some o

structure DB.Shows (d : DB) (o : UUID) (s : Slice) : Prop where
  devices : d.devices.only (·.ownerId == o) = s.devices
  credentials : d.credentials.only (s.owns ·.deviceId) = s.credentials
  pairings : d.pairings.only (·.pairedBy o) = s.pairings
  commands : d.commands.only (s.owns ·.deviceId) = s.commands
  tasks : d.tasks.only (s.ownsCommand ·.commandId) = s.tasks
  events : d.events.filter (s.ownsCommand ·.commandId) = s.events
  approvals : d.approvals.only (·.ownerId == o) = s.approvals
  stop : d.stops.find o = s.stop
  outbox : d.outbox.only (fun e => s.concerns o e.aggregateType e.aggregateId) = s.outbox
  audits : d.audits.filter (·.userId == o) = s.audits

def DB.slice (d : DB) (o : UUID) : Slice :=
  let s : Slice := ⟨d.devices.only (·.ownerId == o), .empty, d.pairings.only (·.pairedBy o), .empty, .empty, [],
    d.approvals.only (·.ownerId == o), d.stops.find o, .empty, d.audits.filter (·.userId == o)⟩
  let s :=
    { s with
      credentials := d.credentials.only (s.owns ·.deviceId)
      commands := d.commands.only (s.owns ·.deviceId) }
  { s with
    tasks := d.tasks.only (s.ownsCommand ·.commandId)
    events := d.events.filter (s.ownsCommand ·.commandId)
    outbox := d.outbox.only (fun e => s.concerns o e.aggregateType e.aggregateId) }

theorem shows_slice (d : DB) (o : UUID) : d.Shows o (d.slice o) := by
  constructor <;> rfl

namespace DB.Shows

variable {d d' : DB} {o : UUID} {s : Slice} (h : d.Shows o s)
include h

theorem slice : d.slice o = s := by
  have howns : (d.slice o).owns = s.owns := by
    funext id
    simp only [Slice.owns, ← h.devices]
    rfl
  have hcommands : (d.slice o).commands = s.commands := by
    rw [← h.commands, ← howns]
    rfl
  have hownsCommand : (d.slice o).ownsCommand = s.ownsCommand := by
    funext id
    simp only [Slice.ownsCommand, hcommands]
  have hconcerns : (d.slice o).concerns o = s.concerns o := by
    funext ty id
    cases ty <;> simp only [Slice.concerns, howns, hownsCommand]
  apply Slice.ext
  · exact h.devices
  · rw [← h.credentials, ← howns]
    rfl
  · exact h.pairings
  · exact hcommands
  · rw [← h.tasks, ← hownsCommand]
    rfl
  · rw [← h.events, ← hownsCommand]
    rfl
  · exact h.approvals
  · exact h.stop
  · rw [← h.outbox, ← hconcerns]
    rfl
  · exact h.audits

theorem owns (deviceId : UUID) : s.owns deviceId = (d.ownerOf deviceId == some o) := by
  rw [Slice.owns, ← h.devices, Table.find_only, DB.ownerOf]
  cases d.devices.find deviceId with
  | none => rfl
  | some r => by_cases hr : r.ownerId = o <;> simp [Option.filter, hr]

theorem ownsCommand (commandId : UUID) :
    s.ownsCommand commandId = (d.commands.find commandId).any fun c => d.ownerOf c.deviceId == some o := by
  rw [Slice.ownsCommand, ← h.commands, Table.find_only]
  cases d.commands.find commandId with
  | none => rfl
  | some c =>
    rw [Option.any_some, ← h.owns]
    by_cases hc : s.owns c.deviceId = true <;> simp [Option.filter, hc]

theorem find_command {id : UUID} {c : Command} (hc : d.commands.find id = some c) :
    s.ownsCommand id = s.owns c.deviceId := by
  rw [h.ownsCommand, hc, Option.any_some, h.owns]

theorem no_command {id : UUID} (hc : d.commands.find id = none) : s.ownsCommand id = false := by
  rw [h.ownsCommand, hc, Option.any_none]

theorem no_device {id : UUID} (hd : d.devices.find id = none) : s.owns id = false := by
  rw [h.owns, DB.ownerOf, hd]
  rfl

end DB.Shows

/-! ## What the routes show -/

inductive ReadError where
  | deviceNotFound
  | commandNotFound
  | notFound
  deriving DecidableEq, Repr

inductive Answer where
  | error (code : ReadError) (message : String) (status : Nat)
  | device (r : Device)
  | devices (l : List Device)
  | command (c : Command)
  | commands (l : List Command)
  | events (l : List CommandStateEvent)
  | task (t : Task)
  | approval (a : Approval)
  | approvals (l : List Approval)
  | stop (s : Option EmergencyStop)
  | audits (l : List AuditLog)

/-- A request that only reads. A listing has filters besides the owner, and is then
cut into pages. -/
inductive Query where
  | getDevice (id : UUID)
  | listDevices
  | getCommand (id : UUID)
  | listCommands (filters : Command → Bool)
  | getStateEvents (commandId : UUID)
  | getTask (commandId : UUID)
  | getApproval (id : UUID)
  | listApprovals (filters : Approval → Bool)
  | getStatus
  | queryAuditLogs (filters : AuditLog → Bool)

/-- `command.device.owner_id` is the user. -/
def DB.loadCommand (d : DB) (o id : UUID) : Option Command :=
  (d.commands.find id).filter fun c => d.ownerOf c.deviceId == some o

/-- The answer to the request of the user `o`. `get_task` reads in two sessions, of which
the second finds `d'`. -/
def Query.answer (o : UUID) (d d' : DB) : Query → Answer
  | .getDevice id =>
    match d.devices.find id with
    | none => .error .deviceNotFound "Device not found" 404
    | some r => if r.ownerId ≠ o then .error .deviceNotFound "Device not found" 404 else .device r
  | .listDevices => .devices (d.devices.rows.filter (·.ownerId == o))
  | .getCommand id => (d.loadCommand o id).elim (.error .commandNotFound "Command not found" 404) .command
  | .listCommands filters => .commands (d.commands.rows.filter fun c => d.ownerOf c.deviceId == some o && filters c)
  | .getStateEvents id => .events ((d.loadCommand o id).elim [] fun _ => d.history id)
  | .getTask id =>
    match d.loadCommand o id with
    | none => .error .notFound "Task not found" 404
    | some _ => (d'.tasks.find id).elim (.error .notFound "Task not found" 404) .task
  | .getApproval id =>
    match d.approvals.find id with
    | none => .error .notFound "Approval not found" 404
    | some a => if a.ownerId ≠ o then .error .notFound "Approval not found" 404 else .approval a
  | .listApprovals filters => .approvals (d.approvals.rows.filter fun a => a.ownerId == o && filters a)
  | .getStatus => .stop (d.stops.find o)
  | .queryAuditLogs filters => .audits (d.audits.filter fun a => a.userId == o && filters a)

def Slice.answer (s : Slice) : Query → Answer
  | .getDevice id => (s.devices.find id).elim (.error .deviceNotFound "Device not found" 404) .device
  | .listDevices => .devices s.devices.rows
  | .getCommand id => (s.commands.find id).elim (.error .commandNotFound "Command not found" 404) .command
  | .listCommands filters => .commands (s.commands.rows.filter filters)
  | .getStateEvents id => .events (s.events.filter (·.commandId == id))
  | .getTask id => (s.tasks.find id).elim (.error .notFound "Task not found" 404) .task
  | .getApproval id => (s.approvals.find id).elim (.error .notFound "Approval not found" 404) .approval
  | .listApprovals filters => .approvals (s.approvals.rows.filter filters)
  | .getStatus => .stop s.stop
  | .queryAuditLogs filters => .audits (s.audits.filter filters)

namespace DB.Shows

variable {d d' : DB} {o : UUID} {s : Slice}

theorem loadCommand (h : d.Shows o s) (id : UUID) : d.loadCommand o id = s.commands.find id := by
  rw [DB.loadCommand, ← h.commands, Table.find_only]
  congr 1
  funext c
  rw [h.owns]

theorem loaded (h : d.Shows o s) (id : UUID) : (d.loadCommand o id).isSome = s.ownsCommand id := by
  rw [h.loadCommand, Slice.ownsCommand]

theorem answer (h : d.Shows o s) (h' : d'.Shows o s) (q : Query) : q.answer o d d' = s.answer q := by
  cases q with
  | getDevice id =>
    simp only [Query.answer, Slice.answer, ← h.devices, Table.find_only]
    cases d.devices.find id with
    | none => rfl
    | some r => by_cases hr : r.ownerId = o <;> simp [Option.filter, hr]
  | listDevices =>
    simp only [Query.answer, Slice.answer, ← h.devices]
    rfl
  | getCommand id => simp only [Query.answer, Slice.answer, h.loadCommand]
  | listCommands filters =>
    simp only [Query.answer, Slice.answer, ← h.commands, Table.only, List.filter_filter]
    congr 2
    funext c
    rw [h.owns, Bool.and_comm]
  | getStateEvents id =>
    have hone := h.loaded id
    simp only [Query.answer, Slice.answer, ← h.events, List.filter_filter, DB.history]
    cases hl : d.loadCommand o id with
    | none =>
      rw [hl] at hone
      simp only [Option.elim_none, Answer.events.injEq]
      symm
      rw [List.filter_eq_nil_iff]
      intro e _ he
      simp only [Bool.and_eq_true, beq_iff_eq] at he
      rw [he.1] at he
      simp [← hone] at he
    | some c =>
      rw [hl] at hone
      simp only [Option.elim_some, Answer.events.injEq]
      apply List.filter_congr
      intro e _
      by_cases he : e.commandId = id
      · simp [he, ← hone]
      · simp [he]
  | getTask id =>
    have hone := h.loaded id
    simp only [Query.answer, Slice.answer, ← h'.tasks, Table.find_only]
    cases hl : d.loadCommand o id with
    | none =>
      rw [hl] at hone
      cases ht : d'.tasks.find id with
      | none => rfl
      | some t =>
        have hid : t.commandId = id := Table.key_of_find ht
        simp [Option.filter, hid, ← hone]
    | some c =>
      rw [hl] at hone
      cases ht : d'.tasks.find id with
      | none => rfl
      | some t =>
        have hid : t.commandId = id := Table.key_of_find ht
        simp [Option.filter, hid, ← hone]
  | getApproval id =>
    simp only [Query.answer, Slice.answer, ← h.approvals, Table.find_only]
    cases d.approvals.find id with
    | none => rfl
    | some a => by_cases ha : a.ownerId = o <;> simp [Option.filter, ha]
  | listApprovals filters =>
    simp only [Query.answer, Slice.answer, ← h.approvals, Table.only, List.filter_filter]
    congr 2
    funext a
    rw [Bool.and_comm]
  | getStatus => simp only [Query.answer, Slice.answer, h.stop]
  | queryAuditLogs filters =>
    simp only [Query.answer, Slice.answer, ← h.audits, List.filter_filter]
    congr 2
    funext a
    rw [Bool.and_comm]

end DB.Shows

/-! ## Writes that spare an owner -/

def Write.Spares (o : UUID) (s : Slice) : Write → Prop
  | .device r => r.ownerId ≠ o ∧ s.owns r.id = false
  | .credential r => s.owns r.deviceId = false ∧ s.credentials.find r.id = none
  | .command c => s.owns c.deviceId = false ∧ s.ownsCommand c.id = false
  | .task t => s.ownsCommand t.commandId = false
  | .event e => s.ownsCommand e.commandId = false
  | .approval a => a.ownerId ≠ o ∧ s.approvals.find a.id = none ∧ s.ownsCommand a.commandId = false
  | .stop r => r.ownerId ≠ o
  | .outbox e => s.concerns o e.aggregateType e.aggregateId = false ∧ s.outbox.find e.id = none
  | .pairing p => p.pairedBy o = false ∧ s.pairings.find p.id = none
  | .audit a => a.userId ≠ o

structure Spared (o : UUID) (s : Slice) (d : DB) : Prop where
  shows : d.Shows o s
  approval : ∀ id a, d.approvals.find id = some a → s.ownsCommand a.commandId = true → a.ownerId = o

theorem isSome_false {ρ : Type} {x : Option ρ} (h : x.isSome = false) : x = none := by simpa using h

section
variable {o : UUID} {s : Slice}

theorem Spared.apply {d : DB} {w : Write} (h : Spared o s d) (hw : w.Spares o s) : Spared o s (w.apply d) := by
  have hs := h.shows
  cases w with
  | device r =>
    exact ⟨{ hs with devices := Table.only_put hs.devices (by simpa using hw.1) (isSome_false hw.2) }, h.approval⟩
  | credential r => exact ⟨{ hs with credentials := Table.only_put hs.credentials hw.1 hw.2 }, h.approval⟩
  | command c => exact ⟨{ hs with commands := Table.only_put hs.commands hw.1 (isSome_false hw.2) }, h.approval⟩
  | task t =>
    have hno : s.ownsCommand t.commandId = false := hw
    refine ⟨{ hs with tasks := Table.only_put hs.tasks hno ?_ }, h.approval⟩
    rw [← hs.tasks, Table.find_only, key_task]
    cases ht : d.tasks.find t.commandId with
    | none => rfl
    | some t' =>
      have hid : t'.commandId = t.commandId := Table.key_of_find ht
      simp [Option.filter, hid, hno]
  | event e =>
    have hno : s.ownsCommand e.commandId = false := hw
    refine ⟨{ hs with events := ?_ }, h.approval⟩
    simp only [Write.apply, List.filter_append, hs.events, List.filter_cons, hno]
    simp
  | approval a =>
    obtain ⟨ho, hn, hc⟩ := hw
    refine ⟨{ hs with approvals := Table.only_put hs.approvals (by simpa using ho) hn }, ?_⟩
    intro id x hx hcx
    simp only [Write.apply, Table.find_put, key_approval] at hx
    by_cases hid : a.id = id
    · rw [if_pos hid] at hx
      cases hx
      rw [hc] at hcx
      cases hcx
    · rw [if_neg hid] at hx
      exact h.approval id x hx hcx
  | stop r =>
    have hne : key r ≠ o := hw
    exact ⟨{ hs with stop := (Table.find_put_ne _ hne).trans hs.stop }, h.approval⟩
  | outbox e => exact ⟨{ hs with outbox := Table.only_put hs.outbox hw.1 hw.2 }, h.approval⟩
  | pairing p => exact ⟨{ hs with pairings := Table.only_put hs.pairings hw.1 hw.2 }, h.approval⟩
  | audit a =>
    have hne : a.userId ≠ o := hw
    refine ⟨{ hs with audits := ?_ }, h.approval⟩
    simp only [Write.apply, List.filter_append, hs.audits, List.filter_cons, beq_iff_eq, hne]
    simp

end

end Veyaan
