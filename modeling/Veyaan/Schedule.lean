import Veyaan.Lib.Play
import Veyaan.Lib.Serial
import Veyaan.System

/-!
# Schedules of the system

What a schedule can let happen besides the steps of the processes: a call is
made, a message of the stream is delivered to a consumer or to a listener, a
device connects or sends a frame, time passes.
-/

open Relation (ReflTransGen)

namespace Veyaan

open Sys

inductive Move where
  | call (c : Call)
  | consume (message : Nat)
  | listen (conn message : Nat)
  | frame (conn : Nat) (f : Frame)
  | connect (deviceId connectionId : UUID)
  | clock (t : Time)
  | cacheExpire (ownerId : UUID)

def Move.next : Move → DB → Ext → Option (Call ⊕ Ext)
  | .call c, _, _ =>
    match c with
    | .consume .. => none
    | .listen .. => none
    | .frame .. => none
    | c => some (.inl c)
  | .consume n, _, x =>
    match x.stream[n]? with
    | some (.lifecycle k c p) => some (.inl (.consume k c p))
    | _ => none
  | .listen n m, _, x =>
    match x.conns[n]?, x.stream[m]? with
    | some conn, some (.commandReady d p) => if d = conn.deviceId then some (.inl (.listen conn p)) else none
    | _, _ => none
  | .frame n f, _, x =>
    match x.conns[n]? with
    | some conn => some (.inl (.frame conn f))
    | none => none
  | .connect dev conn, d, x =>
    match d.devices.find dev with
    | some r =>
      if r.trustStatus = .trusted ∧ r.revokedAt = none then
        some (.inr { x with conns := x.conns ++ [⟨r.id, r.ownerId, conn⟩] })
      else none
    | none => none
  | .clock t, _, x => if x.clock ≤ t then some (.inr { x with clock := t }) else none
  | .cacheExpire o, _, x => some (.inr { x with cache := fun p => if p = o then none else x.cache p })

theorem Move.next_admits {m : Move} {d : DB} {x : Ext} {c : Call}
    (h : m.next d x = some (.inl c)) : c.admits d x := by
  cases m with
  | call c' => cases c' <;> cases h <;> trivial
  | consume n =>
    simp only [Move.next] at h
    split at h
    · rename_i hm; cases h; exact List.mem_of_getElem? hm
    · cases h
  | listen n k =>
    simp only [Move.next] at h
    split at h
    · rename_i hn hk
      split at h
      · rename_i hd
        cases h
        exact ⟨List.mem_of_getElem? hn, hd ▸ List.mem_of_getElem? hk⟩
      · cases h
    · cases h
  | frame n f =>
    simp only [Move.next] at h
    split at h
    · rename_i hn; cases h; exact List.mem_of_getElem? hn
    · cases h
  | connect dev conn =>
    simp only [Move.next] at h
    split at h
    · split at h <;> cases h
    · cases h
  | clock t => simp only [Move.next] at h; split at h <;> cases h
  | cacheExpire o => cases h

theorem Move.next_env {m : Move} {d : DB} {x x' : Ext} (h : m.next d x = some (.inr x')) : ExtStep d x x' := by
  cases m with
  | call c' => cases c' <;> cases h
  | consume n => simp only [Move.next] at h; split at h <;> cases h
  | listen n k =>
    simp only [Move.next] at h
    split at h
    · split at h <;> cases h
    · cases h
  | frame n f => simp only [Move.next] at h; split at h <;> cases h
  | connect dev conn =>
    simp only [Move.next] at h
    split at h
    · rename_i r hr
      split at h
      · rename_i ht
        cases h
        have hid : r.id = dev := by simpa using Table.key_of_find hr
        have hf : d.devices.find r.id = some r := by rw [hid]; exact hr
        exact .connect hf ht.1 ht.2 rfl rfl
      · cases h
    · cases h
  | clock t =>
    simp only [Move.next] at h
    split at h
    · rename_i ht; cases h; exact .clock ht
    · cases h
  | cacheExpire o => cases h; exact .cacheExpire

def moves (P : Params) : (sys P).Moves Move := ⟨Move.next, Move.next_admits, Move.next_env⟩

def steps (i n : Nat) : List (Turn Move) := List.replicate n (.run i true)

def fresh (d : DB) (x : Ext) : Conf := ⟨⟨⟨d, x, []⟩, fun _ => none, fun _ => ⟨[], false⟩⟩, []⟩

section
variable {P : Params}

theorem fresh_matches (d : DB) (x : Ext) (i : Nat) : (sys P).Matches i (fresh d x).world d (.idle d) :=
  ⟨rfl, rfl, rfl, fun _ _ h => by cases h⟩

/-- A schedule that plays, and ends in `φ`, is a run that does. -/
theorem played {c : Conf} {t : List (Turn Move)} {φ : Conf → Bool} (h : (play (moves P) t c).any φ = true) :
    ∃ c', ReflTransGen (sys P).Step c c' ∧ φ c' = true := by
  obtain ⟨c', hp, hφ⟩ := (Option.any_eq_true _ _).mp h
  exact ⟨c', play_runs _ hp, hφ⟩

end

def serially (c : Conf) : Turn Move → Bool
  | .run .. => true
  | .other _ => c.procs.all (·.prog.ended)

theorem serially_step {P : Params} {c c' : Conf} {t : Turn Move} (hs : serially c t = true)
    (h : turn (moves P) c t = some c') : (sys P).SerialStep c c' := by
  refine ⟨turn_step _ h, ?_⟩
  cases t with
  | run i ch =>
    obtain ⟨call, β, p, k, r, w, -, -, rfl⟩ := turn_run _ h
    exact .inl (List.length_set ..)
  | other m => exact .inr (by simpa [serially] using hs)

theorem played_serially {P : Params} {c : Conf} {t : List (Turn Move)} {φ : Conf → Bool} (h₀ : Initial Init c)
    (h : (playIf (moves P) serially t c).any φ = true) : ∃ c', (sys P).Serial Init c' ∧ φ c' = true := by
  obtain ⟨c', hp, hφ⟩ := (Option.any_eq_true _ _).mp h
  exact ⟨c', ⟨c, h₀, playIf_runs _ (Q := (sys P).SerialStep) serially_step hp⟩, hφ⟩

def committing (c : Conf) (i : Nat) : Option Tag :=
  match c.procs[i]? with
  | some ⟨_, .op (.commit (some (.commit t))) _⟩ => some t
  | _ => none

theorem committing_step {P : Params} {c : Conf} {i : Nat} {t : Tag} (h : committing c i = some t)
    (hf : (c.world.sess i).failed = false) : ∃ c', (sys P).Step c c' ∧
      c'.world.sh.trace = c.world.sh.trace ++ [(i, .committed t)] ∧ c'.world.sh.db = (sys P).view c.world i := by
  obtain ⟨w, ps⟩ := c
  unfold committing at h
  split at h
  · rename_i call t' k hp
    cases h
    have he : (sys P).exec i true (.commit (some (.commit t))) w =
        some (.ok (), { (sys P).label w i true (some (.commit t)) with sh.db := (sys P).view w i }.release i) := by
      have hf : (w.sess i).failed = false := hf
      simp [exec, hf]
    refine ⟨_, .run (c := .commit (some (.commit t))) hp he, rfl, rfl⟩
  · cases h

def reports : {β : Type} → Stmt β → Option Tag
  | _, .read (some (.commit t)) _ => some t
  | _, .fresh (some (.commit t)) _ => some t
  | _, .forUpdate (some (.commit t)) _ _ => some t
  | _, .commit (some (.commit t)) => some t
  | _, _ => none

theorem says_committed {P : Params} {w : Wd} {β : Type} {s : Stmt β} {t : Tag}
    (h : (sys P).Says w s (.committed t)) : reports s = some t := by
  cases s with
  | skipLocked => exact h.elim
  | rollback => exact h.elim
  | stmt ks f => obtain ⟨e, he⟩ := h; cases he
  | eff e =>
    obtain ⟨ch, h⟩ := h
    have : ∀ v ∈ (Eff.handle ch e w.sh.ext).2.2, v ≠ .committed t := by
      cases e <;> simp only [Eff.handle] <;> (try split) <;> simp
    exact absurd rfl (this _ h)
  | _ =>
    obtain ⟨l, ok, rfl, hl⟩ := h
    cases l with
    | commit t' => cases hl; rfl
    | _ => cases hl

def nextTag (c : Conf) (i : Nat) : Option Tag :=
  match c.procs[i]? with
  | some ⟨_, .op s _⟩ => reports s
  | _ => none

theorem turn_committed {P : Params} {c c' : Conf} {u : Turn Move}
    (h : turn (moves P) c u = some c') {j : Nat} {t : Tag}
    (ht : c'.world.sh.trace = c.world.sh.trace ++ [(j, .committed t)]) :
    ∃ i ch, u = .run i ch ∧ nextTag c i = some t := by
  cases u with
  | run i ch =>
    obtain ⟨call, β, s, k, r, w, hp, he, rfl⟩ := turn_run _ h
    obtain ⟨vs, hvs, hsaid⟩ := exec_trace he
    rw [hvs] at ht
    have hmem : (j, Ev.committed t) ∈ vs.map (i, ·) := by
      rw [List.append_cancel_left ht]
      exact List.mem_singleton.mpr rfl
    obtain ⟨v, hv, hvt⟩ := List.mem_map.mp hmem
    cases hvt
    refine ⟨j, ch, rfl, ?_⟩
    simp only [nextTag, hp]
    exact says_committed (hsaid _ hv)
  | other m =>
    have : c'.world.sh.trace = c.world.sh.trace := by
      rcases turn_other _ h with ⟨_, -, rfl⟩ | ⟨_, -, rfl⟩ <;> rfl
    rw [this] at ht
    simp at ht

/-! ## A small installation -/

/-- One decision nonce, with its SHA-256, and the parameters of `system.ping`. -/
def demo : Params where
  sha256 s :=
    if s = "Qm9vdHN0cmFwLW5vbmNlLWZvci1hLXdpdG5lc3MtcnU" then
      "5ffd0b534d936c6c04f359bc98a0963a9213be48e95366c7c20b7bfc4fa21b70"
    else ""
  schemaOk commandType _ := commandType = "system.ping"
  loggerRaises := false

def raising : Params := { demo with loggerRaises := true }

def laptop : DeviceInfo where
  displayName := "laptop"
  deviceType := "macbook"
  operatingSystem := "macOS"
  appVersion := "1.0"
  protocolVersion := "v1"
  devicePublicIdentity := "laptop-key"

def demoDB : DB where
  users := [7]
  devices := ⟨[⟨1, 7, laptop, .trusted, none⟩, ⟨2, 7, laptop, .trusted, none⟩], by decide⟩
  credentials := .empty
  pairings := .empty
  commands := .empty
  tasks := .empty
  events := []
  approvals := .empty
  stops := .empty
  outbox := .empty
  audits := []

def demoExt : Ext where
  cache _ := none
  stream := []
  conns := []
  presence _ := none
  clock := 0
  nextId := 10
  token := "Qm9vdHN0cmFwLW5vbmNlLWZvci1hLXdpdG5lc3MtcnU"

def demoStart : Conf := fresh demoDB demoExt

theorem demo_initial : Initial Init demoStart :=
  ⟨rfl, rfl, fun _ => rfl, fun _ => rfl, rfl, rfl, rfl, rfl, rfl, rfl, rfl, fun _ => rfl, rfl, rfl⟩

theorem demo_reachable {P : Params} : Reachable P demoStart := .init demo_initial

/-- `system.ping` for device `1`, with or without an approval. -/
def ping (requiresApproval : Bool) : CreateCommandRequest where
  deviceId := 1
  commandType := "system.ping"
  parameters := .obj []
  idempotencyKey := "ping-1"
  expiresAt := some 1000
  delayedExecutionAllowed := false
  requiresApproval := requiresApproval

def publishedRun : List (Turn Move) :=
  .other (.call (.create (ping false) 7)) :: steps 0 26 ++ .other (.call .batch) ::
    steps 1 11 ++ [.other (.connect 1 99)]

theorem queued_reachable : ∃ c cmd, Reachable demo c ∧
    c.world.sh.db.commands.find 10 = some cmd ∧ cmd.state = .queued := by
  obtain ⟨c, hr, hc⟩ := played (P := demo) (c := demoStart) (t := publishedRun)
    (φ := fun c => (c.world.sh.db.commands.find 10).any fun cmd => cmd.state == .queued) (by decide +kernel)
  obtain ⟨cmd, hcmd, hst⟩ := (Option.any_eq_true _ _).mp hc
  exact ⟨c, cmd, Reachable.runs demo_reachable hr, hcmd, by simpa using hst⟩

def deliveredRun : List (Turn Move) :=
  publishedRun ++ .other (.listen 0 0) :: steps 2 9 ++ .other (.consume 1) :: steps 3 12

def acknowledgedRun : List (Turn Move) :=
  deliveredRun ++ .other (.frame 0 (.acknowledge 10 true none)) :: steps 4 3 ++ .other (.consume 2) :: steps 5 10

def succeededRun : List (Turn Move) :=
  acknowledgedRun ++ .other (.frame 0 (.progress 10 none none)) :: steps 6 3 ++ .other (.consume 3) :: steps 7 11 ++
    .other (.frame 0 (.result 10 true (some (.obj [])) none none)) :: steps 8 3 ++ .other (.consume 4) :: steps 9 12

def cancelledRun : List (Turn Move) :=
  .other (.call (.create (ping false) 7)) :: steps 0 26 ++ .other (.call (.cancel 10 7)) :: steps 1 8

def recancelRun : List (Turn Move) :=
  .other (.clock 5) :: .other (.call (.cancel 10 7)) :: steps 2 8

end Veyaan
