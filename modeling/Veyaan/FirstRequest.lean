import Veyaan.Activation
import Veyaan.Enrolment
import Veyaan.Isolation

/-!
# The first request of a user

The dependency that authenticates a request inserts the row of a new user in the session
of the request, which commits after the endpoint has returned. The services write in
sessions of their own, whose foreign keys see committed rows only: what a service stores
for the user is refused, and the row of the user is taken back with it.
-/

namespace Veyaan

open Sys

/-! ## `get_current_user_context` -/

inductive UserStatus where
  | active
  | inactive
  | suspended
  deriving DecidableEq, Repr

structure User where
  id : UUID
  supabaseUserId : String
  displayName : String
  email : String
  status : UserStatus
  deriving DecidableEq, Repr

structure TokenClaims where
  sub : String
  email : String

/-- The row that `UserRepository.create` makes: the name is `email.split("@")[0]`. -/
def TokenClaims.user (claims : TokenClaims) (id : UUID) : User where
  id := id
  supabaseUserId := claims.sub
  displayName := String.ofList (claims.email.toList.takeWhile (· ≠ '@'))
  email := claims.email
  status := .active

def User.storable (u : User) : Bool :=
  varcharOk 255 u.supabaseUserId && varcharOk 255 u.displayName && varcharOk 255 u.email

/-- `INSERT INTO users`. -/
def insertUser (u : User) (accounts : List User) : Except Err (List User) :=
  if accounts.any fun r => r.id == u.id || r.supabaseUserId == u.supabaseUserId then .error .integrity
  else if u.storable then .ok (accounts ++ [u])
  else .error .data

inductive Failure where
  | api (code : ErrorCode) (message : String) (status : Nat)
  | accountSuspended
  | invalidConfirmation
  | internal
  deriving DecidableEq, Repr

def Err.answer : Err → Failure
  | .api code message status => .api code message status
  | _ => .internal

def getCurrentUserContext (claims : TokenClaims) (newId : UUID) (accounts : List User) :
    Except Failure (User × List User) := do
  let (user, rows) ← match accounts.find? (·.supabaseUserId == claims.sub) with
    | some user => pure (user, accounts)
    | none => match insertUser (claims.user newId) accounts with
      | .ok rows => pure (claims.user newId, rows)
      | .error e => throw e.answer
  if user.status = .suspended then throw .accountSuspended
  return (user, rows)

/-! ## The endpoints -/

inductive Endpoint where
  | confirmPairing (pairingId : UUID) (pairingCode : String)
  | activate (reason : Option String) (confirmation : String)

inductive Reply where
  | paired (deviceId : UUID) (credentialSecret : String)
  | activated
  deriving DecidableEq, Repr

/-- `request.reason or "No reason provided"`. -/
def reasonOr (reason : Option String) : String :=
  match reason with
  | none => "No reason provided"
  | some r => if r = "" then "No reason provided" else r

def Endpoint.operation (P : Params) (userId : UUID) : Endpoint → Except Failure (Op Reply)
  | .confirmPairing pairingId pairingCode => .ok do
    let (deviceId, secret) ← Veyaan.confirmPairing P pairingId userId pairingCode
    return .paired deviceId secret
  | .activate reason confirmation =>
    if confirmation ≠ "ACTIVATE_EMERGENCY_STOP" then .error .invalidConfirmation
    else .ok do
      Veyaan.activate userId (reasonOr reason) userId
      return .activated

structure Server where
  accounts : List User
  db : DB
  ext : Ext

def Server.store (s : Server) : DB := { s.db with users := s.accounts.map User.id }

def handleRequest (P : Params) (connected : Bool) (claims : TokenClaims) (newId : UUID)
    (e : Endpoint) (s : Server) : Except Failure Reply × Server :=
  match getCurrentUserContext claims newId s.accounts with
  | .error f => (.error f, s)
  | .ok (user, rows) =>
    match e.operation P user.id with
    | .error f => (.error f, s)
    | .ok p =>
      -- the row of the user is still uncommitted
      match evaluate P connected (fun _ => false) p (.idle s.store s.ext) with
      | (.ok reply, t) => (.ok reply, ⟨rows, t.db, t.ext⟩)
      -- the code after `yield` rolls back and raises again
      | (.error err, t) => (.error err.answer, ⟨s.accounts, t.db, t.ext⟩)

def Server.register (claims : TokenClaims) (newId : UUID) (s : Server) : Server :=
  match getCurrentUserContext claims newId s.accounts with
  | .error _ => s
  | .ok (_, rows) => { s with accounts := rows }

def outcome (r : Except Failure Reply × Server) : Except Failure Reply × DB := (r.1, { r.2.db with users := [] })

/-! ## How the operations end -/

def refusedWith (P : Params) (pairingId : UUID) (pairingCode : String) (now : Time)
    (pairings : Table PairingRequest) :
    Failure × Table PairingRequest :=
  match pairings.find pairingId with
  | none => (.api .pairingInvalid "Pairing request not found" 404, pairings)
  | some p =>
    if p.status ≠ .pending then
      (if P.plainStr then .internal else .api .pairingInvalid ("Pairing is " ++ p.status.value) 400, pairings)
    else if p.expiresAt < now then
      (.api .pairingExpired "Pairing code has expired" 400, pairings.put { p with status := .expired })
    else if P.maxPairingAttempts < p.attemptCount + 1 then
      (.api .pairingInvalid "Too many failed pairing attempts" 429,
        pairings.put { p with attemptCount := p.attemptCount + 1, status := .rejected })
    else if P.sha256 pairingCode ≠ p.pairingCodeHash then
      (.api .pairingInvalid "Invalid pairing code" 400, pairings.put { p with attemptCount := p.attemptCount + 1 })
    else (.internal, pairings)

def Endpoint.refusedWith (P : Params) (d : DB) (now : Time) : Endpoint → Failure × Table PairingRequest
  | .confirmPairing pairingId pairingCode => Veyaan.refusedWith P pairingId pairingCode now d.pairings
  | .activate .. => (.internal, d.pairings)

/-- The operation comes to a row that refers to its user, and everything else in the row
suits the database. -/
def Endpoint.refersToUser (P : Params) (d : DB) (now : Time) : Endpoint → Bool
  | .confirmPairing pairingId pairingCode => (d.pairings.find pairingId).any fun p =>
    decide (p.status = .pending) && !decide (p.expiresAt < now) &&
      !decide (P.maxPairingAttempts < p.attemptCount + 1) && decide (P.sha256 pairingCode = p.pairingCodeHash) &&
      decide (p.info.deviceType ∈ ["macbook", "iphone", "ipad"]) && p.info.storable
  | .activate reason confirmation => decide (confirmation = "ACTIVATE_EMERGENCY_STOP") && textOk (reasonOr reason)

section
variable {P : Params} {b : Bool} {F : UUID → Bool} {d d' : DB} {x : Ext} {id owner : UUID} {code : String}

theorem answer_internal {e : Err} (h : e.classified = false) : e.answer = .internal := by
  cases e <;> simp_all [Err.classified, Err.answer]

theorem ConfirmEnds.outcome {J : Ext → Prop} {r : Except Err (UUID × String)} {now : Time}
    (hJ : ∀ y, J y → y.clock = now) (h : ConfirmEnds P J d id owner code r d') :
    (∃ a, r = .ok a) ∧ d.isUser owner = true ∧
        (Endpoint.confirmPairing id code).refersToUser P d now = true ∨
      ∃ e, r = .error e ∧ e.answer = (refusedWith P id code now d.pairings).1 ∧
        d' = { d with pairings := (refusedWith P id code now d.pairings).2 } ∧
        (d.isUser owner && (Endpoint.confirmPairing id code).refersToUser P d now) = false := by
  cases h with
  | missing hn =>
    exact .inr ⟨_, rfl, by simp [refusedWith, hn, Err.answer], by simp [refusedWith, hn],
      by simp [Endpoint.refersToUser, hn]⟩
  | plain hp hst hP | decided hp hst hP =>
    exact .inr ⟨_, rfl, by simp [refusedWith, hp, hst, hP, Err.answer], by simp [refusedWith, hp, hst],
      by simp [Endpoint.refersToUser, hp, hst]⟩
  | expired hp hst hx hexp =>
    rw [hJ _ hx] at hexp
    exact .inr ⟨_, rfl, by simp [refusedWith, hp, hst, hexp, Err.answer], by simp [refusedWith, hp, hst, hexp]; rfl,
      by simp [Endpoint.refersToUser, hp, hexp]⟩
  | exceeded hp hst hx hexp hmax =>
    rw [hJ _ hx] at hexp
    exact .inr ⟨_, rfl, by simp [refusedWith, hp, hst, hexp, hmax, Err.answer],
      by simp [refusedWith, hp, hst, hexp, hmax]; rfl,
      by simp only [Endpoint.refersToUser, hp, hmax, Option.any_some, decide_true, Bool.not_true,
        Bool.and_false, Bool.false_and]⟩
  | wrongCode hp hst hx hexp hmax hcode =>
    rw [hJ _ hx] at hexp
    exact .inr ⟨_, rfl, by simp [refusedWith, hp, hst, hexp, hmax, hcode, Err.answer],
      by simp [refusedWith, hp, hst, hexp, hmax, hcode]; rfl, by simp [Endpoint.refersToUser, hp, hcode]⟩
  | refused hp hst hx hexp hmax hcode hno he =>
    rw [hJ _ hx] at hexp
    refine .inr ⟨_, rfl, ?_, by simp [refusedWith, hp, hst, hexp, hmax, hcode], ?_⟩
    · simp [refusedWith, hp, hst, hexp, hmax, hcode, answer_internal he]
    · simp only [Endpoint.refersToUser, hp, hst, hexp, hmax, hcode, Option.any_some, decide_true,
        decide_false, Bool.not_false, Bool.true_and]
      simpa [DB.takesDevice, Bool.and_assoc] using hno
  | paired hp hst hx hexp hmax hcode hyes =>
    rw [hJ _ hx] at hexp
    simp only [DB.takesDevice, Bool.and_eq_true, decide_eq_true_eq] at hyes
    refine .inl ⟨⟨_, rfl⟩, hyes.1.1, ?_⟩
    simp only [Endpoint.refersToUser, hp, hst, hexp, hmax, hcode, hyes.2,
      Option.any_some, decide_true, decide_false, Bool.not_false, Bool.true_and, Bool.and_true]
    simpa using hyes.1.2

theorem outage_succeeds {β : Type} (c : Prim DB Key Write Label Err Eff β) : Succeeds (outage b F _ c) c := by
  cases c with
  | eff e => trivial
  | read | fresh | forUpdate | skipLocked | stmt | commit | rollback => rfl

/-- What holds of an operation alone, when the clock stands still, holds of its value. -/
theorem evaluate_within {α : Type} {p : Op α} {Q : Except Err α → DB → Open DB → Prop}
    (h : within P false (fun y => y.clock = x.clock ∧ x.nextId ≤ y.nextId) (fun _ => True) p Q d (.idle d)) :
    ∃ o, Q (evaluate P b F p (.idle d x)).1 (evaluate P b F p (.idle d x)).2.db o :=
  alone_eval outage_succeeds
    (fun ch e y hy => ⟨(handle_clock ch e y).trans hy.1, Nat.le_trans hy.2 (handle_nextId ch e y)⟩)
    rfl rfl ⟨rfl, Nat.le_refl _⟩ h

theorem evaluate_confirmPairing (hsha : ∀ s, varcharOk 64 (P.sha256 s) = true)
    (hids : ∀ n, x.nextId ≤ n → d.devices.find n = none ∧ d.credentials.find n = none) :
    ConfirmEnds P (fun y => y.clock = x.clock ∧ x.nextId ≤ y.nextId) d id owner code
      (evaluate P b F (confirmPairing P id owner code) (.idle d x)).1
      (evaluate P b F (confirmPairing P id owner code) (.idle d x)).2.db := by
  obtain ⟨_, h⟩ := evaluate_within (b := b) (F := F) (within_confirmEnds hsha
    fun y hy => hids _ hy.2)
  exact h

section
variable {reason : String}

theorem evaluate_activate_refused (hnone : d.stops.find owner = none)
    (hno : (d.isUser owner && textOk reason) = false) :
    ∃ e t, evaluate P b F (activate owner reason owner) (.idle d x) = (.error e, t) ∧
    e.answer = .internal ∧ t.db = d := by
  obtain ⟨e, he, hins⟩ : ∃ e, e.answer = .internal ∧ insertStop
      { ownerId := owner, active := true, reason := some reason, activatedAt := some x.clock,
        releasedAt := none, activatedBy := some owner, releasedBy := none } d = .error e := by
    simp only [insertStop, EmergencyStop.usersOk, hnone]
    cases hu : d.isUser owner with
    | false => exact ⟨.integrity, rfl, by simp⟩
    | true =>
      have htext : textOk reason = false := by simpa [hu] using hno
      exact ⟨.data, rfl, by simp [hu, htext]⟩
  have hsel : evaluate P b F (activateRow owner reason owner) (.idle d x) = _ :=
    eval_bind_ok (evaluate_selectForUpdate rfl)
  have hrow : evaluate P b F (activateRow owner reason owner) (.idle d x) =
      (.error e, { Solo.idle d x with failed := true }) := by
    rw [hsel]
    simp only [Solo.idle, hnone]
    -- `writeStop` reads the clock and inserts the row
    exact eval_bind_raises ((eval_bind_ok evaluate_now).trans (eval_bind_raises (evaluate_execute_raises rfl hins)))
  exact ⟨e, _, eval_bind_raises (evaluate_withSession_raises hrow), he, rfl⟩

theorem evaluate_effect_db {β : Type} {e : Eff β} {s : Solo DB Ext} :
    (evaluate P b F (effect e) s).2.db = s.db := by
  simp [evaluate, effect, eval_call, answer]

theorem evaluate_activate (hnone : d.stops.find owner = none) (hy : d.Yields)
    (hids : ∀ n, x.nextId ≤ n → d.outbox.find n = none) (hyes : (d.isUser owner && textOk reason) = true) :
    ((evaluate P b F (activate owner reason owner) (.idle d x)).2.db.stops.find owner).isSome = true := by
  have hoff : d.stopActive owner = false := by rw [DB.stopActive, hnone]
  have hwithin : within P false (fun y => y.clock = x.clock ∧ x.nextId ≤ y.nextId) (fun _ => True)
      (withSession (activateRow owner reason owner))
          (fun r d' _ => ActivateEnds P owner reason owner d r d') d (.idle d) :=
    within_activateRow hoff hy fun y h => hids _ h.2
  obtain ⟨_, h⟩ := evaluate_within (b := b) (F := F) hwithin
  rw [Bool.and_eq_true] at hyes
  have htakes : d.takesStop owner reason owner = true := by simp [DB.takesStop, hyes]
  generalize hr : evaluate P b F (withSession (activateRow owner reason owner)) (.idle d x) = r at h
  obtain ⟨r, t⟩ := r
  cases r with
  | error e => exact absurd (htakes.symm.trans h.1) (by simp)
  | ok a =>
    have hbind : evaluate P b F (activate owner reason owner) (.idle d x) = _ := eval_bind_ok hr
    have hstored : (t.db.stops.find owner).isSome = true := by
      obtain ⟨-, -, ws, hrows, hdb⟩ := h
      obtain ⟨u, hst⟩ := (hrows.blocksPending hoff).stop
      rw [show t.db = _ from hdb, hst, Table.find_put, if_pos (by rfl)]
      rfl
    rw [hbind]
    cases a with
    | none => exact hstored
    | some stop => exact (congrArg (fun d : DB => (d.stops.find owner).isSome) evaluate_effect_db).trans hstored

end

end

/-! ## Two runs -/

def Server.takesUser (s : Server) (claims : TokenClaims) (newId : UUID) : Bool :=
  (insertUser (claims.user newId) s.accounts).isOk

section
variable {P : Params} {b : Bool} {s : Server} {claims : TokenClaims} {newId : UUID} {e : Endpoint}

theorem insertUser_ok {u : User} {accounts rows : List User} (h : insertUser u accounts = .ok rows) :
    rows = accounts ++ [u] ∧ ∀ r ∈ accounts, r.id ≠ u.id := by
  unfold insertUser at h
  split at h
  · cases h
  rename_i hno
  split at h
  · cases h
    refine ⟨rfl, fun r hr he => hno (List.any_eq_true.mpr ⟨r, hr, ?_⟩)⟩
    simp [he]
  · cases h

/-- The user is inserted by this request, or was inserted by an earlier one. -/
theorem getCurrentUserContext_new (hnew : s.accounts.find? (·.supabaseUserId == claims.sub) = none)
    (ht : s.takesUser claims newId = true) :
    getCurrentUserContext claims newId s.accounts = .ok (claims.user newId, s.accounts ++ [claims.user newId]) ∧
      getCurrentUserContext claims newId (s.accounts ++ [claims.user newId]) =
        .ok (claims.user newId, s.accounts ++ [claims.user newId]) ∧ ∀ r ∈ s.accounts, r.id ≠ newId := by
  cases hins : insertUser (claims.user newId) s.accounts with
  | error e =>
    rw [Server.takesUser, hins] at ht
    cases ht
  | ok rows =>
    obtain ⟨rfl, hid⟩ := insertUser_ok hins
    refine ⟨?_, ?_, hid⟩
    · unfold getCurrentUserContext
      rw [hnew, hins]
      rfl
    · have hfind : (s.accounts ++ [claims.user newId]).find? (·.supabaseUserId == claims.sub) =
          some (claims.user newId) := by
        simp [List.find?_append, hnew, TokenClaims.user]
      unfold getCurrentUserContext
      rw [hfind]
      rfl

theorem register_refused (hnew : s.accounts.find? (·.supabaseUserId == claims.sub) = none)
    (ht : s.takesUser claims newId = false) : s.register claims newId = s := by
  have : ∃ f, getCurrentUserContext claims newId s.accounts = .error f := by
    cases hins : insertUser (claims.user newId) s.accounts with
    | error e => exact ⟨e.answer, by unfold getCurrentUserContext; rw [hnew, hins]; rfl⟩
    | ok rows =>
      rw [Server.takesUser, hins] at ht
      cases ht
  obtain ⟨f, hf⟩ := this
  rw [Server.register, hf]

def answered (r : Except Err Reply × Solo DB Ext) : Except Failure Reply × DB :=
  (r.1.mapError Err.answer, { r.2.db with users := [] })

theorem outcome_handleRequest {user : User} {rows : List User} {p : Op Reply}
    (hctx : getCurrentUserContext claims newId s.accounts = .ok (user, rows)) (hp : e.operation P user.id = .ok p) :
    outcome (handleRequest P b claims newId e s) =
    answered (evaluate P b (fun _ => false) p (.idle s.store s.ext)) := by
  rw [handleRequest, hctx]
  simp only [hp]
  generalize evaluate P b (fun _ => false) p (.idle s.store s.ext) = r
  obtain ⟨r, t⟩ := r
  cases r <;> rfl

theorem answered_operation {d : DB} {x : Ext} {F : UUID → Bool} {p : Op Reply}
    (hp : e.operation P newId = .ok p) (hy : d.Yields)
    (hsha : ∀ s, varcharOk 64 (P.sha256 s) = true) (hstop : d.stops.find newId = none)
    (hids : ∀ n, x.nextId ≤ n → d.devices.find n = none ∧ d.credentials.find n = none ∧ d.outbox.find n = none) :
    ((∃ a, (answered (evaluate P b F p (.idle d x))).1 = .ok a) ∨
        ((answered (evaluate P b F p (.idle d x))).2.stops.find newId).isSome = true) ∧
        (d.isUser newId && e.refersToUser P d x.clock) = true ∨
      answered (evaluate P b F p (.idle d x)) =
          (.error (e.refusedWith P d x.clock).1,
            { d with users := [], pairings := (e.refusedWith P d x.clock).2 }) ∧
        (d.isUser newId && e.refersToUser P d x.clock) = false := by
  cases e with
  | confirmPairing id code =>
    cases hp
    have hends : ConfirmEnds P (fun y => y.clock = x.clock ∧ x.nextId ≤ y.nextId) d id newId code
        (evaluate P b F (confirmPairing P id newId code) (.idle d x)).1
            (evaluate P b F (confirmPairing P id newId code) (.idle d x)).2.db :=
      evaluate_confirmPairing hsha fun n hn => ⟨(hids n hn).1, (hids n hn).2.1⟩
    generalize hr : evaluate P b F (confirmPairing P id newId code) (.idle d x) = r at hends
    obtain ⟨r, t⟩ := r
    rcases hends.outcome (fun y hy => hy.1) with ⟨⟨a, rfl⟩, hu, href⟩ | ⟨err, rfl, hans, hdb, hno⟩
    · refine .inl ⟨.inl ⟨.paired a.1 a.2, ?_⟩, by rw [hu, href]; rfl⟩
      exact congrArg (fun r => (answered r).1) (eval_bind_ok hr)
    · refine .inr ⟨(congrArg answered (eval_bind_raises hr)).trans ?_, hno⟩
      simp only [answered, Except.mapError]
      rw [hans, show t.db = _ from hdb]
      rfl
  | activate reason confirmation =>
    simp only [Endpoint.operation] at hp
    split at hp
    · cases hp
    rename_i hconf
    cases hp
    have href : (Endpoint.activate reason confirmation).refersToUser P d x.clock = textOk (reasonOr reason) := by
      simp [Endpoint.refersToUser, not_not.mp hconf]
    rw [href]
    cases hyes : d.isUser newId && textOk (reasonOr reason) with
    | true =>
      have hdb := evaluate_activate (P := P) (b := b) (F := F) hstop hy (fun n hn => (hids n hn).2.2) hyes
      generalize hr : evaluate P b F (activate newId (reasonOr reason) newId) (.idle d x) = r at hdb
      obtain ⟨r, t⟩ := r
      refine .inl ⟨.inr ?_, rfl⟩
      cases r with
      | ok _ => exact (congrArg (fun r => ((answered r).2.stops.find newId).isSome) (eval_bind_ok hr)).trans hdb
      | error _ =>
        exact (congrArg (fun r => ((answered r).2.stops.find newId).isSome) (eval_bind_raises hr)).trans hdb
    | false =>
      obtain ⟨err, t, ht, herr, hdb⟩ := evaluate_activate_refused (P := P) (b := b) (F := F) (x := x) hstop hyes
      refine .inr ⟨(congrArg answered (eval_bind_raises ht)).trans ?_, rfl⟩
      simp only [answered, Except.mapError, herr, hdb]
      rfl

/-- **A first request.** The first request of a user ends as if their row had been
committed before, exactly unless the row could have been committed and the operation
comes to store a row that refers to it. -/
theorem first_request_iff {c : Conf} (hc : Reachable P c) (hdb : s.store = c.world.sh.db)
    (hsha : ∀ s, varcharOk 64 (P.sha256 s) = true)
    (hids : ∀ n, s.ext.nextId ≤ n → s.db.devices.find n = none ∧
      s.db.credentials.find n = none ∧ s.db.outbox.find n = none)
    -- the user has no row, and the identifier that it will get has not been used either
    (hnew : s.accounts.find? (·.supabaseUserId == claims.sub) = none) (hstop : s.db.stops.find newId = none) :
    outcome (handleRequest P b claims newId e s) =
    outcome (handleRequest P b claims newId e (s.register claims newId)) ↔
      ¬ (s.takesUser claims newId = true ∧ e.refersToUser P s.db s.ext.clock = true) := by
  cases ht : s.takesUser claims newId with
  | false => simp [register_refused hnew ht]
  | true =>
    obtain ⟨hctx, hctx', hfresh⟩ := getCurrentUserContext_new hnew ht
    have hreg : s.register claims newId = { s with accounts := s.accounts ++ [claims.user newId] } := by
      rw [Server.register, hctx]
    rw [hreg]
    cases hop : e.operation P newId with
    | error f =>
      have href : e.refersToUser P s.db s.ext.clock = false := by
        cases e with
        | confirmPairing => cases hop
        | activate reason confirmation =>
          simp only [Endpoint.operation] at hop
          split at hop
          · rename_i hconf
            simp [Endpoint.refersToUser, hconf]
          · cases hop
      have hop : e.operation P (claims.user newId).id = .error f := hop
      simp [handleRequest, hctx, hctx', hop, href, outcome]
    | ok p =>
      rw [outcome_handleRequest (s := s) hctx hop,
        outcome_handleRequest (s := { s with accounts := s.accounts ++ [claims.user newId] }) hctx' hop]
      have hy : s.store.Yields := hdb ▸ reachable_yields hc
      have hout : s.store.isUser newId = false := by
        simpa [Server.store, DB.isUser] using fun u hu => hfresh u hu
      have hin : (Server.store { s with accounts := s.accounts ++ [claims.user newId] }).isUser newId = true := by
        simp [Server.store, DB.isUser, TokenClaims.user]
      have href : ∀ users, e.refersToUser P { s.db with users := users } s.ext.clock =
          e.refersToUser P s.db s.ext.clock := by
        cases e <;> exact fun _ => rfl
      have hrefused : ∀ users, e.refusedWith P { s.db with users := users } s.ext.clock =
          e.refusedWith P s.db s.ext.clock := by
        cases e <;> exact fun _ => rfl
      rcases answered_operation (b := b) (F := fun _ => false) hop hy hsha hstop hids with ⟨-, h⟩ | ⟨hfirst, -⟩
      · rw [hout] at h
        cases h
      rw [hfirst]
      rcases answered_operation (b := b) (F := fun _ => false) hop
        (d := Server.store { s with accounts := s.accounts ++ [claims.user newId] })
        hy hsha hstop hids with ⟨hdone, h⟩ | ⟨hlater, h⟩
      · rw [hin, Bool.true_and, Server.store, href] at h
        refine iff_of_false (fun he => ?_) (by simp [h])
        rcases hdone with ⟨a, ha⟩ | hst
        · rw [← congrArg Prod.fst he] at ha
          cases ha
        · have hnone : s.store.stops.find newId = none := hstop
          rw [← congrArg Prod.snd he] at hst
          simp [hnone] at hst
      · rw [hin, Bool.true_and, Server.store, href] at h
        refine iff_of_true ?_ (by simp [h])
        rw [hlater, Server.store, Server.store, hrefused, hrefused]
        rfl

end

def demoServer : Server where
  accounts := [⟨7, "d1c2", "seven", "seven@example.org", .active⟩]
  db := demoDB
  ext := demoExt

def newcomer : TokenClaims := ⟨"a0b1", "eight@example.org"⟩

/-- The newcomer cannot activate the stop with their first request. -/
theorem first_activation_refused : ¬ ∀ (s : Server) (claims : TokenClaims) (newId : UUID) (e : Endpoint),
    s.store = demoStart.world.sh.db → s.accounts.find? (·.supabaseUserId == claims.sub) = none →
    s.db.stops.find newId = none →
    outcome (handleRequest demo true claims newId e s) =
      outcome (handleRequest demo true claims newId e (s.register claims newId)) := by
  intro hall
  have h := hall demoServer newcomer 8 (.activate none "ACTIVATE_EMERGENCY_STOP") rfl (by decide) rfl
  have hfirst : (handleRequest demo true newcomer 8 (.activate none "ACTIVATE_EMERGENCY_STOP")
      demoServer).1.isOk = false := by
    decide +kernel
  have hlater : (handleRequest demo true newcomer 8 (.activate none "ACTIVATE_EMERGENCY_STOP")
      (demoServer.register newcomer 8)).1.isOk = true := by decide +kernel
  have hsame := congrArg (fun r => r.1.isOk) h
  simp only [outcome] at hsame
  rw [hfirst, hlater] at hsame
  cases hsame

def startedRun : List (Turn Move) := .other (.call (.startPairing laptop)) :: steps 0 6

def serverOf (c : Conf) : Server := ⟨demoServer.accounts, c.world.sh.db, c.world.sh.ext⟩

theorem first_request_iff_guess : ∃ c : Conf, Reachable demo c ∧
    outcome (handleRequest demo true newcomer 8 (.confirmPairing 10 "123456") (serverOf c)) =
      outcome (handleRequest demo true newcomer 8 (.confirmPairing 10 "123456")
        ((serverOf c).register newcomer 8)) ∧
    (handleRequest demo true newcomer 8 (.confirmPairing 10 "123456") (serverOf c)).1 =
      .error (.api .pairingInvalid "Invalid pairing code" 400) := by
  have hplay : (play (moves demo) startedRun demoStart).any (fun c =>
      decide (c.world.sh.db.users = [7]) && c.world.sh.db.devices.rows.all
        (fun r => decide (r.id < c.world.sh.ext.nextId)) &&
        c.world.sh.db.credentials.rows.isEmpty && c.world.sh.db.outbox.rows.isEmpty &&
        c.world.sh.db.stops.rows.isEmpty &&
        !(Endpoint.confirmPairing 10 "123456").refersToUser demo c.world.sh.db c.world.sh.ext.clock &&
        decide ((handleRequest demo true newcomer 8 (.confirmPairing 10 "123456") (serverOf c)).1 =
          .error (.api .pairingInvalid "Invalid pairing code" 400))) = true := by decide +kernel
  obtain ⟨c, hr, hc⟩ := played hplay
  simp only [Bool.and_eq_true, decide_eq_true_eq, List.all_eq_true, List.isEmpty_iff, Bool.not_eq_true'] at hc
  obtain ⟨⟨⟨⟨⟨⟨husers, hdev⟩, hcred⟩, hout⟩, hstop⟩, hno⟩, hans⟩ := hc
  have hstore : (serverOf c).store = c.world.sh.db := by
    rw [Server.store, show (serverOf c).accounts.map User.id = [7] from rfl, ← husers]
    rfl
  have hreach : Reachable demo c := Reachable.runs demo_reachable hr
  have hnew : demoServer.accounts.find? (·.supabaseUserId == newcomer.sub) = none := by decide
  refine ⟨c, hreach, (first_request_iff (s := serverOf c) hreach hstore demo_sha256
    (fun n hn => ⟨?_, ?_, ?_⟩) hnew ?_).mpr ?_, hans⟩
  · exact Table.find_none fun r hr => Nat.ne_of_lt (Nat.lt_of_lt_of_le (hdev r hr) hn)
  · exact Table.find_none fun r hr => by simp [serverOf, hcred] at hr
  · exact Table.find_none fun r hr => by simp [serverOf, hout] at hr
  · exact Table.find_none fun r hr => by simp [serverOf, hstop] at hr
  · intro h
    cases hno.symm.trans h.2

end Veyaan
