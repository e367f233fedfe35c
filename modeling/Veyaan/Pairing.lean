import Veyaan.Publishing

/-!
# Pairing

A pairing request is good for one device. Every attempt locks the request, and
counts in the transaction in which it compares its code, so overlapping attempts
cannot get ahead of the counter; and a request that is no longer pending never
changes again.
-/

open Relation (ReflTransGen)

namespace Veyaan

open Sys

/-! ## What a transaction does to the requests -/

theorem PairingRequest.Same.refl (p : PairingRequest) : p.Same p := ⟨rfl, rfl, rfl, Nat.le_refl _⟩

theorem PairingRequest.Same.trans {p q r : PairingRequest} (h : p.Same q) (h' : q.Same r) : p.Same r where
  id := h'.id.trans h.id
  pairingCodeHash := h'.pairingCodeHash.trans h.pairingCodeHash
  expiresAt := h'.expiresAt.trans h.expiresAt
  attemptCount := Nat.le_trans h.attemptCount h'.attemptCount

section
variable {P : Params} {s : St} {i : Nat} {t : Tag} {d : DB} {id : UUID}

/-- A request after a transaction: one that is no longer pending is left alone. -/
theorem Tx.pairing_find (h : Tx P s i t d) {p : PairingRequest} (hp : s.db.pairings.find id = some p) :
    ∃ p', d.pairings.find id = some p' ∧ p.Same p' ∧ (p.status ≠ .pending → p' = p) := by
  have hold : ∃ p', s.db.pairings.find id = some p' ∧ p.Same p' ∧ (p.status ≠ .pending → p' = p) :=
    ⟨p, hp, .refl p, fun _ => rfl⟩
  cases h with
  | create h => rw [h.pairings]; exact hold
  | approve _ h => rw [h.pairings]; exact hold
  | chain h =>
    refine h.keeps (I := fun d => ∃ p', d.pairings.find id = some p' ∧ p.Same p' ∧ (p.status ≠ .pending → p' = p))
      (fun d w hw hd => ?_) hold
    obtain ⟨p', hp', hs, hst⟩ := hd
    cases hw with
    | @pairing q q' hf hq hsame =>
      by_cases hid : q'.id = id
      · subst hid
        rw [hf] at hp'
        cases hp'
        refine ⟨q', Table.find_put_self .., hs.trans hsame, fun hne => ?_⟩
        rw [hst hne] at hq
        exact absurd hq hne
      · exact ⟨p', (Table.find_put_ne _ hid).trans hp', hs, hst⟩
    | @newPairing q hf =>
      have hid : q.id ≠ id := by
        rintro rfl
        rw [hf] at hp'
        cases hp'
      exact ⟨p', (Table.find_put_ne _ hid).trans hp', hs, hst⟩
    | _ => exact ⟨p', hp', hs, hst⟩

theorem Tx.device_new (h : Tx P s i t d) (hn : s.db.devices.find id = none) :
    d.devices.find id = none ∨ ∃ a, t = .confirmPairing a id := by
  cases h with
  | create h => rw [h.devices]; exact .inl hn
  | approve _ h => rw [h.devices]; exact .inl hn
  | chain h =>
    refine h.keeps (I := fun d => d.devices.find id = none ∨ ∃ a, t = .confirmPairing a id)
      (fun d w hw hd => ?_) (.inl hn)
    refine hd.elim (fun hd => ?_) .inr
    cases hw with
    | @device r r' hf =>
      have hid : r'.id ≠ id := by
        rintro rfl
        rw [hf] at hd
        cases hd
      exact .inl ((Table.find_put_ne _ hid).trans hd)
    | @newDevice r a _ ht =>
      by_cases hid : r.id = id
      · exact .inr ⟨a, hid ▸ ht⟩
      · exact .inl ((Table.find_put_ne _ hid).trans hd)
    | _ => exact .inl hd

theorem Tx.credential_new (h : Tx P s i t d) (hn : s.db.credentials.find id = none) :
    d.credentials.find id = none ∨ ∃ a dev, t = .confirmPairing a dev := by
  cases h with
  | create h => rw [h.credentials]; exact .inl hn
  | approve _ h => rw [h.credentials]; exact .inl hn
  | chain h =>
    refine h.keeps (I := fun d => d.credentials.find id = none ∨ ∃ a dev, t = .confirmPairing a dev)
      (fun d w hw hd => ?_) (.inl hn)
    refine hd.elim (fun hd => ?_) .inr
    cases hw with
    | @credential r r' hf =>
      have hid : r'.id ≠ id := by
        rintro rfl
        rw [hf] at hd
        cases hd
      exact .inl ((Table.find_put_ne _ hid).trans hd)
    | @newCredential r a dev _ ht => exact .inr ⟨a, dev, ht⟩
    | _ => exact .inl hd

theorem Tx.paired {a : Attempt} {dev : UUID} (h : Tx P s i (.confirmPairing a dev) d) : Paired P s.db d a dev := by
  cases h with
  | chain _ hcl => exact hcl

theorem Tx.counted {a : Attempt} (h : Tx P s i (.wrongCode a) d) : Counted P s.db d a := by
  cases h with
  | chain _ hcl => exact hcl

end

/-! ## Runs -/

structure Confirms (P : Params) (c c' : Conf) (a : Attempt) (deviceId : UUID) : Prop where
  committed : ∃ i, c'.world.sh.trace = c.world.sh.trace ++ [(i, .committed (.confirmPairing a deviceId))]
  paired : Paired P c.world.sh.db c'.world.sh.db a deviceId

def confirms (id : UUID) : Nat × Ev → Bool
  | (_, .committed (.confirmPairing a _)) => a.read.id == id
  | _ => false

def misses (id : UUID) : Nat × Ev → Bool
  | (_, .compared a false) => a.read.id == id
  | _ => false

section
variable {P : Params} {c c' : Conf} {i : Nat} {id : UUID} {a : Attempt}

theorem step_confirms (h : Reachable P c) (hs : (sys P).Step c c') {dev : UUID}
    (ht : c'.world.sh.trace = c.world.sh.trace ++ [(i, .committed (.confirmPairing a dev))]) :
    Confirms P c c' a dev := by
  obtain ⟨s₁, -, hd, -, htx⟩ := step_commits h hs ht
  exact ⟨⟨i, ht⟩, hd ▸ htx.paired⟩

theorem step_pairing (h : Reachable P c) (hs : (sys P).Step c c') {p : PairingRequest}
    (hp : c.world.sh.db.pairings.find id = some p) : ∃ p', c'.world.sh.db.pairings.find id = some p' ∧ p.Same p' ∧
      (p.status ≠ .pending → p' = p) := by
  rcases step_tx h hs with hd | ⟨i, t, s₁, -, hd, -, htx⟩
  · exact ⟨p, by rw [hd]; exact hp, .refl p, fun _ => rfl⟩
  · exact htx.pairing_find (hd ▸ hp)

theorem runs_pairing (h : Reachable P c) (hr : Runs P c c') {p : PairingRequest}
    (hp : c.world.sh.db.pairings.find id = some p) (hst : p.status ≠ .pending) :
    c'.world.sh.db.pairings.find id = some p := by
  induction hr with
  | refl => exact hp
  | tail ha hs ih =>
    obtain ⟨p', hp', -, heq⟩ := step_pairing (h.runs ha) hs ih
    rw [hp', heq hst]

theorem step_device_new (h : Reachable P c) (hs : (sys P).Step c c') (hn : c.world.sh.db.devices.find id = none)
    (hf : c'.world.sh.db.devices.find id ≠ none) : ∃ a, Confirms P c c' a id := by
  rcases step_tx h hs with hd | ⟨i, t, s₁, ht, hd, -, htx⟩
  · rw [hd] at hf
    exact absurd hn hf
  · rcases htx.device_new (hd ▸ hn) with hn' | ⟨a, rfl⟩
    · exact absurd hn' hf
    · exact ⟨a, step_confirms h hs ht⟩

theorem step_credential_new (h : Reachable P c) (hs : (sys P).Step c c')
    (hn : c.world.sh.db.credentials.find id = none) (hf : c'.world.sh.db.credentials.find id ≠ none) :
    ∃ a dev, Confirms P c c' a dev := by
  rcases step_tx h hs with hd | ⟨i, t, s₁, ht, hd, -, htx⟩
  · rw [hd] at hf
    exact absurd hn hf
  · rcases htx.credential_new (hd ▸ hn) with hn' | ⟨a, dev, rfl⟩
    · exact absurd hn' hf
    · exact ⟨a, dev, step_confirms h hs ht⟩

/-! ## One confirmation -/

theorem exists_of_confirms {x : Nat × Ev} (h : confirms id x = true) :
    ∃ i a dev, x = (i, .committed (.confirmPairing a dev)) ∧ a.read.id = id := by
  obtain ⟨i, v⟩ := x
  unfold confirms at h
  split at h
  · rename_i a dev hx
    cases hx
    exact ⟨_, _, _, rfl, by simpa using h⟩
  · cases h

/-- A request that was confirmed is no longer pending, so it is not confirmed
again. -/
theorem confirmed_once (h : Reachable P c) : c.world.sh.trace.countP (confirms id) ≤ 1 ∧
    (0 < c.world.sh.trace.countP (confirms id) →
      ∃ p, c.world.sh.db.pairings.find id = some p ∧ p.status = .confirmed) := by
  induction h with
  | init h₀ => simp [h₀.trace]
  | @step a b ha hs ih =>
    obtain ⟨hone, hconf⟩ := ih
    have hkeep : 0 < a.world.sh.trace.countP (confirms id) →
        ∃ p, b.world.sh.db.pairings.find id = some p ∧ p.status = .confirmed := fun hpos => by
      obtain ⟨p, hp, hst⟩ := hconf hpos
      obtain ⟨p', hp', -, heq⟩ := step_pairing ha hs hp
      obtain rfl := heq (by rw [hst]; simp)
      exact ⟨p', hp', hst⟩
    rcases step_entry handle_one hs with ht | ⟨j, v, ht, -⟩
    · rw [ht]
      exact ⟨hone, hkeep⟩
    rw [ht, List.countP_append, List.countP_singleton]
    split
    swap
    · exact ⟨hone, hkeep⟩
    rename_i hv
    obtain ⟨i, x, dev, hx, rfl⟩ := exists_of_confirms hv
    cases hx
    have hp := (step_confirms ha hs ht).paired
    refine ⟨?_, fun _ => hp.confirmed⟩
    have hzero : a.world.sh.trace.countP (confirms x.read.id) = 0 := by
      refine Nat.eq_zero_of_not_pos fun hpos => ?_
      obtain ⟨p, hf, hst⟩ := hconf hpos
      rw [hp.request] at hf
      cases hf
      rw [hp.valid.pending] at hst
      cases hst
    omega

end

/-! ## Under its lock -/

def Eff.attempt : {β : Type} → Eff β → Option Attempt
  | _, .compareDigest _ a => some a
  | _, _ => none

def comparing : {β : Type} → Stmt β → Option Attempt
  | _, .eff e => e.attempt
  | _, _ => none

/-- A code is compared under the lock of its request, as the first entry of a call;
and what a call commits after a wrong code is that it was wrong. -/
structure Careful (β : Type) (s : Stmt β) (L : List Key) (l : List Ev) : Prop where
  compare : ∀ a, comparing s = some a → Key.pairing a.read.id ∈ L ∧ l = []
  commit : ∀ t, s.commits = some t → ∀ a, Ev.compared a false ∈ l →
    t = some (.commit (.wrongCode a)) ∨ Ev.committed (.wrongCode a) ∈ l

structure Uncomparing (Q : Attempt → Prop) (β : Type) (s : Stmt β) : Prop where
  comparing : comparing s = none
  commits : ∀ t, s.commits = some t → ∀ a, Q a → t = some (.commit (.wrongCode a))

section
variable {P : Params} {α β : Type} {L : List Key} {l : List Ev} {Q : Attempt → Prop}

theorem Uncomparing.careful {s : Stmt β} (h : Uncomparing Q β s) (hl : ∀ a, Ev.compared a false ∈ l → Q a) :
    Careful β s L l := by
  refine ⟨fun a ha => ?_, fun t ht a ha => .inl (h.commits t ht a (hl a ha))⟩
  rw [h.comparing] at ha
  cases ha

theorem says_compared {s : Stmt β} {w : Wd} {a : Attempt} {ok : Bool} (h : (sys P).Says w s (.compared a ok)) :
    comparing s = some a := by
  have hsee : ∀ (l : Label) ok' d x, l.see ok' d x ≠ .compared a ok := by
    intro l ok' d x
    cases l <;> simp [Label.see]
  obtain ⟨x, ch, rfl, hv⟩ := Sys.says_effect hsee (fun _ he => by cases he) h
  cases x <;> cases ch <;> simp_all [sys, Eff.handle, comparing, Eff.attempt]

theorem careful_of_all {p : Op α} (h : p.All (Uncomparing Q)) (hl : ∀ a, Ev.compared a false ∈ l → Q a) :
    (sys P).Claims Careful p (fun _ _ l => ∀ a, Ev.compared a false ∈ l → Q a) L l := by
  refine Claims.mono (fun _ _ l hr a ha => hr.2 _ ha a rfl) (claims_of_all (φ := Uncomparing Q) (N := [])
    (J := fun v => ∀ a, v = .compared a false → Q a) (fun hs _ hj => hs.careful fun a ha => hj _ ha a rfl) (by simp)
    (fun hs hv a he => ?_) h (by simp) fun v hv a he => hl a (he ▸ hv))
  subst he
  have := hs.comparing
  rw [says_compared hv] at this
  cases this

theorem quiet_uncomparing : Quiet (Uncomparing fun _ => False) where
  read _ _ := ⟨rfl, fun _ _ _ h => h.elim⟩
  forUpdate _ _ _ := ⟨rfl, fun _ _ _ h => h.elim⟩
  skipLocked _ _ _ := ⟨rfl, fun _ _ _ h => h.elim⟩
  stmt _ _ _ := ⟨rfl, fun _ _ _ h => h.elim⟩
  now := ⟨rfl, fun _ _ _ h => h.elim⟩
  uuid4 := ⟨rfl, fun _ _ _ h => h.elim⟩
  token := ⟨rfl, fun _ _ _ h => h.elim⟩
  rollback := ⟨rfl, fun _ _ _ h => h.elim⟩
  fresh _ := ⟨rfl, fun _ _ _ h => h.elim⟩
  eff e h := by
    refine ⟨?_, fun _ _ _ h => h.elim⟩
    cases e with
    | compareDigest => cases h
    | _ => rfl

theorem careful_of {s : Stmt β} (hs : comparing s = none) (hc : s.commits = none) : Careful β s L l := by
  refine Uncomparing.careful (Q := fun _ => True) ⟨hs, fun t ht => ?_⟩ fun _ _ => trivial
  rw [hc] at ht
  cases ht

theorem careful_quiet {p : Op α} (h : p.All (Uncomparing fun _ => False)) (hl : ∀ a, Ev.compared a false ∉ l) :
    (sys P).Claims Careful p (fun r L l => ∀ a, r = .ok a → Careful Unit (.commit none) L l) L l := by
  refine Claims.mono (fun r L l hr a _ => ?_) (careful_of_all h hl)
  exact Uncomparing.careful (Q := fun _ => False) ⟨rfl, fun _ _ _ hf => hf.elim⟩ hr

theorem careful_wrongCode {a : Attempt} {id : UUID} {f : PairingRequest → PairingRequest} {e : Err}
    {post : Except Err α → List Key → List Ev → Prop} (hl : ∀ a', Ev.compared a' false ∈ l → a' = a)
    (hpost : ∀ e L l, post (.error e) L l) :
    (sys P).Claims Careful (refusePairing (.wrongCode a) id f e) post L l := by
  refine claims_bind (Claims.mono (fun r L l hr => ?_)
    (careful_of_all (Q := (· = a)) (.call ⟨rfl, fun t ht => by cases ht⟩) hl))
  cases r with
  | error e => exact hpost e L l
  | ok n =>
    refine claims_bind (claims_commit ⟨(fun a ha => by cases ha), fun t ht a' ha => ?_⟩ (fun e => hpost e L l)
      fun _ _ => hpost _ _ _)
    cases ht
    rw [hr a' ha]
    exact .inl rfl

theorem careful_confirmPairing {id owner : UUID} {code : String} :
    (sys P).Claims Careful (confirmPairing P id owner code) (fun _ _ _ => True) [] [] := by
  have hq := quiet_uncomparing
  refine claims_withSession (fun _ _ => careful_of rfl rfl)
    (claims_bind (claims_bind (claims_silent (careful_of rfl rfl)
      (by rintro w v ⟨l, ok, ht, -⟩; cases ht) fun r => ?_)))
  cases r with
  | error e => intro a ha; cases ha
  | ok rows =>
    dsimp only [Prim.claimed]
    cases hr : rows.head? with
    | none => intro a ha; cases ha
    | some pairing =>
      have hlock : Key.pairing pairing.id ∈ rows.map (fun p => Key.pairing p.id) ++ [] := by
        rw [List.append_nil]
        exact List.mem_map_of_mem (List.mem_of_head? hr)
      simp only [Prog.pure_eq, Sys.Claims]
      split
      · obtain ⟨e, he⟩ :=
          columnValue_raise (α := UUID × String) P
          (.api .pairingInvalid ("Pairing is " ++ pairing.status.value) 400)
        rw [he]
        intro a ha
        cases ha
      refine claims_bind (claims_silent (careful_of rfl rfl) ?_ fun r => ?_)
      · rintro w v ⟨ch, hv⟩
        simp [sys, Eff.handle] at hv
      cases r with
      | error e => intro a ha; cases ha
      | ok now =>
        have hcommit : ∀ t, Label.Ordinary t → Uncomparing (fun _ => False) Unit (.commit t) :=
          fun _ _ => ⟨rfl, fun _ _ _ h => h.elim⟩
        dsimp only
        split
        · exact careful_quiet (hq.refusePairing hcommit (by simp [Label.Ordinary])) (by simp)
        split
        · exact careful_quiet (hq.refusePairing hcommit (by simp [Label.Ordinary])) (by simp)
        refine claims_bind (claims_eff ⟨fun a ha => ?_, fun t ht => by cases ht⟩ fun ch x => ?_)
        · cases ha
          exact ⟨hlock, rfl⟩
        dsimp only [sys, Eff.handle]
        split
        · rename_i hcode
          exact careful_quiet (hq.confirmDevice hcommit) (by simp [hcode])
        · rename_i hcode
          refine careful_wrongCode (fun a' ha => ?_) fun e _ _ a he => by cases he
          simpa [hcode] using ha

theorem careful_code (call : Call) : (sys P).Claims Careful (call.code P) (fun _ _ _ => True) [] [] := by
  have hcommit : ∀ t, Uncomparing (fun _ => False) Unit (.commit t) := fun _ => ⟨rfl, fun _ _ _ h => h.elim⟩
  by_cases hp : ∃ id o code, call = .confirmPairing id o code
  · obtain ⟨id, o, code, rfl⟩ := hp
    exact claims_bind (careful_confirmPairing.mono fun r _ _ _ => by cases r <;> trivial)
  · refine (careful_of_all (quiet_uncomparing.code (fun t _ => hcommit t)
      (fun _ _ _ => ⟨rfl, fun _ _ _ h => h.elim⟩)
      (fun _ _ _ => ⟨rfl, fun _ _ _ h => h.elim⟩) (fun _ _ => ⟨rfl, fun _ _ _ h => h.elim⟩)
      (fun _ _ _ => ⟨hcommit _, ⟨rfl, fun _ _ _ h => h.elim⟩⟩) fun id o code he => ?_) (by simp)).mono
      fun _ _ _ _ => trivial
    exact absurd ⟨id, o, code, he⟩ hp

end

/-! ## The wrong codes are counted -/

def Missed (t : List (Nat × Ev)) (i : Nat) (a : Attempt) : Prop :=
  (i, Ev.compared a false) ∈ t ∧ (i, Ev.committed (.wrongCode a)) ∉ t

/-- A step that does not roll back the attempt of a wrong code. -/
structure Durable (P : Params) (c c' : Conf) : Prop where
  step : (sys P).Step c c'
  kept : ∀ i a, Missed c.world.sh.trace i a → ¬ RollsBack i c c'

/-- The counter has kept up with the wrong codes, but for the one of the process
that has the request locked. -/
def Tallied (c : Conf) (id : UUID) (n : Nat) : Prop :=
  ∃ p, c.world.sh.db.pairings.find id = some p ∧ (n ≤ p.attemptCount ∨ n ≤ p.attemptCount + 1 ∧
    ∃ i a, a.read.id = id ∧ Missed c.world.sh.trace i a ∧ c.world.locks (.pairing id) = some i)

section
variable {P : Params} {c c' : Conf} {i : Nat} {id : UUID} {a : Attempt}

/-- A code is compared by the process that has locked its request, in its first
entry. -/
theorem step_compares (h : Reachable P c) (hs : (sys P).Step c c') {ok : Bool}
    (ht : c'.world.sh.trace = c.world.sh.trace ++ [(i, .compared a ok)]) :
    c.world.locks (.pairing a.read.id) = some i ∧ c'.world.locks (.pairing a.read.id) = some i ∧
      c.world.sh.db.pairings.find a.read.id = some a.read ∧ c'.world.sh.db = c.world.sh.db ∧ a.Valid P ∧
      own i c.world.sh.trace = [] := by
  obtain ⟨s₁, -, hd, hv | ⟨_, _, hv, -⟩ | ⟨t, hv, -⟩⟩ := step_says h hs ht
  · obtain ⟨hval, -, hf⟩ := hv
    obtain ⟨call, β, q, f, ch, r, hp, he, hq⟩ := step_speaker hs ht
    obtain ⟨L, hL, hcar, -⟩ := Reachable.claims careful_code h hp
    obtain ⟨hm, hnil⟩ := hcar.compare a (says_compared hq)
    cases q with
    | eff e =>
      refine ⟨hL _ hm, exec_claimed he hL _ hm, hd ▸ hf, ?_, hval, hnil⟩
      simp only [exec, Option.some.injEq, Prod.mk.injEq] at he
      rw [← he.2]
      rfl
    | _ => cases says_compared hq
  · cases hv
  · cases hv

theorem step_counted (h : Reachable P c) (hs : (sys P).Step c c')
    (ht : c'.world.sh.trace = c.world.sh.trace ++ [(i, .committed (.wrongCode a))]) :
    Counted P c.world.sh.db c'.world.sh.db a := by
  obtain ⟨s₁, -, hd, -, htx⟩ := step_commits h hs ht
  exact hd ▸ htx.counted

/-- Who has compared a wrong code keeps the request locked until that is recorded. -/
theorem Durable.keeps_lock (h : Reachable P c) (hs : Durable P c c') {key : Key} (hm : Missed c.world.sh.trace i a)
    (hl : c.world.locks key = some i) : c'.world.locks key = some i ∨
      c'.world.sh.trace = c.world.sh.trace ++ [(i, .committed (.wrongCode a))] := by
  rcases step_keeps_lock h hs.step hl (hs.kept i a hm) with hl' | ⟨call, t, f, hp, ht⟩
  · exact .inl hl'
  obtain ⟨L, -, hcar, -⟩ := Reachable.claims careful_code h hp
  rcases hcar.commit t rfl a (mem_own.mpr hm.1) with rfl | hcom
  · exact .inr ht
  · exact absurd (mem_own.mp hcom) hm.2

theorem Durable.tallied (h : Reachable P c) (hs : Durable P c c') {n : Nat} (ht : Tallied c id n) :
    Tallied c' id n := by
  obtain ⟨p, hp, hn⟩ := ht
  obtain ⟨p', hp', hsame, -⟩ := step_pairing h hs.step hp
  refine ⟨p', hp', ?_⟩
  have hle := hsame.attemptCount
  rcases hn with hn | ⟨hn, i, a, rfl, hm, hl⟩
  · exact .inl (by omega)
  by_cases hrec : c'.world.sh.trace = c.world.sh.trace ++ [(i, .committed (.wrongCode a))]
  · -- the wrong code has been recorded
    have hc := step_counted h hs.step hrec
    rw [hc.request] at hp
    rw [hc.counted] at hp'
    cases hp
    cases hp'
    exact .inl hn
  · refine .inr ⟨by omega, i, a, rfl, ⟨?_, fun hx => ?_⟩, (hs.keeps_lock h hm hl).resolve_right hrec⟩
    · exact (runs_later h (.single hs.step)).trace.subset hm.1
    · rcases step_entry handle_one hs.step with ht | ⟨j, v, ht, -⟩
      · rw [ht] at hx
        exact hm.2 hx
      · rw [ht] at hx
        rcases List.mem_append.mp hx with hx | hx
        · exact hm.2 hx
        · rw [List.mem_singleton.mp hx] at hrec
          exact hrec ht

theorem exists_of_misses {x : Nat × Ev} (h : misses id x = true) :
    ∃ i a, x = (i, .compared a false) ∧ a.read.id = id := by
  obtain ⟨i, v⟩ := x
  unfold misses at h
  split at h
  · rename_i a hx
    cases hx
    exact ⟨_, _, rfl, by simpa using h⟩
  · cases h

/-- As long as no wrong code was compared, nothing is asked of the request. -/
theorem Durable.runs {c₀ : Conf} (h₀ : Initial Init c₀) (h : ReflTransGen (Durable P) c₀ c) :
    Reachable P c ∧ c.world.sh.trace.countP (misses id) ≤ P.maxPairingAttempts ∧
      (0 < c.world.sh.trace.countP (misses id) → Tallied c id (c.world.sh.trace.countP (misses id))) := by
  induction h with
  | refl => exact ⟨.init h₀, by simp [h₀.trace], by simp [h₀.trace]⟩
  | @tail b c _ hs ih =>
    obtain ⟨hr, hmax, htal⟩ := ih
    refine ⟨.step hr hs.step, ?_⟩
    rcases step_entry handle_one hs.step with ht | ⟨j, v, ht, -⟩
    · rw [ht]
      exact ⟨hmax, fun hpos => hs.tallied hr (htal hpos)⟩
    rw [ht, List.countP_append, List.countP_singleton]
    split
    swap
    · exact ⟨hmax, fun hpos => hs.tallied hr (htal hpos)⟩
    rename_i hv
    obtain ⟨i, a, hx, rfl⟩ := exists_of_misses hv
    cases hx
    obtain ⟨hl, hl', hf, hd, hval, hnil⟩ := step_compares hr hs.step ht
    have hfirst : ∀ v, (j, v) ∉ b.world.sh.trace := fun v hv => by
      have := mem_own.mpr hv
      rw [hnil] at this
      cases this
    -- every wrong code before this one has been counted
    have hcount : b.world.sh.trace.countP (misses a.read.id) ≤ a.read.attemptCount := by
      rcases Nat.eq_zero_or_pos (b.world.sh.trace.countP (misses a.read.id)) with hz | hpos
      · omega
      obtain ⟨p, hp, hn | ⟨-, k, a', -, hm, hlk⟩⟩ := htal hpos
      · rw [hf] at hp
        cases hp
        exact hn
      · rw [hl] at hlk
        cases hlk
        exact absurd hm.1 (hfirst _)
    have := hval.left
    refine ⟨by omega, fun _ => ⟨a.read, by rw [hd]; exact hf, .inr ⟨by omega, j, a, rfl, ⟨?_, fun hx => ?_⟩, hl'⟩⟩⟩
    · rw [ht]
      exact List.mem_append_right _ (List.mem_singleton.mpr rfl)
    · rw [ht] at hx
      rcases List.mem_append.mp hx with hx | hx
      · exact hfirst _ hx
      · cases List.mem_singleton.mp hx

theorem Confirms.in_bounds (h : Reachable P c) (hs : (sys P).Step c c') {dev : UUID} {n : Nat}
    (hc : Confirms P c c' a dev) (ht : Tallied c a.read.id n) : n < P.maxPairingAttempts := by
  have hval := hc.paired.valid.left
  obtain ⟨p, hp, hn | ⟨-, j, a', hid, hm, hl⟩⟩ := ht
  · rw [hc.paired.request] at hp
    cases hp
    omega
  exfalso
  -- the request has changed, but process `j` has it locked
  obtain ⟨p', hp', hst⟩ := hc.paired.confirmed
  have hchanged : c'.world.sh.db.pairings.find a.read.id ≠ c.world.sh.db.pairings.find a.read.id := fun he => by
    rw [hp', hc.paired.request] at he
    cases he
    rw [hc.paired.valid.pending] at hst
    cases hst
  obtain ⟨k, call, β, q, f, l, s₁, t, hq, hcom, hsee, htr, -⟩ := step_commit h hs fun hd => hchanged (by rw [hd])
  obtain ⟨i, htr'⟩ := hc.committed
  cases List.append_cancel_left (htr'.symm.trans htr)
  by_cases hij : k = j
  · subst hij
    obtain ⟨L, -, hcar, -⟩ := Reachable.claims careful_code h hq
    rcases hcar.commit _ hcom a' (mem_own.mpr hm.1) with he | he
    · cases he
      cases hsee
    · exact hm.2 (mem_own.mp he)
  · obtain ⟨_, _, _, _, _, _, -, he, -⟩ := step_speaker hs htr'
    exact hchanged (Row.pairing.inj (((exec_moved he).leaves h.lockOk hij).2.2 _ hl))

/-- **A pairing request is good for one device, and for few guesses.** It is
confirmed at most once. Only a confirmation makes devices and credentials: one of
each, by a call that read the clock in time and whose code has the hash of the
request. A request that is no longer pending never changes. And unless a
wrong code is rolled back, no more than `MAX_PAIRING_ATTEMPTS` are ever compared,
and once they are, nothing is made of the request. -/
theorem pairing_single_use {c₀ : Conf} (h₀ : Initial Init c₀) (h : Runs P c₀ c) (id : UUID) :
    c.world.sh.trace.countP (confirms id) ≤ 1 ∧
    (∀ c' k, (sys P).Step c c' → c.world.sh.db.devices.find k = none → c'.world.sh.db.devices.find k ≠ none →
      ∃ a, Confirms P c c' a k) ∧
    (∀ c' k, (sys P).Step c c' → c.world.sh.db.credentials.find k = none →
      c'.world.sh.db.credentials.find k ≠ none →
      ∃ a dev, Confirms P c c' a dev) ∧
    (∀ c' p, Runs P c c' → c.world.sh.db.pairings.find id = some p → p.status ≠ .pending →
      c'.world.sh.db.pairings.find id = some p) ∧
    (ReflTransGen (Durable P) c₀ c → c.world.sh.trace.countP (misses id) ≤ P.maxPairingAttempts ∧
      ∀ c' a dev, (sys P).Step c c' → Confirms P c c' a dev → a.read.id = id →
        c.world.sh.trace.countP (misses id) < P.maxPairingAttempts) := by
  have hr : Reachable P c := (Reachable.init h₀).runs h
  refine ⟨(confirmed_once hr).1, fun c' k hs => step_device_new hr hs, fun c' k hs => step_credential_new hr hs,
    fun c' p hrun => runs_pairing hr hrun, fun hdur => ?_⟩
  obtain ⟨-, hmax, htal⟩ := Durable.runs h₀ hdur
  refine ⟨hmax, fun c' a dev hs hc hid => ?_⟩
  subst hid
  rcases Nat.eq_zero_or_pos (c.world.sh.trace.countP (misses a.read.id)) with hz | hpos
  · have := hc.paired.valid.left
    omega
  · exact hc.in_bounds hr hs (htal hpos)

def recorded (t : List (Nat × Ev)) (i : Nat) : Bool :=
  t.all fun
    | (j, .compared a false) => j != i || t.any fun
      | (k, .committed (.wrongCode b)) => k == i && b == a
      | _ => false
    | _ => true

theorem not_missed {t : List (Nat × Ev)} (h : recorded t i = true) : ¬ Missed t i a := by
  rintro ⟨hm, hc⟩
  have := List.all_eq_true.mp h _ hm
  simp only [bne_self_eq_false, Bool.false_or, List.any_eq_true] at this
  obtain ⟨⟨k, v⟩, hx, hb⟩ := this
  split at hb
  · rename_i j b he
    cases he
    simp only [Bool.and_eq_true, beq_iff_eq] at hb
    rw [hb.1, hb.2] at hx
    exact hc hx
  · cases hb

def durable (c : Conf) (_ : Turn Move) : Bool :=
  (List.range c.procs.length).all fun i =>
    match c.procs[i]? with
    | some ⟨_, .op .rollback _⟩ => recorded c.world.sh.trace i
    | _ => true

theorem durable_step {u : Turn Move} (hu : durable c u = true) (h : turn (moves P) c u = some c') :
    Durable P c c' := by
  refine ⟨turn_step _ h, ?_⟩
  rintro i a hm ⟨call, k, hp, -⟩
  have := List.all_eq_true.mp hu i (List.mem_range.mpr (List.getElem?_eq_some_iff.mp hp).1)
  rw [hp] at this
  exact not_missed this hm

def pairingDB : DB :=
  { demoDB with pairings := ⟨[⟨3, laptop, demo.sha256 demoExt.token, 0, none, .pending, 10, none⟩], by decide⟩ }

def guessedRun : List (Turn Move) :=
  .other (.call (.confirmPairing 3 7 "123456")) :: .other (.call (.confirmPairing 3 7 demoExt.token)) ::
    steps 0 6 ++ steps 1 16

theorem pairing_single_use_guessed : ∃ c₀ c p, Initial Init c₀ ∧ ReflTransGen (Durable demo) c₀ c ∧
    c.world.sh.trace.countP (misses 3) = 1 ∧ c.world.sh.trace.countP (confirms 3) = 1 ∧
    c.world.sh.db.devices.rows.length = 3 ∧ p.status = .confirmed ∧
    ∀ c', Runs demo c c' → c'.world.sh.db.pairings.find 3 = some p := by
  have h₀ : Initial Init (fresh pairingDB demoExt) :=
    ⟨rfl, rfl, fun _ => rfl, fun _ => rfl, rfl, rfl, rfl, rfl, rfl, rfl, rfl, fun _ => rfl, rfl, rfl⟩
  have hplay : (playIf (moves demo) durable guessedRun (fresh pairingDB demoExt)).any (fun c =>
      c.world.sh.trace.countP (misses 3) == 1 && c.world.sh.trace.countP (confirms 3) == 1 &&
        c.world.sh.db.devices.rows.length == 3 &&
            (c.world.sh.db.pairings.find 3).any (·.status == .confirmed)) = true := by
    decide +kernel
  obtain ⟨c, hc, hφ⟩ := (Option.any_eq_true _ _).mp hplay
  simp only [Bool.and_eq_true, Option.any_eq_true, beq_iff_eq] at hφ
  obtain ⟨⟨⟨hmiss, hconf⟩, hdev⟩, p, hp, hst⟩ := hφ
  have hr : ReflTransGen (Durable demo) (fresh pairingDB demoExt) c :=
    playIf_runs _ (Q := Durable demo) durable_step hc
  have hpair := pairing_single_use h₀ (hr.lift id fun _ _ hs => hs.step) 3
  exact ⟨_, c, p, h₀, hr, hmiss, hconf, hdev, hst, fun c' hrun => hpair.2.2.2.1 c' p hrun hp (by rw [hst]; simp)⟩

end

end Veyaan
