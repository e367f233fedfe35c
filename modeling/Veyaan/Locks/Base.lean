import Veyaan.Constraints
import Veyaan.Lib.LockOrder
import Veyaan.Serial.Base
import Veyaan.System

/-!
# The order of the locks

Which rows a transaction locks after which. An outbox event and an approval have one
level when they are there and a higher one when they are inserted: the publisher starts
with events, and the services end with them.
-/

namespace Veyaan

open Sys LockOrder

/-! ## Levels -/

def lockLevel (d : DB) : Key → Nat
  | .pairing _ => 1
  | .idempotency .. => 1
  | .approval id => if (d.approvals.find id).isSome then 2 else 7
  | .stop _ => 3
  | .outbox id => if (d.outbox.find id).isSome then 4 else 10
  | .command _ => 5
  | .task _ => 6
  | .approvalOf _ => 7
  | .device _ => 8
  | .credential _ => 9

def Key.rowId : Key → Option UUID
  | .approval id => some id
  | .outbox id => some id
  | _ => none

def DB.present (d : DB) : Key → Prop
  | .approval id => (d.approvals.find id).isSome = true
  | .outbox id => (d.outbox.find id).isSome = true
  | _ => False

def Eff.drawn : {β : Type} → Eff β → β → Option UUID
  | _, .uuid4, id => some id
  | _, _, _ => none

theorem lockLevel_pos (d : DB) (k : Key) : 0 < lockLevel d k := by
  cases k with
  | approval => simp only [lockLevel]; split <;> decide
  | outbox => simp only [lockLevel]; split <;> decide
  | _ => exact Nat.succ_pos _

theorem row_decides {d d' : DB} {k : Key} (h : d.row k = d'.row k) :
    lockLevel d k = lockLevel d' k ∧ (d.present k → d'.present k) := by
  cases k with
  | approval id => simp only [DB.row, Row.approval.injEq] at h; simp [lockLevel, DB.present, h]
  | outbox id => simp only [DB.row, Row.outbox.injEq] at h; simp [lockLevel, DB.present, h]
  | _ => exact ⟨rfl, id⟩

theorem DB.present.apply {d : DB} {k : Key} (w : Write) (h : d.present k) : (w.apply d).present k := by
  cases k with
  | approval id =>
    cases w with
    | approval a =>
      simp only [DB.present, Write.apply, Table.find_put]
      split
      · rfl
      · exact h
    | _ => exact h
  | outbox id =>
    cases w with
    | outbox e =>
      simp only [DB.present, Write.apply, Table.find_put]
      split
      · rfl
      · exact h
    | _ => exact h
  | _ => cases h

theorem drawn_new {β : Type} {ch : Bool} {e : Eff β} {x : Ext} {b : β} {n : UUID} (hb : (e.handle ch x).1 = .ok b)
    (hn : e.drawn b = some n) : x.nextId ≤ n ∧ n < (e.handle ch x).2.1.nextId := by
  cases e with
  | uuid4 =>
    cases hb
    cases hn
    exact ⟨Nat.le_refl _, Nat.lt_succ_self _⟩
  | _ => cases hn

def lockOrder (P : Params) : (sys P).LockOrder where
  level := lockLevel
  level_pos := lockLevel_pos
  level_congr h := (row_decides h).1
  name := Key.rowId
  present := DB.present
  present_congr h := (row_decides h).2
  present_apply w h := h.apply w
  next := Ext.nextId
  drawn := Eff.drawn
  drawn_new := drawn_new
  next_handle := handle_nextId
  next_env := extStep_nextId

/-! ## Statements -/

abbrev Locks {α : Type} (P : Params) (strict : Bool) (n : Nat) (L : List Key) (p : Op α)
    (Q : Except Err α → Nat → List Key → Prop) : Prop :=
  (lockOrder P).Orders strict n L p Q

def Write.old (d : DB) : Write → Prop
  | .approval a => (d.approvals.find a.id).isSome = true
  | .outbox e => (d.outbox.find e.id).isSome = true
  | _ => True

theorem present_of_insert {d : DB} {w : Write} {k : Key} (h : (w.apply d).present k) :
    d.present k ∨ k ∈ w.keys := by
  by_cases hk : k ∈ w.keys
  · exact .inr hk
  · exact .inl ((row_decides (row_frame w d k hk)).2 h)

theorem present_of_apply {d : DB} {w : Write} {k : Key} (hw : w.old d)
    (h : (w.apply d).present k) : d.present k := by
  rcases present_of_insert h with h | hk
  · exact h
  · cases w with
    | approval a => rw [List.mem_singleton.mp hk]; exact hw
    | outbox e => rw [List.mem_singleton.mp hk]; exact hw
    | event | audit => cases hk
    | _ => rw [List.mem_singleton.mp hk] at h; cases h

theorem present_of_write {d : DB} {k : Key} (ws : List Write) (hw : ∀ w ∈ ws, w.old d)
    (h : (d.write ws).present k) : d.present k := by
  induction ws generalizing d with
  | nil => exact h
  | cons w ws ih =>
    refine present_of_apply (hw w (List.mem_cons_self ..)) (ih (fun v hv => ?_) h)
    have hv := hw v (List.mem_cons_of_mem _ hv)
    cases v with
    | approval a => exact DB.present.apply (k := .approval a.id) w hv
    | outbox e => exact DB.present.apply (k := .outbox e.id) w hv
    | _ => trivial

namespace Locks

variable {α β : Type} {P : Params} {strict : Bool} {n n' m : Nat} {L M : List Key}
    {Q : Except Err α → Nat → List Key → Prop}

theorem select {q : DB → α} (h : ∀ r, Q r n L) : Locks P strict n L (Veyaan.select q) Q := orders_read h

theorem effect {e : Eff α} (h : ∀ r, Q r n L) : Locks P strict n L (Veyaan.effect e) Q := orders_eff h

theorem commit {t : Tag} {Q : Except Err Unit → Nat → List Key → Prop}
    (hE : Q (.error .db) n L) (h : Q (.ok ()) 0 []) :
    Locks P strict n L (Veyaan.commit t) Q := orders_commit hE h

theorem commits {t : Tag} : Locks P strict n L (Veyaan.commit t) (Upto n []) :=
  commit ⟨Nat.le_refl n, nofun⟩ ⟨Nat.zero_le n, nofun⟩

theorem selectForUpdate {ρ : Type} {Q : Except Err (Option ρ) → Nat → List Key → Prop}
    {sel : DB → Option ρ} {key : ρ → Key}
    {l : Option Label} (hE : Q (.error .db) n L)
    (hover : ∀ d row, sel d = some row → (lockOrder P).Over strict n L d [key row])
    (hnone : Q (.ok none) n L) (hn : n ≤ m)
    (hsome : ∀ d row, sel d = some row → lockLevel d (key row) ≤ m ∧ Q (.ok (some row)) m (key row :: L)) :
    Locks P strict n L (Veyaan.selectForUpdate sel key l) Q := by
  apply orders_bind
  apply orders_forUpdate hE
  intro d
  cases hsel : sel d with
  | none => exact ⟨nofun, n, Nat.le_refl _, nofun, orders_ret hnone⟩
  | some row =>
    obtain ⟨hlev, hq⟩ := hsome d row hsel
    refine ⟨hover d row hsel, m, hn, fun k hk => ?_, orders_ret hq⟩
    rw [List.mem_singleton.mp hk]
    exact hlev

theorem execute {Q : Except Err Nat → Nat → List Key → Prop} {ks : List Key} {f : DB → Except Err (List Write)}
    (hE : ∀ e, Q (.error e) n L) (hover : ∀ d, (lockOrder P).Over strict n L d ks) (hn : n ≤ m)
    (hw : ∀ d ws, f d = .ok ws → ∀ w ∈ ws, (∀ k ∈ w.keys, k ∈ ks) ∧ w.old d)
    (hlev : ∀ d ws, f d = .ok ws → ∀ k ∈ ks, k ∈ L ∨ lockLevel d k ≤ m)
    (h : ∀ r, Q (.ok r) m (ks ++ L)) : Locks P strict n L (Veyaan.execute ks f) Q := by
  apply orders_stmt hE hn
  intro d
  refine ⟨hover d, fun ws hf => ⟨fun k hk => ?_, hlev d ws hf, fun k _ _ hpr => ?_, h _⟩⟩
  · obtain ⟨w, hw', hk⟩ := List.mem_flatMap.mp hk
    exact (hw d ws hf w hw').1 k hk
  · exact present_of_write ws (fun w hw' => (hw d ws hf w hw').2) hpr

theorem stmtAll {ρ : Type} {sel : DB → List ρ} {key : ρ → Key} {g : ρ → Write} (hn : n < m)
    (hkeys : ∀ r, (g r).keys = [key r]) (h : ∀ d, ∀ r ∈ sel d, lockLevel d (key r) = m ∧ (g r).old d) :
    Locks P strict n L (.call (.stmt (fun d => (sel d).map key) fun d => .ok ((sel d).map g))) (Upto m L) := by
  have hlev : ∀ d, ∀ k ∈ (sel d).map key, lockLevel d k = m := by
    intro d k hk
    obtain ⟨r, hr, rfl⟩ := List.mem_map.mp hk
    exact (h d r hr).1
  apply orders_stmt (m := m)
  · exact fun _ => ⟨Nat.le_of_lt hn, fun _ h => h⟩
  · exact Nat.le_of_lt hn
  intro d
  refine ⟨Over.of_lt fun k hk => ?_, ?_⟩
  · have hl : lockLevel d k = m := hlev d k hk
    show n < lockLevel d k
    rw [hl]
    exact hn
  · intro ws hws
    cases hws
    refine ⟨?_, fun k hk => .inr (Nat.le_of_eq (hlev d k hk)), fun k _ _ hpr => ?_, Nat.le_refl m,
      fun k hk => List.mem_append_right _ hk⟩
    · intro k hk
      obtain ⟨w, hw, hkw⟩ := List.mem_flatMap.mp hk
      obtain ⟨r, hr, rfl⟩ := List.mem_map.mp hw
      have hkw : k ∈ (g r).keys := hkw
      rw [hkeys] at hkw
      rw [List.mem_singleton.mp hkw]
      exact List.mem_map_of_mem hr
    · refine present_of_write _ (fun w hw => ?_) hpr
      obtain ⟨r, hr, rfl⟩ := List.mem_map.mp hw
      exact (h d r hr).2

theorem withSession {body : Op α} (h : Locks P strict 0 [] body fun _ _ _ => True) (hQ : ∀ r, Q r 0 []) :
    Locks P strict 0 [] (Veyaan.withSession body) Q := by
  apply orders_bind
  apply orders_attempt
  apply orders_bind
  have hback : ∀ e n L, (lockOrder P).Orders strict n L
      ((Prog.call .rollback : Op Unit).bind fun _ => raise e) Q := by
    intro e n L
    apply orders_bind
    exact orders_rollback (orders_throw (hQ _))
  refine h.mono fun r n L _ => ?_
  cases r with
  | error e => exact hback e n L
  | ok a =>
    apply orders_bind
    apply orders_commit
    · exact hback _ n L
    · exact orders_ret (orders_ret (hQ _))

theorem seq {p : Op α} {f : α → Op β} (hp : Locks P strict n L p (Upto m M))
    (hf : ∀ a, Locks P strict m M (f a) fun _ _ _ => True) :
    Locks P strict n L (p.bind f) fun _ _ _ => True := orders_seq hp hf fun _ _ _ _ _ => trivial

theorem still {p : Op α} {f : α → Op β} (hp : Locks P strict n L p (Upto m L))
    (hf : ∀ a, Locks P strict m L (f a) (Upto m L)) :
    Locks P strict n L (p.bind f) (Upto m L) := orders_upto hp hf (Nat.le_refl m) fun _ h => h

theorem drop {p : Op α} (h : Locks P strict 0 [] p fun _ n _ => n = 0) :
    Locks P strict 0 [] (Veyaan.drop p) fun _ n _ => n = 0 := by
  apply orders_bind
  refine h.mono fun r n L hn => ?_
  cases r with
  | ok a => exact orders_ret hn
  | error e => exact hn

theorem columnValue : Locks P strict n L (Veyaan.columnValue P) (Upto n L) := by
  unfold Veyaan.columnValue
  split
  · exact orders_throw upto_self
  · exact orders_ret upto_self

theorem logKeywords : Locks P strict n L (Veyaan.logKeywords P) (Upto n L) := by
  unfold Veyaan.logKeywords
  split
  · exact orders_throw upto_self
  · exact orders_ret upto_self

/-! ## Single statements -/

/-- A statement about one row, which is known to be locked, or can be waited for. -/
theorem writeRow {k : Key} {f : DB → Except Err (List Write)} (hn : n ≤ m)
    (hk : k ∈ L ∨ ∀ d, n < lockLevel d k ∧ lockLevel d k ≤ m)
    (hf : ∀ d ws, f d = .ok ws → ∀ w ∈ ws, w.keys = [k] ∧ w.old d) :
    Locks P strict n L (Veyaan.execute [k] f) (Upto m L) := by
  apply execute (m := m)
  · exact fun _ => ⟨hn, fun _ h => h⟩
  · intro d
    rcases hk with hk | hk
    · refine Over.known fun k' hk' => ?_
      rw [List.mem_singleton.mp hk']
      exact hk
    · refine Over.of_lt fun k' hk' => ?_
      rw [List.mem_singleton.mp hk']
      exact (hk d).1
  · exact hn
  · intro d ws hd w hw
    obtain ⟨hkeys, hold⟩ := hf d ws hd w hw
    rw [hkeys]
    exact ⟨fun _ h => h, hold⟩
  · intro d ws _ k' hk'
    rw [List.mem_singleton.mp hk']
    exact hk.imp_right fun hk => (hk d).2
  · exact fun _ => ⟨Nat.le_refl m, fun k hk => List.mem_append_right _ hk⟩

theorem append {f : DB → Except Err (List Write)} (hf : ∀ d ws, f d = .ok ws → ∀ w ∈ ws, w.keys = [] ∧ w.old d) :
    Locks P strict n L (Veyaan.execute [] f) (Upto n L) := by
  apply execute (fun _ => upto_self) (fun _ _ hk => absurd hk List.not_mem_nil) (Nat.le_refl n)
  · intro d ws hd w hw
    obtain ⟨hk, hold⟩ := hf d ws hd w hw
    rw [hk]
    exact ⟨nofun, hold⟩
  · exact fun _ _ _ => nofun
  · exact fun _ => upto_self

theorem insertEvent {e : CommandStateEvent} :
    Locks P strict n L (Veyaan.execute [] (Veyaan.insertEvent e)) (Upto n L) := by
  apply append
  intro d ws hf w hw
  unfold Veyaan.insertEvent at hf
  split at hf <;> cases hf
  rw [List.mem_singleton.mp hw]
  exact ⟨rfl, trivial⟩

theorem insertAudit {a : AuditLog} : Locks P strict n L (Veyaan.execute [] (Veyaan.insertAudit a)) (Upto n L) := by
  apply append
  intro d ws hf w hw
  obtain ⟨-, -, rfl⟩ := insertAudit_ok.mp hf
  rw [List.mem_singleton.mp hw]
  exact ⟨rfl, trivial⟩

/-- A row is inserted under an identifier that has just been drawn: nobody else can name it,
and it is not there yet. -/
theorem insertNew {ks : List Key} {f : DB → Except Err (List Write)} {k : Key} {id : UUID}
    {F : List UUID} {H : List (Key × Nat)}
    {Q : Except Err Nat → List UUID → List (Key × Nat) → Prop} (hid : k.rowId = some id) (hk : k ∈ ks)
    (hF : id ∈ F) (ht : Top n H)
    (hlev : ∀ d, ¬ d.present k → ∀ k' ∈ ks, n < lockLevel d k' ∧ lockLevel d k' ≤ m) (hn : n ≤ m)
    (hf : ∀ d ws, f d = .ok ws → ∃ w, ws = [w] ∧ w.keys = [k])
    (hQ : ∀ r F' H', Top m H' → (∀ k ∈ H.map Prod.fst, k ∈ H'.map Prod.fst) → Q r F' H') :
    (lockOrder P).meets strict (.stmt (fun _ => ks) f) Q F H := by
  have hstay : ∀ r F', Q r F' H := fun r F' => hQ r F' H (ht.mono hn) fun _ h => h
  refine ⟨hstay _ F, fun d hd => ?_⟩
  have hnew := hlev d (hd id hF k hid)
  have habove : (lockOrder P).Above strict H d ks :=
    Over.above (L := []) (Over.of_lt fun k' hk' => (hnew k' hk').1) ht nofun
  refine ⟨habove, ?_⟩
  cases hw : f d with
  | error e => exact hstay _ F
  | ok ws =>
    obtain ⟨w, rfl, hkeys⟩ := hf d ws hw
    have hall : ∀ k' ∈ ks ++ [w].flatMap (sys P).keys, k' ∈ ks := by
      intro k' hk'
      rcases List.mem_append.mp hk' with hk' | hk'
      · exact hk'
      · obtain ⟨v, hv, hkv⟩ := List.mem_flatMap.mp hk'
        rw [List.mem_singleton.mp hv] at hkv
        have hkv : k' ∈ w.keys := hkv
        rw [hkeys] at hkv
        rw [List.mem_singleton.mp hkv]
        exact hk
    refine ⟨fun k' hk' => habove k' (hall k' hk'), F.filter (· ≠ id),
      ⟨fun _ h => (List.mem_filter.mp h).1, fun k' i hi hpr => ?_⟩, ?_⟩
    · have hpr : (w.apply d).present k' := hpr
      refine (present_of_insert hpr).imp_right fun hk' => ?_
      rw [hkeys] at hk'
      rw [List.mem_singleton.mp hk'] at hi
      have hi : id = i := Option.some.inj (hid.symm.trans hi)
      subst hi
      exact ⟨hF, fun h => by simpa using (List.mem_filter.mp h).2⟩
    · refine hQ _ _ _ (ht.hold hn fun k' hk' => .inr (hnew k' (hall k' hk')).2)
        fun k' hk' => mem_hold.mpr (.inr hk')

theorem lockForMessage {kind : Lifecycle} {p : LifecyclePayload} {id : UUID}
    {Q : Except Err (Option Command) → Nat → List Key → Prop}
    (hE : Q (.error .db) 0 []) (hnone : Q (.ok none) 0 [])
    (hsome : ∀ c, c.id = id → Q (.ok (some c)) 5 [.command c.id]) :
    Locks P strict 0 [] (Veyaan.lockForMessage kind p id) Q := by
  apply selectForUpdate (m := 5) hE
  · exact fun d _ _ => Over.of_lt fun k _ => lockLevel_pos d k
  · exact hnone
  · decide
  · intro d c hc
    exact ⟨Nat.le_refl 5, hsome c (Table.key_of_find hc)⟩

theorem updateTask {id : UUID} {f : Task → Task} (hk : .task id ∈ L ∨ n < 6) :
    Locks P strict n L (Veyaan.execute [.task id] (Veyaan.updateTask id f)) (Upto (max n 6) L) := by
  apply writeRow (Nat.le_max_left ..) (hk.imp_right fun hk _ => ⟨hk, Nat.le_max_right ..⟩)
  intro d ws hf w hw
  unfold Veyaan.updateTask at hf
  split at hf
  · cases hf
  · rename_i t ht
    split at hf <;> cases hf
    have hid : t.commandId = id := Table.key_of_find ht
    rw [List.mem_singleton.mp hw]
    exact ⟨by simp [Write.keys, hid], trivial⟩

/-- The row of a new event comes after all others. -/
theorem addEvent {et : EventType} {ty : AggregateType} {id : UUID} {msg : Msg} (hn : n < 10) :
    Locks P strict n L (Veyaan.addEvent et ty id msg) (Upto 10 L) := by
  intro F H ht hL
  have hend : ∀ (r : Except Err Unit) H', Top 10 H' → (∀ k ∈ H.map Prod.fst, k ∈ H'.map Prod.fst) →
    ∃ n' L', Upto 10 L r n' L' ∧
      Top n' H' ∧ ∀ k ∈ L', k ∈ H'.map Prod.fst :=
        fun _ _ ht' hH => ⟨10, L, upto_self, ht', fun k hk => hH k (hL k hk)⟩
  have hstay : ∀ r, ∃ n' L', Upto 10 L r n' L' ∧ Top n' H ∧ ∀ k ∈ L', k ∈ H.map Prod.fst :=
    fun r => hend r H (ht.mono (Nat.le_of_lt hn)) fun _ h => h
  refine ⟨fun _ => hstay _, fun eid => ⟨fun _ => hstay _, fun now => ?_⟩⟩
  apply insertNew (k := .outbox eid) (m := 10) rfl (List.mem_singleton_self _) (List.mem_cons_self ..) ht
  · intro d hd k hk
    have hlev : lockLevel d k = 10 := by
      rw [List.mem_singleton.mp hk]
      exact if_neg hd
    rw [hlev]
    exact ⟨hn, Nat.le_refl _⟩
  · exact Nat.le_of_lt hn
  · intro d ws hf
    unfold insertOutbox at hf
    split at hf
    · cases hf
    · split at hf <;> cases hf
      exact ⟨_, rfl, rfl⟩
  · intro r F' H' ht' hH
    cases r with
    | error e => exact hend _ H' ht' hH
    | ok k => exact ⟨hend _ H' ht' hH, fun _ => hend _ H' ht' hH⟩

/-- The row of a new approval comes after the command and its task. -/
theorem createApproval {commandId ownerId : UUID} {risk : RiskLevel} {title descr : String}
    {mins : Nat} (hn : n < 7) :
    Locks P strict n L (Veyaan.createApproval P commandId ownerId risk title descr mins) (Upto 7 L) := by
  intro F H ht hL
  have hend : ∀ (r : Except Err (Approval × String)) H', Top 7 H' → (∀ k ∈ H.map Prod.fst, k ∈ H'.map Prod.fst) →
      ∃ n' L', Upto 7 L r n' L' ∧ Top n' H' ∧ ∀ k ∈ L', k ∈ H'.map Prod.fst :=
    fun _ _ ht' hH => ⟨7, L, upto_self, ht', fun k hk => hH k (hL k hk)⟩
  have hstay : ∀ r, ∃ n' L', Upto 7 L r n' L' ∧ Top n' H ∧ ∀ k ∈ L', k ∈ H.map Prod.fst :=
    fun r => hend r H (ht.mono (Nat.le_of_lt hn)) fun _ h => h
  refine ⟨fun _ => hstay _, fun nonce => ⟨fun _ => hstay _, fun now => ⟨fun _ => hstay _, fun aid => ?_⟩⟩⟩
  apply insertNew (k := .approval aid) (m := 7) rfl (List.mem_cons_self ..) (List.mem_cons_self ..) ht
  · intro d hd k hk
    have hlev : lockLevel d k = 7 := by
      rcases List.mem_cons.mp hk with rfl | hk
      · exact if_neg hd
      · rw [List.mem_singleton.mp hk]
        rfl
    rw [hlev]
    exact ⟨hn, Nat.le_refl _⟩
  · exact Nat.le_of_lt hn
  · intro d ws hf
    obtain ⟨-, -, -, rfl⟩ := insertApproval_ok.mp hf
    exact ⟨_, rfl, rfl⟩
  · intro r F' H' ht' hH
    cases r with
    | error e => exact hend _ H' ht' hH
    | ok k => exact ⟨hend _ H' ht' hH, fun _ => hend _ H' ht' hH⟩

theorem isActive {site : Site} {ownerId : UUID} : Locks P strict n L (Veyaan.isActive site ownerId) (Upto n L) := by
  apply still (effect fun _ => upto_self)
  intro v
  split
  · exact orders_ret upto_self
  · exact orders_ret upto_self
  · apply still (orders_fresh fun _ => upto_self)
    intro stop
    split
    · split
      · exact still (effect fun _ => upto_self) fun _ => orders_ret upto_self
      · exact orders_ret upto_self
    · exact orders_ret upto_self

structure Moves (n m : Nat) (L : List Key) (id : UUID) (r : Except Err (Option Command)) (n' : Nat)
    (L' : List Key) : Prop where
  upto : n' ≤ m
  keeps : ∀ k ∈ L, k ∈ L'
  absent : r = .ok none → n' ≤ n
  locked : ∀ c, r = .ok (some c) → c.id = id ∧ .command id ∈ L'

theorem Moves.error {id : UUID} {e : Err} (hn : n ≤ m) (hL : ∀ k ∈ L, k ∈ M) : Moves n' m L id (.error e) n M where
  upto := hn
  keeps := hL
  absent h := by cases h
  locked _ h := by cases h

theorem transitionCommand {loaded : Option Command} {id : UUID} {new : CommandState}
    {source : Source} {md : Option Metadata}
    (hover : ∀ d, (lockOrder P).Over strict n L d [.command id]) (hn : n ≤ m) (hm : 5 ≤ m)
    (hl : ∀ c ∈ loaded, c.id = id) :
    Locks P strict n L (Veyaan.transitionCommand loaded id new source md) (Moves n m L id) := by
  apply orders_bind
  apply selectForUpdate (m := m)
  · exact Moves.error hn fun _ h => h
  · intro d row hrow k hk
    have hid : row.id = id := Table.key_of_find hrow
    rw [hid] at hk
    exact hover d k hk
  · exact orders_ret ⟨hn, fun _ h => h, fun _ => Nat.le_refl n, fun _ h => by cases h⟩
  · exact hn
  · intro d row hrow
    have hid : row.id = id := Table.key_of_find hrow
    refine ⟨hm, ?_⟩
    rw [hid]
    have hcommand : (loaded.getD row).id = id := by
      cases loaded with
      | none => exact hid
      | some c => exact hl c rfl
    have hkeep : ∀ k ∈ L, k ∈ .command id :: L := fun k hk => List.mem_cons_of_mem _ hk
    have hE : ∀ e n' L', n' ≤ m → (∀ k ∈ Key.command id :: L, k ∈ L') → Moves n m L id (.error e) n' L' :=
      fun e n' L' hn' hL' => Moves.error hn' fun k hk => hL' k (hkeep k hk)
    simp only
    by_cases ha : accepts (loaded.getD row).state new = true
    · rw [if_pos ha]
      apply orders_seq (effect fun _ => upto_self) _ hE
      intro u
      apply orders_seq (effect fun _ => upto_self) _ hE
      intro now
      apply orders_seq _ _ hE
      · apply execute (m := m) (fun _ => upto_self) (fun _ => Over.known fun k hk => ?_) (Nat.le_refl m)
        · intro d' ws hf w hw
          obtain ⟨row', hrow', rfl⟩ := updateCommand_row hf
          rw [List.mem_singleton.mp hw]
          have hid' : row'.id = (loaded.getD row).id := Table.key_of_find hrow'
          have hs := (loaded.getD row).flushed_same new u now md row'
          refine ⟨fun k hk => ?_, trivial⟩
          rw [List.mem_singleton.mp hk, hs.id, hid', hcommand]
          exact List.mem_singleton_self _
        · intro d' ws _ k hk
          rw [List.mem_singleton.mp hk]
          exact .inr hm
        · exact fun _ => ⟨Nat.le_refl m, fun k hk => List.mem_append_right _ hk⟩
        · rw [List.mem_singleton.mp hk]
          exact List.mem_cons_self ..
      intro _
      apply orders_seq insertEvent _ hE
      intro _
      refine orders_ret ⟨Nat.le_refl m, hkeep, fun h => (by cases h), fun c hc => ?_⟩
      cases hc
      have hs := (loaded.getD row).transition_same new u now md
      rw [hs.id]
      exact ⟨hcommand, List.mem_cons_self ..⟩
    · rw [if_neg ha]
      exact orders_throw (Moves.error (Nat.le_refl m) hkeep)

theorem move {loaded : Option Command} {id : UUID} {new : CommandState} {source : Source} {md : Option Metadata}
    {f : Option Command → Op α} (hk : .command id ∈ L) (hn : 5 ≤ n) (hl : ∀ c ∈ loaded, c.id = id)
    (hf : ∀ c : Option Command, (∀ x ∈ c, x.id = id) → Locks P strict n L (f c) Q)
    (hE : ∀ e n' L', n' ≤ n → (∀ k ∈ L, k ∈ L') → Q (.error e) n' L') :
    Locks P strict n L ((Veyaan.transitionCommand loaded id new source md).bind f) Q := by
  have hover : ∀ d, (lockOrder P).Over strict n L d [.command id] := by
    refine fun d => Over.known fun k hk' => ?_
    rw [List.mem_singleton.mp hk']
    exact hk
  refine orders_bind ((transitionCommand hover (Nat.le_refl n) hn hl).mono fun r n' L' hr => ?_)
  cases r with
  | error e => exact hE e n' L' hr.upto hr.keeps
  | ok c =>
    refine (hf c fun x hx => ?_).weaken hr.upto hr.keeps
    cases hx
    exact (hr.locked x rfl).1

end Locks

end Veyaan
