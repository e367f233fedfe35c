import Veyaan.Invariants

/-!
# From programs to the protocol

Every program of the system only makes steps of the protocol. This module has
the rules for what all of them are made of: the calls to the outside,
`is_active`, `transition_command`, the outbox and the session around a method.
-/

open Relation (ReflTransGen)

namespace Veyaan

open Sys

abbrev wps (P : Params) (i : Nat) {α : Type} (p : Op α) (Q : Except Err α → Wd → Prop) (w : Wd) : Prop :=
  (sys P).wp (Act P) i p Q w

abbrev Holds (P : Params) (i : Nat) (w : Wd) (L : List (Key × Row)) (ws : List Write) : Prop :=
  (sys P).Held i w L ws

abbrev After (P : Params) (i : Nat) (vs : List Ev) (w w' : Wd) : Prop := Since (Act P) i vs w w'

@[simp] theorem sys_apply (P : Params) (w : Write) (d : DB) : (sys P).apply w d = w.apply d := rfl

abbrev Real (P : Params) (w : Wd) : Prop := Reach (Act P) Init w.sh

section
variable {P : Params} {i : Nat} {w w' : Wd} {vs : List Ev}

theorem After.real (h : After P i vs w w') (hr : Real P w) : Real P w' := by
  obtain ⟨d, x, hi, hg⟩ := hr
  exact ⟨d, x, hi, hg.trans h.shared⟩

theorem After.later (h : After P i vs w w') : Later w.sh w'.sh := acts_later h.shared

theorem Real.inv (h : Real P w) : Inv P w.sh := reach_inv h

theorem say_act {s s' : St} {v : Ev} (hv : SayOk P s i v) (h : s' = s.say i [v]) : ReflTransGen (Act P) s s' := by
  rw [h]; exact .single (.say hv)

end

section
variable {P : Params} {i : Nat} {w : Wd} {L : List (Key × Row)} {ws : List Write}
variable {α : Type} {Q : Except Err α → Wd → Prop}

theorem wps_columnValue {f : Unit → Op α} (hE : Q (.error .attributeError) w) (hk : wps P i (f ()) Q w) :
    wps P i ((columnValue P).bind f) Q w := by
  unfold columnValue
  split
  · exact hE
  · exact hk

/-! ## Calls to the outside -/

theorem wps_now {f : Time → Op α} (h : Holds P i w L ws)
    (hk : ∀ w', After P i [] w w' → Holds P i w' L ws → wps P i (f w'.sh.ext.clock) Q w') :
    wps P i ((effect .now).bind f) Q w := by
  refine wp_eff h fun w' w'' ch hs _ hsh h' => ?_
  have : w''.sh = w'.sh := by rw [hsh]; simp [sys, Eff.handle, Shared.say]
  rw [this]
  have hk := hk w'' (hs.of_sh this) h'
  rw [this] at hk
  exact ⟨.refl, hk⟩

theorem wps_uuid4 {f : UUID → Op α} (h : Holds P i w L ws)
    (hk : ∀ w' id, After P i [] w w' → Holds P i w' L ws → wps P i (f id) Q w') :
    wps P i ((effect .uuid4).bind f) Q w := by
  refine wp_eff h fun w' w'' ch hs _ hsh h' => ?_
  have hsh : w''.sh = { w'.sh with ext.nextId := w'.sh.ext.nextId + 1 } := by
    rw [hsh]; simp [sys, Eff.handle, Shared.say]
  have hg : ReflTransGen (Act P) w'.sh w''.sh := by
    rw [hsh]; exact .single (.env (.nextId (Nat.le_succ _)))
  exact ⟨hg, hk w'' w'.sh.ext.nextId (hs.act hg (by rw [hsh]; simp)) h'⟩

theorem wps_token {f : String → Op α} (h : Holds P i w L ws)
    (hk : ∀ w' s, After P i [] w w' → Holds P i w' L ws → wps P i (f s) Q w') :
    wps P i ((effect .tokenUrlsafe).bind f) Q w := by
  refine wp_eff h fun w' w'' ch hs _ hsh h' => ?_
  have : w''.sh = w'.sh := by rw [hsh]; simp [sys, Eff.handle, Shared.say]
  rw [this]
  exact ⟨.refl, hk w'' w'.sh.ext.token (hs.of_sh this) h'⟩

theorem wps_valkey {β : Type} {e : Eff β} {vs : List Ev} {b : Ext → β} {b₀ : β} {g : Ext → Ext} {f : β → Op α}
    (h : Holds P i w L ws) (he : ∀ ch x, Eff.handle ch e x = if ch then x.ask vs (b x) g else (.ok b₀, x, []))
    (hg : ∀ s : St, ReflTransGen (Act P) s { s with ext := g s.ext })
    (hv : ∀ s : St, ReflTransGen (Act P) s (s.say i vs))
    (hE : ∀ w', After P i vs w w' → Holds P i w' L ws → Q (.error .valkey) w')
    (hk : ∀ w' y, After P i [] w w' → Holds P i w' L ws → (y = b₀ ∨ ∃ x, y = b x ∧ w'.sh.ext = g x) →
      wps P i (f y) Q w') : wps P i ((effect e).bind f) Q w := by
  refine wp_eff h fun w' w'' ch hs _ hsh h' => ?_
  have hh : (sys P).handle ch e w'.sh.ext = if ch then w'.sh.ext.ask vs (b w'.sh.ext) g
      else (.ok b₀, w'.sh.ext, []) := he ch _
  rw [hh] at hsh ⊢
  cases ch with
  | false =>
    have hsame : w''.sh = w'.sh := by rw [hsh]; simp [Shared.say]
    exact ⟨by rw [hsame], hk w'' b₀ (hs.of_sh hsame) h' (.inl rfl)⟩
  | true =>
    rw [if_pos rfl] at hsh ⊢
    rcases ask_cases w'.sh.ext vs (b w'.sh.ext) g with ha | ⟨x', hx, ha⟩
    · rw [ha] at hsh ⊢
      have hstep : ReflTransGen (Act P) w'.sh w''.sh := by
        rw [hsh]
        simpa [Shared.say] using hg w'.sh
      exact ⟨hstep, hk w'' _ (hs.act hstep (by rw [hsh]; rfl)) h' (.inr ⟨w'.sh.ext, rfl, by rw [hsh]⟩)⟩
    · rw [ha] at hsh ⊢
      have hdone : ReflTransGen (Act P) w'.sh { w'.sh with ext := x' } := by
        rcases hx with rfl | rfl
        · exact hg w'.sh
        · exact .refl
      have hstep : ReflTransGen (Act P) w'.sh w''.sh := by
        rw [hsh]
        exact hdone.trans (hv _)
      exact ⟨hstep, hE w'' (hs.act hstep (by rw [hsh]; rfl)) h'⟩

theorem wps_cacheGet {site : Site} {o : UUID} {f : Option CacheVal → Op α} (h : Holds P i w L ws)
    (hE : ∀ w', After P i [.cacheFailed (some site) o] w w' → Holds P i w' L ws → Q (.error .valkey) w')
    (hk : ∀ w' v, After P i [] w w' → Holds P i w' L ws → (v = none ∨ v = w'.sh.ext.cache o) →
      wps P i (f v) Q w') :
    wps P i ((effect (.cacheGet site o)).bind f) Q w := by
  refine wps_valkey h (fun _ _ => rfl) (fun _ => .refl) (fun _ => .single (.say trivial)) hE
    fun w' v s h' hv => hk w' v s h' ?_
  rcases hv with rfl | ⟨x, rfl, hx⟩
  · exact .inl rfl
  · rw [hx]
    exact .inr rfl

theorem wps_cacheSet {site : Option Site} {o : UUID} {t : Option Time} {n : Nat}
    {f : Unit → Op α} (h : Holds P i w L ws)
    (hE : ∀ w', After P i [.cacheFailed site o] w w' → Holds P i w' L ws → Q (.error .valkey) w')
    (hk : ∀ w', After P i [] w w' → Holds P i w' L ws → wps P i (f ()) Q w') :
    wps P i ((effect (.cacheSet site o (.dict (some true) t) n)).bind f) Q w :=
  wps_valkey h (fun _ _ => rfl) (fun _ => .single .cache) (fun _ => .single (.say trivial)) hE
    fun w' _ s h' _ => hk w' s h'

theorem wps_cacheDelete {o : UUID} {f : Unit → Op α} (h : Holds P i w L ws)
    (hE : ∀ w', After P i [.cacheFailed none o] w w' → Holds P i w' L ws → Q (.error .valkey) w')
    (hk : ∀ w', After P i [] w w' → Holds P i w' L ws → wps P i (f ()) Q w') :
    wps P i ((effect (.cacheDelete o)).bind f) Q w :=
  wps_valkey h (fun _ _ => rfl) (fun _ => .single (.env .cacheExpire)) (fun _ => .single (.say trivial)) hE
    fun w' _ s h' _ => hk w' s h'

theorem wps_setPresence {dev : UUID} {f : Unit → Op α} (h : Holds P i w L ws)
    (hE : ∀ w', After P i [] w w' → Holds P i w' L ws → Q (.error .valkey) w')
    (hk : ∀ w', After P i [] w w' → Holds P i w' L ws → wps P i (f ()) Q w') :
    wps P i ((effect (.setPresence dev)).bind f) Q w :=
  wps_valkey h (fun _ _ => rfl) (fun _ => .single .presence) (fun _ => by simpa [Shared.say] using .refl) hE
    fun w' _ s h' _ => hk w' s h'

theorem wps_say {β : Type} {e : Eff β} {b : β} {v : Ev} {f : β → Op α}
    (he : ∀ ch x, Eff.handle ch e x = (.ok b, x, [v])) (h : Holds P i w L ws)
    (hv : ∀ w', After P i [] w w' → Holds P i w' L ws → SayOk P w'.sh i v)
    (hk : ∀ w', After P i [v] w w' → Holds P i w' L ws → wps P i (f b) Q w') :
    wps P i ((effect e).bind f) Q w := by
  refine wp_eff h fun w' w'' ch hs h₁ hsh h' => ?_
  have hh : (sys P).handle ch e w'.sh.ext = (.ok b, w'.sh.ext, [v]) := he ch _
  rw [hh] at hsh ⊢
  have hg : ReflTransGen (Act P) w'.sh w''.sh := say_act (hv w' hs h₁) (by rw [hsh]; rfl)
  exact ⟨hg, hk w'' (hs.act hg (by rw [hsh]; rfl)) h'⟩

theorem wps_publishJs {m : Msg} {e : Option OutboxEvent} {f : Unit → Op α} (h : Holds P i w L ws)
    (hm : ∀ w', After P i [] w w' → Holds P i w' L ws → Publishable w'.sh i e m)
    (hfail : ∀ w', After P i [.publishFailed m e] w w' → Holds P i w' L ws → Q (.error .nats) w')
    (hk : ∀ w', After P i [.published m e] w w' → Holds P i w' L ws → wps P i (f ()) Q w') :
    wps P i ((effect (.publishJs m e)).bind f) Q w := by
  refine wp_eff h fun w' w'' ch hs h₁ hsh h' => ?_
  cases ch with
  | false =>
    have hg : ReflTransGen (Act P) w'.sh w''.sh := by
      refine say_act (v := .publishFailed m e) (fun ev he => ?_) (by rw [hsh]; rfl)
      subst he
      obtain ⟨hf, -, hp, -⟩ := (hm w' hs h₁).event
      exact ⟨hf, hp⟩
    exact ⟨hg, hfail w'' (hs.act hg (by rw [hsh]; rfl)) h'⟩
  | true =>
    have hg : ReflTransGen (Act P) w'.sh w''.sh := by
      rw [hsh]; exact .single (.publish (hm w' hs h₁))
    exact ⟨hg, hk w'' (hs.act hg (by rw [hsh]; rfl)) h'⟩

/-! ## Statements -/

theorem wps_select {β : Type} {q : DB → β} {f : β → Op α} (h : Holds P i w L ws)
    (hE : ∀ w', After P i [] w w' → (w'.sess i).failed = true → Q (.error .db) w')
    (hk : ∀ w', After P i [] w w' → Holds P i w' L ws → wps P i (f (q ((sys P).applyAll ws w'.sh.db))) Q w') :
    wps P i ((select q).bind f) Q w := wp_read h hE hk

theorem wps_execute {ks : List Key} {fn : DB → Except Err (List Write)} {f : Nat → Op α} (h : Holds P i w L ws)
    (hE : ∀ w' vs e, After P i vs w w' → (w'.sess i).failed = true → Q (.error e) w')
    (hrej : ∀ w' e, After P i [] w w' → Holds P i w' L ws → fn ((sys P).applyAll ws w'.sh.db) = .error e →
      SayOk P w'.sh i (.rejected e))
    (hk : ∀ w' us, After P i [] w w' → fn ((sys P).applyAll ws w'.sh.db) = .ok us →
      Holds P i w' (ks.map (fun k => (k, w'.sh.db.row k)) ++ L) (ws ++ us) → wps P i (f us.length) Q w') :
    wps P i ((execute ks fn).bind f) Q w := by
  refine wp_stmt h (fun w' => hE w' [] .db) (fun w' w'' e hs h' hfn hsh => ?_) fun w' us hs hfn h' hks _ => ?_
  · have hg : ReflTransGen (Act P) w'.sh w''.sh := say_act (hrej w' e hs h' hfn) hsh
    refine ⟨hg, hE w'' [.rejected e] e (hs.act hg ?_)⟩
    rw [hsh]; rfl
  · exact hk w' us hs hfn (h'.lock hks)

theorem wps_put {ks : List Key} {fn : DB → Except Err (List Write)} {us : List Write} {f : Nat → Op α}
    (hfn : ∀ d, fn d = .ok us ∨ fn d = .error .data ∨ fn d = .error .integrity) (h : Holds P i w L ws)
    (hE : ∀ w' vs e, After P i vs w w' → (w'.sess i).failed = true → Q (.error e) w')
    (hk : ∀ w', After P i [] w w' → Holds P i w' L (ws ++ us) → wps P i (f us.length) Q w') :
    wps P i ((execute ks fn).bind f) Q w := by
  refine wps_execute h hE (fun w' e _ _ he => ?_) fun w' vs hs he h' => ?_
  · rcases hfn ((sys P).applyAll ws w'.sh.db) with hf | hf | hf <;> rw [hf] at he <;> cases he
    · trivial
    · trivial
  · rcases hfn ((sys P).applyAll ws w'.sh.db) with hf | hf | hf <;> rw [hf] at he <;> cases he
    exact hk w' hs (h'.mono fun p hp => List.mem_append_right _ hp)

theorem wps_selectForUpdate {ρ : Type} {sel : DB → Option ρ} {key : ρ → Key} {f : Option ρ → Op α}
    (h : Holds P i w L ws) (hE : ∀ w', After P i [] w w' → (w'.sess i).failed = true → Q (.error .db) w')
    (hnone : ∀ w', After P i [] w w' → Holds P i w' L ws → sel ((sys P).applyAll ws w'.sh.db) = none →
      wps P i (f none) Q w')
    (hsome : ∀ w' r, After P i [] w w' → sel ((sys P).applyAll ws w'.sh.db) = some r →
      Holds P i w' ((key r, w'.sh.db.row (key r)) :: L) ws → wps P i (f (some r)) Q w') :
    wps P i ((selectForUpdate sel key).bind f) Q w := by
  unfold selectForUpdate
  simp only [Prog.bind_eq, Prog.pure_eq, Prog.bind_assoc, Prog.ret_bind]
  refine wp_forUpdate h hE fun w' hs h' hl => ?_
  cases hsel : sel ((sys P).applyAll ws w'.sh.db) with
  | none => exact hnone w' hs h' hsel
  | some r => exact hsome w' r hs hsel (h'.cons (hl r (by simp [hsel])))

theorem wps_selectForUpdateAs {ρ : Type} {sel : DB → Option ρ} {key : ρ → Key} {l : Label} {f : Option ρ → Op α}
    (h : Holds P i w L ws) (hl : ∀ s : St, SayOk P s i (l.see true s.db s.ext))
    (hE : ∀ w', After P i [] w w' → (w'.sess i).failed = true → Q (.error .db) w')
    (hnone : ∀ w', After P i [l.see true w'.sh.db w'.sh.ext] w w' → Holds P i w' L ws →
      sel ((sys P).applyAll ws w'.sh.db) = none → wps P i (f none) Q w')
    (hsome : ∀ w' r, After P i [l.see true w'.sh.db w'.sh.ext] w w' → sel ((sys P).applyAll ws w'.sh.db) = some r →
      Holds P i w' ((key r, w'.sh.db.row (key r)) :: L) ws → wps P i (f (some r)) Q w') :
    wps P i ((selectForUpdate sel key (some l)).bind f) Q w := by
  unfold selectForUpdate
  simp only [Prog.bind_eq, Prog.pure_eq, Prog.bind_assoc, Prog.ret_bind]
  refine wp_forUpdateAs h hE fun w₁ w₂ s₁ hsh h₂ hk => ?_
  have hdb : w₁.sh.db = w₂.sh.db := by rw [hsh]; rfl
  have hext : w₁.sh.ext = w₂.sh.ext := by rw [hsh]; rfl
  have hg : ReflTransGen (Act P) w₁.sh w₂.sh := say_act (hl w₁.sh) hsh
  have s₂ : After P i [l.see true w₂.sh.db w₂.sh.ext] w w₂ := s₁.act hg (by rw [← hdb, ← hext, hsh]; rfl)
  refine ⟨hg, ?_⟩
  rw [hdb] at hk ⊢
  cases hsel : sel ((sys P).applyAll ws w₂.sh.db) with
  | none => exact hnone w₂ s₂ h₂ hsel
  | some r => exact hsome w₂ r s₂ hsel (h₂.cons (hk r (by simp [hsel])))

@[simp] theorem sayOk_rejected {s : St} {e : Err} (h : ∀ v, e ≠ .trigger v) : SayOk P s i (.rejected e) := by
  cases e with
  | trigger v => exact absurd rfl (h v)
  | _ => trivial

/-! ## `is_active` -/

/-- What `is_active` leaves in the trace when it raises. -/
def FailedCheck (site : Site) (o : UUID) (vs : List Ev) : Prop :=
  vs = [.stopRead site o none] ∨ vs = [.cacheFailed (some site) o] ∨
    vs = [.stopRead site o (some true), .cacheFailed (some site) o]

/-- `is_active` answers `False` only when it has read in the database that the
stop is not active. -/
theorem wps_isActive {site : Site} {o : UUID} {f : Bool → Op α} (hr : Real P w) (h : Holds P i w L ws)
    (hE : ∀ w' vs e, FailedCheck site o vs → After P i vs w w' → Holds P i w' L ws → Q (.error e) w')
    (hT : ∀ w' vs, After P i vs w w' → vs = [] ∨ vs = [.stopRead site o (some true)] → Holds P i w' L ws →
      wps P i (f true) Q w')
    (hF : ∀ w', After P i [.stopRead site o (some false)] w w' → Holds P i w' L ws → wps P i (f false) Q w') :
    wps P i ((isActive site o).bind f) Q w := by
  refine wp_bind ?_
  unfold isActive
  refine wps_cacheGet h (fun w₁ s₁ h₁ => hE w₁ _ _ (.inr (.inl rfl)) s₁ h₁) fun w₁ v s₁ h₁ hv => ?_
  have hv : v = none ∨ ∃ t, v = some (.dict (some true) t) := by
    rcases hv with rfl | rfl
    · exact .inl rfl
    · cases hc : w₁.sh.ext.cache o with
      | none => exact .inl rfl
      | some v =>
        obtain ⟨t, rfl⟩ := (Real.inv (After.real s₁ hr)).cache o v hc
        exact .inr ⟨t, rfl⟩
  rcases hv with rfl | ⟨t, rfl⟩
  · refine wp_fresh h₁ (fun w₂ w₃ s₂ hsh h₃ => ?_) fun w₂ w₃ s₂ hsh h₃ => ?_
    · have hg : ReflTransGen (Act P) w₂.sh w₃.sh :=
        say_act (v := .stopRead site o none) (by intro b hb; cases hb) hsh
      exact ⟨hg, hE w₃ _ _ (.inl rfl) (s₁.then (s₂.act hg (by rw [hsh]; rfl))) h₃⟩
    · have hg : ReflTransGen (Act P) w₂.sh w₃.sh :=
        say_act (v := .stopRead site o (some (w₂.sh.db.stopActive o))) (by intro b hb; cases hb; rfl) hsh
      have s₃ : After P i [.stopRead site o (some (w₂.sh.db.stopActive o))] w w₃ :=
        s₁.then (s₂.act hg (by rw [hsh]; rfl))
      refine ⟨hg, ?_⟩
      cases hf : w₂.sh.db.stops.find o with
      | none =>
        rw [show w₂.sh.db.stopActive o = false by simp [DB.stopActive, hf]] at s₃
        exact hF w₃ s₃ h₃
      | some stop =>
        have ha : w₂.sh.db.stopActive o = stop.active := by simp [DB.stopActive, hf]
        rw [ha] at s₃
        cases hb : stop.active with
        | false => rw [hb] at s₃; simp only [hb]; exact hF w₃ s₃ h₃
        | true =>
          rw [hb] at s₃
          simp only [hb]
          refine wps_cacheSet h₃ (fun w₄ s₄ h₄ => hE w₄ _ _ (.inr (.inr rfl)) (s₃.trans s₄) h₄) fun w₄ s₄ h₄ => ?_
          exact hT w₄ _ (by simpa using s₃.trans s₄) (.inr rfl) h₄
  · exact hT w₁ [] s₁ (.inl rfl) h₁

/-! ## `transition_command` -/

def transitionWrites (loaded row : Command) (new : CommandState) (u n : Time) (source : Source)
    (m : Option Metadata) : List Write :=
  [.command (loaded.flushed new u n m row), .event ⟨loaded.id, some loaded.state, new, source, m⟩]

theorem updateCommand_cases {loaded row : Command} (new : CommandState) (u n : Time) (source : Source)
    (m : Option Metadata) {d : DB} (hf : d.commands.find loaded.id = some row) :
    (loaded.state ≠ new ∧ validateCommandStateTransition row.state new = false ∧
      updateCommand loaded new u n source m d = .error (.trigger ⟨row.id, loaded.state, row.state, new, source⟩)) ∨
    ((loaded.state = new ∨ validateCommandStateTransition row.state new = true) ∧
      (updateCommand loaded new u n source m d = .ok [.command (loaded.flushed new u n m row)] ∨
        updateCommand loaded new u n source m d = .error .data)) := by
  unfold updateCommand
  simp only [hf]
  by_cases hv : loaded.state ≠ new ∧ validateCommandStateTransition row.state new = false
  · rw [if_pos hv]; exact .inl ⟨hv.1, hv.2, rfl⟩
  · rw [if_neg hv]
    refine .inr ⟨?_, ?_⟩
    · by_cases hn : loaded.state = new
      · exact .inl hn
      · refine .inr ?_
        cases hval : validateCommandStateTransition row.state new with
        | true => rfl
        | false => exact absurd ⟨hn, hval⟩ hv
    · split
      · exact .inl rfl
      · exact .inr rfl

theorem insertEvent_cases (e : CommandStateEvent) (d : DB) :
    insertEvent e d = .ok [.event e] ∨ insertEvent e d = .error .data := by
  unfold insertEvent; split
  · exact .inl rfl
  · exact .inr rfl

/-- What the session sees of a command depends on the store only through that
command's row. -/
theorem view_command {d d' : DB} {id : UUID} (h : d'.row (.command id) = d.row (.command id)) :
    ((sys P).applyAll ws d').commands.find id = ((sys P).applyAll ws d).commands.find id := by
  have := row_congr (S := sys P) (k := .command id) ws h
  simp only [sys, DB.row, Row.command.injEq] at this
  exact this

/-- The entry that `transition_command` leaves when it has locked its row. -/
def lockEntry (loaded : Option Command) (id : UUID) (new : CommandState) (source : Source) (s : St) : Ev :=
  .locked id new source (loaded.map Command.state) (s.db.commands.find id)

theorem wps_transition {loaded : Option Command} {id : UUID} {new : CommandState} {source : Source}
    {m : Option Metadata} {f : Option Command → Op α} (h : Holds P i w L ws) (hid : ∀ c ∈ loaded, c.id = id)
    (hE : ∀ w' vs e, After P i vs w w' → (w'.sess i).failed = true → Q (.error e) w')
    (hnone : ∀ w' vs, After P i vs w w' → Holds P i w' L ws →
      ((sys P).applyAll ws w'.sh.db).commands.find id = none → wps P i (f none) Q w')
    (hbad : ∀ w' row, After P i [lockEntry loaded id new source w'.sh] w w' →
      Holds P i w' ((.command id, w'.sh.db.row (.command id)) :: L) ws →
      ((sys P).applyAll ws w'.sh.db).commands.find id = some row → accepts (loaded.getD row).state new = false →
      Q (.error (.stateTransition id (loaded.getD row).state new)) w')
    (hveto : ∀ w' vs row, After P i vs w w' → Holds P i w' ((.command id, w'.sh.db.row (.command id)) :: L) ws →
      ((sys P).applyAll ws w'.sh.db).commands.find id = some row → accepts (loaded.getD row).state new = true →
      (loaded.getD row).state ≠ new → validateCommandStateTransition row.state new = false →
      SayOk P w'.sh i (.rejected (.trigger ⟨row.id, (loaded.getD row).state, row.state, new, source⟩)))
    (hk : ∀ w' row u n, After P i [lockEntry loaded id new source w'.sh] w w' →
      ((sys P).applyAll ws w'.sh.db).commands.find id = some row →
      accepts (loaded.getD row).state new = true →
      (loaded.getD row).state = new ∨ validateCommandStateTransition row.state new = true →
      Holds P i w' ((.command id, w'.sh.db.row (.command id)) :: L)
        (ws ++ transitionWrites (loaded.getD row) row new u n source m) →
      wps P i (f (some ((loaded.getD row).transition new u n m))) Q w') :
    wps P i ((transitionCommand loaded id new source m).bind f) Q w := by
  refine wp_bind ?_
  unfold transitionCommand
  refine wps_selectForUpdateAs h (fun _ => rfl) (fun w' hs => hE w' [] .db hs) (fun w' hs => hnone w' _ hs)
    fun w₁ row s₁ hf h₁ => ?_
  have hrow : row.id = id := by simpa using Table.key_of_find hf
  have hlid : (loaded.getD row).id = id := by
    cases hl : loaded with
    | none => exact hrow
    | some c => exact hid c (by simp [hl])
  rw [hrow] at h₁
  -- the row is locked, so the session goes on seeing it
  have stay : ∀ {w' L' vs}, Holds P i w' L' vs → (Key.command id, w₁.sh.db.row (.command id)) ∈ L' →
      w'.sh.db.row (.command id) = w₁.sh.db.row (.command id) ∧
        ((sys P).applyAll ws w'.sh.db).commands.find id = some row := by
    intro w' L' vs h' hm
    have he : w'.sh.db.row (.command id) = w₁.sh.db.row (.command id) := h'.rows _ hm
    exact ⟨he, (view_command he).trans hf⟩
  dsimp only
  split
  case isFalse hacc => exact hbad w₁ row s₁ h₁ hf (by simpa using hacc)
  case isTrue hacc =>
  refine wps_now h₁ fun w₂ s₂ h₂ => wps_now h₂ fun w₃ s₃ h₃ => ?_
  have s₁₃ := s₁.trans (s₂.then s₃)
  refine wps_execute h₃ (fun w' vs e hs => hE w' _ e (s₁₃.trans hs)) (fun w₄ e s₄ h₄ hfn => ?_)
    fun w₄ us s₄ hfn h₄ => ?_
  · obtain ⟨he, hf₄⟩ := stay h₄ (List.mem_cons_self ..)
    have hf₄' := hf₄
    rw [← hlid] at hf₄'
    rcases updateCommand_cases new w₂.sh.ext.clock w₃.sh.ext.clock source m hf₄' with ⟨hne, hval, hu⟩ | ⟨-, hu | hu⟩
    · rw [hu] at hfn; cases hfn
      exact hveto w₄ _ row (s₁₃.trans s₄) (by rw [he]; exact h₄) hf₄ hacc hne hval
    · rw [hu] at hfn; cases hfn
    · rw [hu] at hfn; cases hfn; exact sayOk_rejected (by intro v hv; cases hv)
  · have h₄' : Holds P i w₄ ((.command id, w₁.sh.db.row (.command id)) :: L) (ws ++ us) :=
      h₄.mono fun p hp => List.mem_append_right _ hp
    obtain ⟨-, hf₄⟩ := stay h₄' (List.mem_cons_self ..)
    rw [← hlid] at hf₄
    rcases updateCommand_cases new w₂.sh.ext.clock w₃.sh.ext.clock source m hf₄ with ⟨-, -, hu⟩ | ⟨hval, hu | hu⟩
    · rw [hu] at hfn; cases hfn
    · rw [hu] at hfn; cases hfn
      refine wps_put (fun d => (insertEvent_cases _ d).imp_right .inl) h₄'
        (fun w' vs e hs => hE w' _ e (s₁₃.trans (s₄.then hs)))
        fun w₅ s₅ h₅ => ?_
      obtain ⟨he₅, hf₅⟩ := stay h₅ (List.mem_cons_self ..)
      have hentry : lockEntry loaded id new source w₁.sh = lockEntry loaded id new source w₅.sh := by
        simp only [DB.row, Row.command.injEq] at he₅
        rw [lockEntry, lockEntry, he₅]
      refine hk w₅ row _ _ ?_ hf₅ hacc hval ?_
      · rw [← hentry]
        exact s₁₃.trans (s₄.then s₅)
      · rw [he₅]
        simpa [transitionWrites] using h₅
    · rw [hu] at hfn; cases hfn

theorem wps_tryTransition {loaded : Option Command} {id : UUID} {new : CommandState} {source : Source}
    {m : Option Metadata} {g : Except Err (Option Command) → Op α} (h : Holds P i w L ws)
    (hid : ∀ c ∈ loaded, c.id = id)
    (hE : ∀ w' vs e, After P i vs w w' → (w'.sess i).failed = true → wps P i (g (.error e)) Q w')
    (hnone : ∀ w' vs, After P i vs w w' → Holds P i w' L ws →
      ((sys P).applyAll ws w'.sh.db).commands.find id = none → wps P i (g (.ok none)) Q w')
    (hbad : ∀ w' row, After P i [lockEntry loaded id new source w'.sh] w w' →
      Holds P i w' ((.command id, w'.sh.db.row (.command id)) :: L) ws →
      ((sys P).applyAll ws w'.sh.db).commands.find id = some row → accepts (loaded.getD row).state new = false →
      wps P i (g (.error (.stateTransition id (loaded.getD row).state new))) Q w')
    (hveto : ∀ w' vs row, After P i vs w w' → Holds P i w' ((.command id, w'.sh.db.row (.command id)) :: L) ws →
      ((sys P).applyAll ws w'.sh.db).commands.find id = some row → accepts (loaded.getD row).state new = true →
      (loaded.getD row).state ≠ new → validateCommandStateTransition row.state new = false →
      SayOk P w'.sh i (.rejected (.trigger ⟨row.id, (loaded.getD row).state, row.state, new, source⟩)))
    (hk : ∀ w' row u n, After P i [lockEntry loaded id new source w'.sh] w w' →
      ((sys P).applyAll ws w'.sh.db).commands.find id = some row →
      accepts (loaded.getD row).state new = true →
      (loaded.getD row).state = new ∨ validateCommandStateTransition row.state new = true →
      Holds P i w' ((.command id, w'.sh.db.row (.command id)) :: L)
        (ws ++ transitionWrites (loaded.getD row) row new u n source m) →
      wps P i (g (.ok (some ((loaded.getD row).transition new u n m)))) Q w') :
    wps P i ((transitionCommand loaded id new source m).attempt.bind g) Q w := by
  refine wp_bind (wp_attempt ?_)
  rw [← Prog.bind_ret (transitionCommand loaded id new source m)]
  exact wps_transition h hid hE hnone hbad hveto hk

/-! ## `add_event` -/

theorem insertOutbox_cases {e : OutboxEvent} {d : DB} {us : List Write} (h : insertOutbox e d = .ok us) :
    us = [.outbox e] ∧ d.outbox.find e.id = none := by
  unfold insertOutbox at h
  split at h
  · cases h
  · rename_i hn
    split at h <;> cases h
    exact ⟨rfl, by simpa using hn⟩

theorem insertOutbox_error {e : OutboxEvent} {d : DB} {x : Err} (h : insertOutbox e d = .error x) :
    ∀ v, x ≠ .trigger v := by
  unfold insertOutbox at h
  intro v hv
  subst hv
  split at h
  · cases h
  · split at h <;> cases h

/-- The event that `add_event` adds. -/
structure NewEvent (e : OutboxEvent) (eventType : EventType) (aggregateType : AggregateType) (aggregateId : UUID)
    (msg : Msg) : Prop where
  eventType : e.eventType = eventType
  aggregateType : e.aggregateType = aggregateType
  aggregateId : e.aggregateId = aggregateId
  msg : e.msg = msg
  status : e.status = .pending

theorem wps_addEvent {et : EventType} {at' : AggregateType} {aid : UUID} {msg : Msg} {f : Unit → Op α}
    (h : Holds P i w L ws) (hE : ∀ w' vs e, After P i vs w w' → (w'.sess i).failed = true → Q (.error e) w')
    (hk : ∀ w' e, After P i [] w w' → NewEvent e et at' aid msg →
      ((sys P).applyAll ws w'.sh.db).outbox.find e.id = none →
      Holds P i w' ((.outbox e.id, w'.sh.db.row (.outbox e.id)) :: L) (ws ++ [.outbox e]) → wps P i (f ()) Q w') :
    wps P i ((addEvent et at' aid msg).bind f) Q w := by
  refine wp_bind ?_
  unfold addEvent
  refine wps_uuid4 h fun w₁ id s₁ h₁ => wps_now h₁ fun w₂ s₂ h₂ => ?_
  have s₁₂ := s₁.then s₂
  refine wps_execute h₂ (fun w' vs e hs => hE w' vs e (s₁₂.then hs))
    (fun w₃ e s₃ h₃ hfn => sayOk_rejected (insertOutbox_error hfn)) fun w₃ us s₃ hfn h₃ => ?_
  obtain ⟨rfl, hn⟩ := insertOutbox_cases hfn
  refine wps_select h₃ (fun w' hs => hE w' [] .db (s₁₂.then (s₃.then hs))) fun w₄ s₄ h₄ => ?_
  have he : w₄.sh.db.row (.outbox id) = w₃.sh.db.row (.outbox id) :=
    h₄.rows (.outbox id, w₃.sh.db.row (.outbox id)) (by simp)
  refine hk w₄ ⟨id, at', aid, et, msg, .pending, w₂.sh.ext.clock, 0, none⟩ (s₁₂.then (s₃.then s₄))
    ⟨rfl, rfl, rfl, rfl, rfl⟩ ?_ (by simpa [he] using h₄)
  have := row_congr (S := sys P) (k := .outbox id) ws he
  simp only [sys, DB.row, Row.outbox.injEq] at this
  exact Eq.trans this hn

/-! ## Commits -/

theorem wps_commit {t : Tag} {f : Unit → Op α} (h : Holds P i w L ws)
    (hE : ∀ w' vs e, After P i vs w w' → (w'.sess i).failed = true → Q (.error e) w')
    (htx : ∀ w', After P i [] w w' → Holds P i w' L ws → Tx P w'.sh i t ((sys P).applyAll ws w'.sh.db))
    (hk : ∀ w', After P i [.committed t] w w' → Holds P i w' [] [] → wps P i (f ()) Q w') :
    wps P i ((commit t).bind f) Q w := by
  refine wp_commitAs h (fun w' hs => hE w' [] .db hs) fun w₁ w₂ hs h₁ hsh h₂ => ?_
  have hg : ReflTransGen (Act P) w₁.sh w₂.sh := by
    rw [hsh]; exact .single (.commit (htx w₁ hs h₁))
  exact ⟨hg, hk w₂ (hs.act hg (by rw [hsh]; rfl)) h₂⟩

abbrev Rdy (P : Params) (t : Tag) (i : Nat) (w : Wd) (L : List (Key × Row)) (ws : List Write) : Prop :=
  (sys P).Ready (Act P) (Write.Allowed i t) i w L ws

theorem wps_commitChain {t : Tag} {f : Unit → Op α} (h : Rdy P t i w L ws)
    (hE : ∀ w' vs e, After P i vs w w' → (w'.sess i).failed = true → Q (.error e) w')
    (hc : ∀ w', After P i [] w w' → Holds P i w' L ws → t.Closes P w'.sh i ((sys P).applyAll ws w'.sh.db))
    (hk : ∀ w', After P i [.committed t] w w' → Holds P i w' [] [] → wps P i (f ()) Q w') :
    wps P i ((commit t).bind f) Q w :=
  wps_commit h.toHeld hE (fun w' hs h' => .chain (h.since hs.shared h').now (hc w' hs h')) hk

theorem wps_updateAll {t : Tag} {ρ : Type} {k : ρ → Key} {sel : DB → List ρ} {g : ρ → Write} {f : Nat → Op α}
    (h : Rdy P t i w L ws) (hg : ∀ r, (g r).keys = [k r]) (hn : ∀ d, ((sel d).map k).Nodup)
    (hM : ∀ s d d' r, r ∈ sel d → d'.row (k r) = d.row (k r) → (g r).Allowed i t s d')
    (hE : ∀ w', After P i [] w w' → (w'.sess i).failed = true → Q (.error .db) w')
    (hk : ∀ w' L' (rs : List ρ) n, After P i [] w w' → Rdy P t i w' L' (ws ++ rs.map g) → wps P i (f n) Q w') :
    wps P i ((Prog.call (.stmt (fun d => (sel d).map k) fun d => .ok ((sel d).map g))).bind f) Q w := by
  refine wp_stmt h.toHeld hE (fun _ _ _ _ _ hfn => by cases hfn) fun w₁ us s₁ hfn h₁ hks _ => ?_
  cases hfn
  refine hk w₁ _ _ _ s₁ ⟨h₁.lock hks, fun s hs hL =>
    chain_append.mpr ⟨?_, chain_map hg (hn _) fun r hr d' hd => ?_⟩⟩
  · exact h.chain s (s₁.shared.trans hs) fun p hp => hL p (List.mem_append_right _ hp)
  · refine hM s _ d' r hr (hd.trans (row_congr (S := sys P) ws ?_))
    exact hL _ (List.mem_append_left _ (List.mem_map_of_mem (List.mem_map_of_mem hr)))

theorem Rdy.later {t : Tag} (h : Rdy P t i w L ws) : w.sh.db.Later ((sys P).applyAll ws w.sh.db) :=
  h.now.keeps (fun _ _ hw hl => hl.trans hw.later) (.refl _)

theorem Rdy.live {t : Tag} (h : Rdy P t i w L ws) (hr : Real P w) {id : UUID} {c : Command}
    (hc : ((sys P).applyAll ws w.sh.db).commands.find id = some c) :
    c.state ≠ .received ∧ c.state ≠ .validated ∧ c.state ≠ .approved := by
  have hi := Chain.keeps (I := fun d => DBInv d fun id => w.sh.trace.countP (granted id))
    (fun d v hv hd => Write.Allowed.inv hv hd) h.now (Real.inv hr).db
  exact hi.live id c hc

theorem transition_chain {s : St} {d : DB} {t : Tag} {loaded row : Command} {new : CommandState} {u n : Time}
    {source : Source} {m : Option Metadata} (hf : d.commands.find loaded.id = some row)
    (hl : Locked s i loaded new source) (ht : t.Touches loaded.id)
    (hm : loaded.state = new ∨ t.Moves loaded.id new ∧ validateCommandStateTransition row.state new = true)
    (hd : (m.bind Metadata.dedupKey).isSome → loaded = row ∧ t.Moves loaded.id new) :
    (sys P).Chain (Write.Allowed i t s) d (transitionWrites loaded row new u n source m) := by
  refine ⟨.command hf hl ht hm, .event hl ht fun hdk => ?_, trivial⟩
  obtain ⟨rfl, hmv⟩ := hd hdk
  refine ⟨loaded.flushed new u n m loaded, ?_, ?_⟩
  · simp [Write.apply, Table.find_put, (loaded.flushed_same new u n m loaded).id]
  · rw [Command.flushed_self, Command.transition_state]
    exact ⟨hmv.ne.2.2.2.1, hmv.ne.2.2.2.2⟩

structure LockedAt (w : Wd) (i : Nat) (loaded : Option Command) (l : Command)
    (new : CommandState) (source : Source) : Prop where
  entry : (i, lockEntry loaded l.id new source w.sh) ∈ w.sh.trace
  row : ∃ c, w.sh.db.commands.find l.id = some c ∧ l.state = (loaded.map Command.state).getD c.state
  accepts : accepts l.state new = true

theorem LockedAt.of_after {w' : Wd} {loaded : Option Command} {l : Command} {new : CommandState} {source : Source}
    (hs : After P i [lockEntry loaded l.id new source w'.sh] w w')
    (hrow : ∃ c, w'.sh.db.commands.find l.id = some c ∧ l.state = (loaded.map Command.state).getD c.state)
    (hacc : Veyaan.accepts l.state new = true) : LockedAt w' i loaded l new source :=
  ⟨by rw [← mem_own, hs.trace]; simp, hrow, hacc⟩

theorem LockedAt.locked {loaded : Option Command} {l : Command} {new : CommandState} {source : Source} {s : St}
    (h : LockedAt w i loaded l new source) (hl : Later w.sh s)
    (he : s.db.row (.command l.id) = w.sh.db.row (.command l.id)) : Locked s i l new source := by
  obtain ⟨c, hc, hs⟩ := h.row
  have hentry := hl.trace.subset h.entry
  simp only [DB.row, Row.command.injEq] at he
  rw [lockEntry, hc] at hentry
  exact ⟨_, c, hentry, he.trans hc, hs, h.accepts⟩

theorem Rdy.transition {t : Tag} {w' : Wd} {ld : Option Command} {loaded row : Command}
    {new : CommandState} {u n : Time}
    {source : Source} {m : Option Metadata} (h : Rdy P t i w L ws) (hs : ReflTransGen (Act P) w.sh w'.sh)
    (hf : ((sys P).applyAll ws w'.sh.db).commands.find loaded.id = some row)
    (hl : LockedAt w' i ld loaded new source)
    (h' : Holds P i w' ((.command loaded.id, w'.sh.db.row (.command loaded.id)) :: L)
      (ws ++ transitionWrites loaded row new u n source m))
    (ht : t.Touches loaded.id)
    (hm : loaded.state = new ∨ t.Moves loaded.id new ∧ validateCommandStateTransition row.state new = true)
    (hd : (m.bind Metadata.dedupKey).isSome → loaded = row ∧ t.Moves loaded.id new) :
    Rdy P t i w' ((.command loaded.id, w'.sh.db.row (.command loaded.id)) :: L)
      (ws ++ transitionWrites loaded row new u n source m) := by
  refine ⟨h', fun s hg hL => chain_append.mpr ⟨?_, ?_⟩⟩
  · exact h.chain s (hs.trans hg) fun p hp => hL p (List.mem_cons_of_mem _ hp)
  · have he : s.db.row (.command loaded.id) = w'.sh.db.row (.command loaded.id) := hL _ (List.mem_cons_self ..)
    exact transition_chain ((view_command he).trans hf) (hl.locked (acts_later hg) he) ht hm hd

/-! ## Sessions -/

def Done (P : Params) (i : Nat) {β : Type} (r : Except Err β) (w : Wd) : Prop :=
  ∀ b, r = .ok b → (∃ L, Holds P i w L []) ∨ (w.sess i).failed = true

@[simp] theorem done_error {β : Type} {e : Err} : Done P i (.error e : Except Err β) w := by
  intro b hb; cases hb

theorem done_ok {β : Type} {b : β} (h : Holds P i w L []) : Done P i (.ok b) w := fun _ _ => .inl ⟨L, h⟩

theorem done_failed {β : Type} {r : Except Err β} (h : (w.sess i).failed = true) : Done P i r w := fun _ _ => .inr h

theorem wps_withSession {body : Op α} (hb : wps P i body (Done P i) w) :
    wps P i (withSession body) (fun _ w' => Holds P i w' [] []) w := by
  have hroll : ∀ (w' : Wd) (e : Err), wps P i ((Prog.call Prim.rollback).bind fun _ => (raise e : Op α))
      (fun _ w' => Holds P i w' [] []) w' := fun w' e => wp_rollback fun w'' _ h => h
  unfold withSession
  refine wp_bind (wp_attempt (wp_bind (wp_mono (fun r w' h => ?_) hb)))
  cases r with
  | error e => exact hroll w' e
  | ok a =>
    rcases h a rfl with ⟨L, h⟩ | h
    · refine wp_commit h (fun w'' _ _ => hroll w'' .db) fun w₁ w₂ hs h₁ hsh h₂ => ?_
      refine ⟨?_, h₂⟩
      rw [hsh]; exact .refl
    · refine wp_dead (Φ := fun r => ∃ e, r = .error e) (fun r w'' hr _ => ?_) ⟨.db, rfl⟩ h
      obtain ⟨e, rfl⟩ := hr
      exact hroll w'' e

/-- A session that has failed does nothing more that counts. -/
theorem wps_dead {p : Op α} (hd : (sys P).Dead (Act P) (fun _ => True) p) (h : (w.sess i).failed = true) :
    wps P i p (Done P i) w :=
  wp_dead (fun _ _ _ h => done_failed h) hd h

end

end Veyaan
