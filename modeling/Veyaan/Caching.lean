import Veyaan.Isolation
import Veyaan.Lib.Follows
import Veyaan.Switches

/-!
# The cached stop state

`is_active` believes the cache. An entry is set by `activate` after its commit
and by `is_active` after its query, and deleted by `release` after its commit,
so an entry that is set late outlives the stop. If no entry is set so late, every
entry is covered by an active row or by a release that is about to delete it.
-/

open Relation (ReflTransGen)

namespace Veyaan

open Sys

/-! ## What a release has still to do -/

def deletes (o : UUID) : {β : Type} → Stmt β → Bool
  | _, .eff (.cacheDelete p) => p == o
  | _, _ => false

def winds : {β : Type} → Stmt β → Bool
  | _, .read none _ => true
  | _, .commit none => true
  | _, _ => false

theorem winds_answer {β : Type} {s : Stmt β} (h : winds s = true) (d : DB) : Nonempty β := by
  cases s with
  | read l q => exact ⟨q d⟩
  | commit => exact ⟨()⟩
  | _ => cases h

def Straight {α : Type} (post : α → Prop) : Op α → Prop
  | .ret a => post a
  | .throw _ => False
  | .op s k => winds s = true ∧ ∀ a, Straight post (k (.ok a))

/-- The program deletes the cache entry of the owner, if no statement before that
fails. -/
def Due (o : UUID) : Op Unit → Prop
  | .ret _ => False
  | .throw _ => False
  | .op s k => deletes o s = true ∨ winds s = true ∧ ∀ a, Due o (k (.ok a))

section
variable {α β : Type} {post : α → Prop} {o : UUID}

theorem Straight.bind {f : α → Op β} {post' : β → Prop} (hf : ∀ a, post a → Straight post' (f a)) :
    ∀ {p : Op α}, Straight post p → Straight post' (p.bind f)
  | .ret a, h => hf a h
  | .throw _, h => h.elim
  | .op _ _, h => ⟨h.1, fun a => Straight.bind hf (h.2 a)⟩

theorem Straight.attempt {post' : Except Err α → Prop} (hp : ∀ a, post a → post' (.ok a)) :
    ∀ {p : Op α}, Straight post p → Straight post' p.attempt
  | .ret a, h => hp a h
  | .throw _, h => h.elim
  | .op _ _, h => ⟨h.1, fun a => Straight.attempt hp (h.2 a)⟩

theorem Straight.due {f : α → Op Unit} (hf : ∀ a, post a → Due o (f a)) :
    ∀ {p : Op α}, Straight post p → Due o (p.bind f)
  | .ret a, h => hf a h
  | .throw _, h => h.elim
  | .op _ _, h => .inr ⟨h.1, fun a => Straight.due hf (h.2 a)⟩

end

def Releases (o : UUID) (β : Type) (s : Stmt β) (r : Except Err β) : Prop :=
  s.commits = some (some (.commit (.release o))) ∧ ∃ a, r = .ok a

def Unreleasing (o : UUID) (β : Type) (s : Stmt β) : Prop :=
  deletes o s = false ∧ s.commits ≠ some (some (.commit (.release o)))

theorem quiet_unreleasing (o : UUID) : Quiet (Unreleasing o) where
  read _ _ := ⟨rfl, by simp [Prim.commits]⟩
  forUpdate _ _ _ := ⟨rfl, by simp [Prim.commits]⟩
  skipLocked _ _ _ := ⟨rfl, by simp [Prim.commits]⟩
  stmt _ _ _ := ⟨rfl, by simp [Prim.commits]⟩
  now := ⟨rfl, by simp [Prim.commits]⟩
  uuid4 := ⟨rfl, by simp [Prim.commits]⟩
  token := ⟨rfl, by simp [Prim.commits]⟩
  rollback := ⟨rfl, by simp [Prim.commits]⟩
  fresh _ := ⟨rfl, by simp [Prim.commits]⟩
  eff e he := by
    refine ⟨?_, by simp [Prim.commits]⟩
    cases e with
    | cacheDelete => cases he
    | _ => rfl

theorem unreleasing_code {P : Params} {o : UUID} {call : Call} (h : ∀ actor, call ≠ .release o actor) :
    (call.code P).All (Unreleasing o) := by
  refine (quiet_unreleasing o).code (fun t ht => ⟨rfl, ?_⟩) (fun _ _ _ => ⟨rfl, by simp [Prim.commits]⟩)
    (fun _ _ _ => ⟨rfl, by simp [Prim.commits]⟩) (fun _ _ => ⟨rfl, by simp [Prim.commits]⟩) (fun p actor he => ?_)
    fun _ _ _ _ _ _ => ⟨rfl, by simp [Prim.commits]⟩
  · simpa [Prim.commits] using ht o
  · have hp : p ≠ o := fun hp => h actor (hp ▸ he)
    exact ⟨⟨rfl, by simpa [Prim.commits] using hp⟩, by simpa [deletes] using hp, by simp [Prim.commits]⟩

theorem Unreleasing.since {α : Type} {o : UUID} {Q : Op α → Prop} {p : Op α} (h : p.All (Unreleasing o)) :
    p.Since (fun _ _ _ => True) (Releases o) Q :=
  (h.mono fun _ _ hs _ ht => hs.2 ht.1).since_never

section
variable {P : Params} {o : UUID}

theorem since_releaseRow {actor : UUID} :
    (releaseRow o actor).Since (fun _ _ _ => True) (Releases o) (Straight (· = true)) := by
  have hq := quiet_unreleasing o
  have hrest : ((commit (.release o)).bind fun _ => (select fun d => d.stops.find o).bind fun _ => .ret true).Since
      (fun _ _ _ => True) (Releases o) (Straight (· = true)) := by
    intro r _
    refine ⟨?_, ?_⟩
    · rintro ⟨-, a, rfl⟩
      exact ⟨rfl, fun _ => rfl⟩
    · cases r with
      | ok a =>
        have hend : ((select fun d => d.stops.find o).bind fun _ => Prog.ret true).All (Unreleasing o) :=
          .bind hq.select fun _ => trivial
        exact Unreleasing.since hend
      | error e => trivial
  refine .after ((hq.selectForUpdate (by simp [Label.Reads])).mono fun _ _ hs _ ht => hs.2 ht.1) fun stop => ?_
  cases stop with
  | none => trivial
  | some stop =>
    dsimp only
    split
    · refine .after ((Prog.All.call hq.now).mono fun _ _ hs _ ht => hs.2 ht.1) fun _ => ?_
      refine .after (hq.execute.mono fun _ _ hs _ ht => hs.2 ht.1) fun _ => ?_
      refine .after (hq.execute.mono fun _ _ hs _ ht => hs.2 ht.1) fun _ => ?_
      refine .after ((Prog.All.call hq.now).mono fun _ _ hs _ ht => hs.2 ht.1) fun _ => ?_
      exact .after (hq.addEvent.mono fun _ _ hs _ ht => hs.2 ht.1) fun _ => hrest
    · trivial

/-- After its commit, a release goes on to the cache entry. -/
theorem since_release {actor : UUID} : (release o actor).Since (fun _ _ _ => True) (Releases o) (Due o) := by
  have hq := quiet_unreleasing o
  have hcommit : Unreleasing o Unit (.commit none) := ⟨rfl, by simp [Prim.commits]⟩
  unfold release withSession
  -- outwards: the end of the session, the `try` around it, what is raised again, the deletion
  refine .bind (Q := Straight (· = true)) (fun q h => h.due ?_) (fun b => ?_) ?_
  · rintro a rfl
    exact .inl (by simp [deletes])
  · cases b with
    | true =>
      intro r _
      refine ⟨fun ht => ?_, ?_⟩
      · cases ht.1
      · cases r <;> trivial
    | false => trivial
  refine .bind (Q := Straight (· = .ok true)) (fun q h => h.bind ?_) (fun r => ?_) ?_
  · rintro a rfl
    rfl
  · cases r with
    | ok a => trivial
    | error e => exact Unreleasing.since (.bind (.call hq.rollback) fun _ => trivial)
  refine .attempt (Q := Straight (· = true)) (fun q h => h.attempt ?_) ?_
  · rintro a rfl
    rfl
  have hend : ∀ a, ((Prog.call (.commit none)).bind fun _ => Prog.ret a : Op Bool).All (Unreleasing o) := fun a =>
    .bind (.call hcommit) fun _ => trivial
  refine .bind (Q := Straight (· = true)) (fun q h => h.bind ?_)
    (fun a => Unreleasing.since (hend a)) since_releaseRow
  rintro a rfl
  exact ⟨rfl, fun _ => rfl⟩

theorem since_code (call : Call) : (call.code P).Since (fun _ _ _ => True) (Releases o) (Due o) := by
  by_cases h : ∃ actor, call = .release o actor
  · obtain ⟨actor, rfl⟩ := h
    exact since_release
  · exact Unreleasing.since (unreleasing_code fun actor he => h ⟨actor, he⟩)

theorem due_release {c : Conf} (h : Reachable P c) {i : Nat} {p : Proc DB Key Write Label Call Err Eff}
    (hp : c.procs[i]? = some p) (hdue : Due o p.prog) : ∃ actor, p.call = .release o actor := by
  by_contra hn
  have hall : p.prog.All (Unreleasing o) := by
    refine Sys.Reachable.history
      (Ψ := fun (call : Call) _ (q : Op Unit) => (∀ actor, call ≠ .release o actor) → q.All (Unreleasing o))
      (fun call hc => unreleasing_code hc) (fun hΨ _ _ _ hc => (hΨ hc).2 _) h hp fun actor he => hn ⟨actor, he⟩
  have hnot : ∀ {q : Op Unit}, q.All (Unreleasing o) → ¬ Due o q := by
    intro q
    induction q with
    | ret => exact fun _ h => h
    | throw => exact fun _ h => h
    | op s k ih =>
      intro ha hd
      rcases hd with hd | hd
      · rw [ha.1.1] at hd
        cases hd
      · obtain ⟨a⟩ := winds_answer hd.1 c.world.sh.db
        exact ih _ (ha.2 _) (hd.2 a)
  exact hnot hall hdue

end

/-! ## Covered entries -/

section
variable {P : Params} {o : UUID} {c c' : Conf}

/-- The owner's stop is active, or a release of it has its deletion before it. -/
def Stands (o : UUID) (c : Conf) : Prop :=
  c.world.sh.db.stopActive o = true ∨ ∃ p ∈ c.procs, Due o p.prog

/-- A step that sets no entry too late, and does not keep a release that has committed
from its deletion while there is an entry. -/
structure Orderly (P : Params) (o : UUID) (c c' : Conf) : Prop where
  step : (sys P).Step c c'
  fresh : c'.world.sh.ext.cache o ≠ none → c.world.sh.ext.cache o ≠ none ∨ Stands o c
  prompt : ∀ i p, c.procs[i]? = some p → Due o p.prog → c'.procs[i]? = some p ∨
    c'.world.sh.ext.cache o = none ∨ ∃ β, ∃ (s : Stmt β) (k : Except Err β → Op Unit) (a : β), p.prog = .op s k ∧
      (sys P).exec i true s c.world = some (.ok a, c'.world) ∧ c'.procs[i]? = some ⟨p.call, k (.ok a)⟩

/-- When a stop ends, the process that ended it goes on to the cache entry. -/
theorem step_ends (h : Reachable P c) (hs : (sys P).Step c c') (ha : c.world.sh.db.stopActive o = true)
    (hn : c'.world.sh.db.stopActive o = false) : ∃ p ∈ c'.procs, Due o p.prog := by
  have hne : c'.world.sh.db ≠ c.world.sh.db := by
    intro he
    rw [he, ha] at hn
    cases hn
  obtain ⟨i, call, β, q, k, l, s₁, t, hp, hq, hl, ht, hd, -, -, htx⟩ := step_commit h hs hne
  have hrel : t = .release o := by
    by_cases hstop : ∃ on, t.stop = some (o, on)
    · obtain ⟨on, hstop⟩ := hstop
      have hb := (htx.switched hstop).before
      rw [hd, ha] at hb
      cases on with
      | true => cases hb
      | false =>
        cases t with
        | release p => cases hstop; rfl
        | activate p => cases hstop
        | _ => cases hstop
    · have hf := (htx.stopFrame fun on hon => hstop ⟨on, hon⟩).stop
      rw [hd] at hf
      rw [stopActive_congr hf, ha] at hn
      cases hn
  subst hrel
  have hl : l = .commit (.release o) := by
    cases l <;> cases hl
    rfl
  subst hl
  cases hs.seen hp with
  | other _ hown =>
    rw [ht, own_append] at hown
    simp [own] at hown
  | @self _ s k' ch r vs hop he _ _ hp' =>
    cases hop
    have hr : ∃ a, r = .ok a := by
      cases q with
      | commit t =>
        simp only [exec] at he
        split at he
        · have hw := (Prod.mk.inj (Option.some.inj he)).2
          exact absurd (congrArg (·.sh.db) hw.symm) hne
        · exact ⟨_, (Prod.mk.inj (Option.some.inj he)).1.symm⟩
      | _ => cases hq
    have hsince := Sys.Reachable.history
      (Ψ := fun (call : Call) _ (q : Op Unit) => q.Since (fun _ _ _ => True) (Releases o) (Due o))
      (fun call => since_code call) (fun hΨ _ _ _ => (hΨ _ trivial).2) h hp
    exact ⟨_, List.mem_of_getElem? hp', (hsince _ trivial).1 ⟨hq, hr⟩⟩

def Backed (o : UUID) (c : Conf) : Prop := c.world.sh.ext.cache o ≠ none → Stands o c

theorem Orderly.backed (h : Reachable P c) (hs : Orderly P o c c') (hc : Backed o c) : Backed o c' := by
  intro hset
  have hstands : Stands o c := (hs.fresh hset).elim hc id
  rcases hstands with ha | ⟨p, hp, hdue⟩
  · cases hn : c'.world.sh.db.stopActive o with
    | true => exact .inl hn
    | false => exact .inr (step_ends h hs.step ha hn)
  · obtain ⟨i, hi⟩ := List.getElem?_of_mem hp
    rcases hs.prompt i p hi hdue with hi' | hgone | ⟨β, s, k, a, hop, he, hi'⟩
    · exact .inr ⟨p, List.mem_of_getElem? hi', hdue⟩
    · exact absurd hgone hset
    · rw [hop] at hdue
      rcases hdue with hdel | ⟨-, hdue⟩
      · -- the entry is gone
        refine absurd ?_ hset
        cases s with
        | eff e =>
          cases e with
          | cacheDelete p =>
            have hpo : p = o := by simpa [deletes] using hdel
            simp only [exec] at he
            obtain ⟨hans, he⟩ := Prod.mk.inj (Option.some.inj he)
            have hans : (c.world.sh.ext.ask [.cacheFailed none p] () (·.setCache p none)).1 = .ok a := hans
            rw [← he]
            show (c.world.sh.ext.ask [.cacheFailed none p] () (·.setCache p none)).2.1.cache o = none
            simp [Ext.ask, (ask_eq_ok.mp hans).1, Ext.setCache, hpo]
          | _ => cases hdel
        | _ => cases hdel
      · exact .inr ⟨_, List.mem_of_getElem? hi', hdue a⟩

/-- If no entry is set after the deletion of the release before it, `is_active` answers
as the committed row is, whenever no release is in flight and Valkey answers. -/
theorem cached_stop_converges {c₀ : Conf} (h₀ : Initial Init c₀) (hr : ReflTransGen (Orderly P o) c₀ c)
    (hidle : ∀ p ∈ c.procs, ∀ actor, p.call = .release o actor → p.prog.ended = true) (connected : Bool)
    (fails : UUID → Bool) (site : Site) :
    (evaluate P connected fails (isActive site o) (.idle c.world.sh.db c.world.sh.ext)).1 =
      if c.world.sh.ext.answers connected then .ok (c.world.sh.db.stopActive o) else .error .valkey := by
  have hall : Reachable P c ∧ Backed o c := by
    clear hidle
    induction hr with
    | refl => exact ⟨.init h₀, fun hn => absurd (h₀.init.cache o) hn⟩
    | tail _ hs ih => exact ⟨.step ih.1 hs.step, hs.backed ih.1 ih.2⟩
  obtain ⟨hreach, hcov⟩ := hall
  have hcache : c.world.sh.ext.cache o ≠ none → c.world.sh.db.stopActive o = true := by
    intro hset
    rcases hcov hset with ha | ⟨p, hp, hdue⟩
    · exact ha
    · obtain ⟨i, hi⟩ := List.getElem?_of_mem hp
      obtain ⟨actor, hcall⟩ := due_release hreach hi hdue
      have hend := hidle p hp actor hcall
      cases hprog : p.prog with
      | op s k => rw [hprog] at hend; cases hend
      | _ => rw [hprog] at hdue; exact hdue.elim
  cases hup : c.world.sh.ext.answers connected with
  | false => exact evaluate_isActive_raises (s := .idle c.world.sh.db c.world.sh.ext) hup site o
  | true =>
  obtain ⟨x, -, he⟩ := evaluate_isActive (P := P) (F := fails) (s := .idle c.world.sh.db c.world.sh.ext) hup site o
  rw [he, if_pos rfl]
  refine congrArg Except.ok ?_
  unfold stopped
  cases connected with
  | false => rfl
  | true =>
    cases hv : c.world.sh.ext.cache o with
    | none => simp [Solo.idle, hv]
    | some v =>
      obtain ⟨t, rfl⟩ := (reachable_inv hreach).cache o v hv
      simp [Solo.idle, hv, hcache (by simp [hv])]

/-! ## A stop that is released -/

def fills (o : UUID) : {β : Type} → Stmt β → Bool
  | _, .eff (.cacheSet _ p ..) => p == o
  | _, _ => false

theorem fills_of_exec {i : Nat} {ch : Bool} {β : Type} {s : Stmt β} {w w' : Wd} {r}
    (h : (sys P).exec i ch s w = some (r, w'))
    (hset : w'.sh.ext.cache o ≠ none) : w.sh.ext.cache o ≠ none ∨ fills o s = true := by
  rcases exec_ext h with ⟨e, rfl, hx, -⟩ | ⟨hx, -⟩
  · rw [hx] at hset
    simp only [sys] at hset
    cases e with
    | cacheSet site p v n =>
      by_cases hp : o = p
      · exact .inr (by simp [fills, hp])
      · refine .inl fun hn => hset ?_
        cases ch with
        | false => exact hn
        | true => exact ask_ext (φ := fun x => x.cache o = none) hn (by simp [Ext.setCache, hp, hn])
    | cacheDelete p =>
      refine .inl fun hn => hset ?_
      cases ch with
      | false => exact hn
      | true => exact ask_ext (φ := fun x => x.cache o = none) hn (by simp [Ext.setCache, hn])
    | _ =>
      refine .inl fun hn => hset ?_
      cases ch <;> first | exact hn | exact ask_ext (φ := fun x => x.cache o = none) hn hn
  · rw [hx] at hset
    exact .inl hset

def orderly (P : Params) (o : UUID) (c : Conf) : Turn Move → Bool
  | .run i ch => ch && match c.procs[i]? with
    | some ⟨_, .op s _⟩ => (!fills o s || c.world.sh.db.stopActive o) &&
      ((sys P).exec i true s c.world).any fun r => match r.1 with | .ok _ => true | .error _ => false
    | _ => false
  | .other _ => true

theorem orderly_step {t : Turn Move} (ht : orderly P o c t = true) (h : turn (moves P) c t = some c') :
    Orderly P o c c' := by
  have hs := turn_step _ h
  cases t with
  | run i ch =>
    obtain ⟨call, β, s, k, r, w, hp, he, rfl⟩ := turn_run _ h
    simp only [orderly, hp, Bool.and_eq_true, Bool.or_eq_true, Bool.not_eq_true'] at ht
    obtain ⟨rfl, hfill, hok⟩ := ht
    rw [he] at hok
    refine ⟨hs, fun hset => ?_, fun j p hj hdue => ?_⟩
    · rcases fills_of_exec he hset with hc | hc
      · exact .inl hc
      · rcases hfill with hf | ha
        · rw [hc] at hf
          cases hf
        · exact .inr (.inl ha)
    · by_cases hij : i = j
      · subst hij
        rw [hp] at hj
        cases hj
        cases r with
        | ok a =>
          exact .inr (.inr ⟨β, s, k, a, rfl, he, List.getElem?_set_self (List.getElem?_eq_some_iff.mp hp).1⟩)
        | error e => cases hok
      · exact .inl (by rw [List.getElem?_set_ne hij]; exact hj)
  | other m =>
    rcases turn_other _ h with ⟨call, -, rfl⟩ | ⟨x, hx, rfl⟩
    · refine ⟨hs, fun hset => .inl hset, fun j p hj _ => .inl ?_⟩
      rw [List.getElem?_append_left (List.getElem?_eq_some_iff.mp hj).1]
      exact hj
    · refine ⟨hs, fun hset => .inl ?_, fun j p hj _ => .inl hj⟩
      cases hx with
      | cacheExpire =>
        simp only [Ext.setCache, ne_eq, ite_eq_left_iff, not_forall] at hset
        exact hset.2
      | _ => exact hset

end

def releasedRun : List (Turn Move) :=
  .other (.call (.activate 7 "fire" 7)) :: steps 0 15 ++ .other (.call (.release 7 7)) :: steps 1 13

theorem cached_stop_converges_released : ∃ c₀ c, Initial Init c₀ ∧ ReflTransGen (Orderly demo 7) c₀ c ∧
    c.world.sh.db.stopAudits 7 = [true, false] ∧
    (evaluate demo true (fun _ => false) (isActive .create 7)
      (.idle c.world.sh.db c.world.sh.ext)).1 = .ok false := by
  have hplay : (playIf (moves demo) (orderly demo 7) releasedRun demoStart).any (fun c =>
      c.world.sh.db.stopAudits 7 == [true, false] && !c.world.sh.db.stopActive 7 && c.procs.all (·.prog.ended) &&
      c.world.sh.ext.answers true) = true := by
    decide +kernel
  obtain ⟨c, hc, hφ⟩ := (Option.any_eq_true _ _).mp hplay
  simp only [Bool.and_eq_true, List.all_eq_true, beq_iff_eq, Bool.not_eq_true'] at hφ
  have hr : ReflTransGen (Orderly demo 7) demoStart c := playIf_runs _ (Q := Orderly demo 7) orderly_step hc
  refine ⟨demoStart, c, demo_initial, hr, hφ.1.1.1, ?_⟩
  rw [cached_stop_converges demo_initial hr (fun p hp _ _ => hφ.1.2 p hp), if_pos hφ.2, hφ.1.1.2]

/-- The activation has committed when the stop is released, and sets the entry after
the release has deleted it. -/
def lateRun : List (Turn Move) :=
  .other (.call (.activate 7 "fire" 7)) :: steps 0 14 ++ .other (.call (.release 7 7)) :: steps 1 13 ++ steps 0 1

theorem released_stop_cached : ∃ c, Reachable demo c ∧ (∀ p ∈ c.procs, p.prog.ended = true) ∧
    c.world.sh.db.stopActive 7 = false ∧
    (evaluate demo true (fun _ => false) (isActive .create 7)
      (.idle c.world.sh.db c.world.sh.ext)).1 = .ok true := by
  obtain ⟨c, hr, hc⟩ := played (P := demo) (c := demoStart) (t := lateRun) (φ := fun c =>
    c.procs.all (·.prog.ended) && !c.world.sh.db.stopActive 7 && stopped true c.world.sh.db c.world.sh.ext 7 &&
      c.world.sh.ext.answers true) (by decide +kernel)
  simp only [Bool.and_eq_true, List.all_eq_true, Bool.not_eq_true'] at hc
  obtain ⟨x, -, he⟩ := evaluate_isActive (P := demo) (b := true) (F := fun _ => false)
    (s := .idle c.world.sh.db c.world.sh.ext) hc.2 .create 7
  refine ⟨c, Reachable.runs demo_reachable hr, hc.1.1.1, hc.1.1.2, ?_⟩
  rw [he]
  exact congrArg Except.ok hc.1.2

end Veyaan
