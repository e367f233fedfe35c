import Veyaan.Lib.Tx

/-!
# What interleaved programs guarantee each other

`G` says what one step may do to the shared state. A process may rely on this:
while it does not run, the shared state moves by steps of `G`, its session is
left alone, the rows it has locked stay as they are, and no trace entry is
added in its name. `wp i p Q w` holds when `p`, run as process `i` from `w`
under that interference, only makes steps of `G` and ends in `Q`. If every
call meets its `wp`, then the shared state of every run moves by steps of `G`
(`sound`), whatever the interleaving.
-/

open Relation (ReflTransGen)

def own {V : Type} (i : Nat) (t : List (Nat × V)) : List V :=
  t.filterMap fun p => if p.1 = i then some p.2 else none

section
variable {V : Type} {i j : Nat}

@[simp] theorem own_nil : own i ([] : List (Nat × V)) = [] := rfl

theorem own_append (t u : List (Nat × V)) : own i (t ++ u) = own i t ++ own i u := by
  unfold own; exact List.filterMap_append

@[simp] theorem own_map_self (vs : List V) : own i (vs.map (i, ·)) = vs := by
  induction vs with
  | nil => rfl
  | cons v vs ih =>
    unfold own at ih ⊢
    simp only [List.map_cons, List.filterMap_cons, if_true, ih]

theorem own_map_ne (h : j ≠ i) (vs : List V) : own i (vs.map (j, ·)) = [] := by
  simp [own, h]

@[simp] theorem own_self (v : V) : own i [(i, v)] = [v] := own_map_self [v]

theorem own_ne (h : j ≠ i) (v : V) : own i [(j, v)] = [] := own_map_ne h [v]

theorem mem_own {v : V} {t : List (Nat × V)} : v ∈ own i t ↔ (i, v) ∈ t := by
  unfold own
  rw [List.mem_filterMap]
  constructor
  · rintro ⟨⟨j, u⟩, hp, h⟩
    split at h
    · rename_i hj; cases h; cases hj; exact hp
    · cases h
  · intro h; exact ⟨(i, v), h, by simp⟩

end

namespace Sys

variable {D X K W R T V C ε α β : Type} {E : Type → Type} (S : Sys D X K W R T V C ε E)
variable (G : Shared D X V → Shared D X V → Prop)

structure Rely (i : Nat) (w w' : World D X K W V) : Prop where
  shared : ReflTransGen G w.sh w'.sh
  sess : w'.sess i = w.sess i
  locks : ∀ k, w.locks k = some i → w'.locks k = some i
  rows : ∀ k, w.locks k = some i → S.row k w'.sh.db = S.row k w.sh.db
  trace : own i w'.sh.trace = own i w.sh.trace

theorem Rely.refl (i : Nat) (w : World D X K W V) : S.Rely G i w w :=
  ⟨.refl, rfl, fun _ h => h, fun _ _ => rfl, rfl⟩

variable {S G}

theorem Rely.trans {i : Nat} {u v w : World D X K W V} (h : S.Rely G i u v) (h' : S.Rely G i v w) :
    S.Rely G i u w where
  shared := h.shared.trans h'.shared
  sess := h'.sess.trans h.sess
  locks k hk := h'.locks k (h.locks k hk)
  rows k hk := (h'.rows k (h.locks k hk)).trans (h.rows k hk)
  trace := h'.trace.trans h.trace

variable (S)

/-! ## A step of one process, seen by the others -/

def LockOk (w : World D X K W V) : Prop :=
  ∀ j, ∀ v ∈ (w.sess j).pend, ∀ k ∈ S.keys v, w.locks k = some j

/-- What a step of process `i` does to locks, sessions and rows: nothing but
to its own flag (`quiet`), it takes locks and writes under them (`lock`), or it
ends the transaction with the store `d` (`done`). -/
inductive Moved (i : Nat) (w w' : World D X K W V) : Prop
  | quiet : w'.locks = w.locks → (∀ j, j ≠ i → w'.sess j = w.sess j) →
      (w'.sess i).pend = (w.sess i).pend → w'.sh.db = w.sh.db → Moved i w w'
  | lock (ks : List K) (ws : List W) : (∀ k ∈ ks, w.free i k = true) →
      (∀ v ∈ ws, ∀ k ∈ S.keys v, k ∈ ks) → (∀ k, k ∈ ks → w'.locks k = some i) →
      (∀ k, k ∉ ks → w'.locks k = w.locks k) → (∀ j, j ≠ i → w'.sess j = w.sess j) →
      (w'.sess i).pend = (w.sess i).pend ++ ws → w'.sh.db = w.sh.db → Moved i w w'
  | done (u : World D X K W V) : u.locks = w.locks → u.sess = w.sess →
      (u.sh.db = w.sh.db ∨ u.sh.db = S.view w i) → w' = u.release i → Moved i w w'

/-- What a statement may report from `w`. -/
def Says (w : World D X K W V) : {β : Type} → Prim D K W T ε E β → V → Prop
  | _, .read t _, v => ∃ l ok, t = some l ∧ v = S.see l ok w.sh.db w.sh.ext
  | _, .fresh t _, v => ∃ l ok, t = some l ∧ v = S.see l ok w.sh.db w.sh.ext
  | _, .forUpdate t _ _, v => ∃ l ok, t = some l ∧ v = S.see l ok w.sh.db w.sh.ext
  | _, .commit t, v => ∃ l ok, t = some l ∧ v = S.see l ok w.sh.db w.sh.ext
  | _, .stmt _ _, v => ∃ e, v = S.rejected e
  | _, .eff e, v => ∃ ch, v ∈ (S.handle ch e w.sh.ext).2.2
  | _, _, _ => False

section
variable {S} {i j : Nat} {w w' : World D X K W V}

/-- An entry that neither a label nor a refusal leaves is one of an effect. -/
theorem says_effect {c : Prim D K W T ε E β} {v : V} (hsee : ∀ l ok d x, S.see l ok d x ≠ v)
    (hrej : ∀ e, S.rejected e ≠ v) (h : S.Says w c v) :
    ∃ e ch, c = .eff e ∧ v ∈ (S.handle ch e w.sh.ext).2.2 := by
  cases c with
  | read => obtain ⟨l, ok, -, rfl⟩ := h; exact absurd rfl (hsee l ok _ _)
  | fresh => obtain ⟨l, ok, -, rfl⟩ := h; exact absurd rfl (hsee l ok _ _)
  | forUpdate => obtain ⟨l, ok, -, rfl⟩ := h; exact absurd rfl (hsee l ok _ _)
  | commit => obtain ⟨l, ok, -, rfl⟩ := h; exact absurd rfl (hsee l ok _ _)
  | stmt => obtain ⟨e, rfl⟩ := h; exact absurd rfl (hrej e)
  | skipLocked => exact h.elim
  | rollback => exact h.elim
  | eff e =>
    obtain ⟨ch, h⟩ := h
    exact ⟨e, ch, rfl, h⟩

theorem label_parts (ok : Bool) (t : Option T) : (S.label w i ok t).locks = w.locks ∧
    (S.label w i ok t).sess = w.sess ∧ (S.label w i ok t).sh.db = w.sh.db := by
  cases t <;> exact ⟨rfl, rfl, rfl⟩

theorem Moved.fail {u : World D X K W V} (hl : u.locks = w.locks) (hs : u.sess = w.sess)
    (hd : u.sh.db = w.sh.db) : S.Moved i w (u.fail i) :=
  .quiet hl (fun j hj => by simp [World.fail, World.setSess, hj, hs])
    (by simp [World.fail, World.setSess, hs]) hd

variable [DecidableEq K]

theorem Moved.lockAll {u : World D X K W V} {ks : List K} (hl : u.locks = w.locks) (hs : u.sess = w.sess)
    (hd : u.sh.db = w.sh.db) (h : ∀ k ∈ ks, w.free i k = true) : S.Moved i w (u.lockAll i ks) :=
  .lock ks [] h (by simp) (fun k hk => if_pos hk) (fun k hk => by simp [World.lockAll, hk, hl])
    (fun _ _ => by simp [World.lockAll, hs]) (by simp [World.lockAll, hs]) hd

theorem exec_moved {ch : Bool} {c : Prim D K W T ε E β} {r} (h : S.exec i ch c w = some (r, w')) :
    S.Moved i w w' := by
  have hlab := fun ok t => label_parts (S := S) (w := w) (i := i) ok t
  cases exec_made h with
  | readFailed => exact .fail (hlab _ _).1 (hlab _ _).2.1 (hlab _ _).2.2
  | read | freshFailed | fresh =>
    exact .quiet (hlab _ _).1 (fun _ _ => by rw [(hlab _ _).2.1]) (by rw [(hlab _ _).2.1]) (hlab _ _).2.2
  | forUpdate _ _ hfree =>
    refine .lockAll (hlab _ _).1 (hlab _ _).2.1 (hlab _ _).2.2 fun k hk => ?_
    obtain ⟨a, ha, rfl⟩ := List.mem_map.mp hk
    exact hfree a ha
  | skipLocked _ _ hrows =>
    refine .lockAll rfl rfl rfl fun k hk => ?_
    obtain ⟨a, ha, rfl⟩ := List.mem_map.mp hk
    rw [hrows] at ha
    exact (List.mem_filter.mp (List.mem_of_mem_take ha)).2
  | @stmt _ _ ws _ _ _ _ hlks hfree =>
    refine .lock _ ws hfree (fun v hv k hk => ?_) (fun k hk => if_pos hk) (fun k hk => if_neg hk) (fun j hj => ?_)
      ?_ rfl
    · rw [hlks]
      exact List.mem_append_right _ (List.mem_flatMap.mpr ⟨v, hv, hk⟩)
    · simp [World.setSess, hj, World.lockAll]
    · simp [World.setSess]
  | commit => exact .done { S.label w i true _ with sh.db := S.view w i } (hlab _ _).1 (hlab _ _).2.1 (.inr rfl) rfl
  | rollback => exact .done w rfl rfl (.inl rfl) rfl
  | eff => exact .quiet rfl (fun _ _ => rfl) rfl rfl
  | _ => exact .fail rfl rfl rfl

theorem exec_trace {ch : Bool} {c : Prim D K W T ε E β} {r} (h : S.exec i ch c w = some (r, w')) :
    ∃ vs : List V, w'.sh.trace = w.sh.trace ++ vs.map (i, ·) ∧ ∀ v ∈ vs, S.Says w c v := by
  have hnil : ∀ c : Prim D K W T ε E β, ∃ vs : List V, w.sh.trace = w.sh.trace ++ vs.map (i, ·) ∧
      ∀ v ∈ vs, S.Says w c v :=
    fun _ => ⟨[], by simp, by simp⟩
  have hlabel : ∀ (c : Prim D K W T ε E β) ok t, (∀ l, t = some l → S.Says w c (S.see l ok w.sh.db w.sh.ext)) →
      ∃ vs : List V, (S.label w i ok t).sh.trace = w.sh.trace ++ vs.map (i, ·) ∧ ∀ v ∈ vs, S.Says w c v := by
    intro c ok t hs
    cases t with
    | none => exact hnil c
    | some l => exact ⟨[_], rfl, fun v hv => by cases List.mem_singleton.mp hv; exact hs l rfl⟩
  cases exec_made h with
  | readFailed | read | freshFailed | fresh | forUpdate | commit => exact hlabel _ _ _ fun l hl => ⟨l, _, hl, rfl⟩
  | rejected => exact ⟨[_], rfl, fun v hv => ⟨_, List.mem_singleton.mp hv⟩⟩
  | eff => exact ⟨_, rfl, fun v hv => ⟨ch, hv⟩⟩
  | _ => exact hnil _

/-- Who makes an entry is at a statement that says so. -/
theorem step_speaker {c c' : Config D X K W T V C ε E} (h : S.Step c c') {v : V}
    (ht : c'.world.sh.trace = c.world.sh.trace ++ [(i, v)]) :
    ∃ call β, ∃ (q : Prim D K W T ε E β) (k : _) (ch : Bool) (r : _),
      c.procs[i]? = some ⟨call, .op q k⟩ ∧ S.exec i ch q c.world = some (r, c'.world) ∧ S.Says c.world q v := by
  cases h with
  | start => simp at ht
  | env => simp at ht
  | @run w w' ps j call β q k ch r hp he =>
    obtain ⟨vs, hvs, hq⟩ := exec_trace he
    have hmem : (i, v) ∈ vs.map (j, ·) := by
      rw [List.append_cancel_left (hvs.symm.trans ht)]
      exact List.mem_singleton.mpr rfl
    obtain ⟨u, hu, hji⟩ := List.mem_map.mp hmem
    cases hji
    exact ⟨call, β, q, k, ch, r, hp, he, hq _ hu⟩

theorem exec_own {ch : Bool} {c : Prim D K W T ε E β} {r} (h : S.exec i ch c w = some (r, w'))
    (hij : i ≠ j) : own j w'.sh.trace = own j w.sh.trace := by
  obtain ⟨vs, hv, -⟩ := exec_trace h
  rw [hv, own_append, own_map_ne hij, List.append_nil]

omit [DecidableEq K] in
theorem Moved.leaves (hm : S.Moved i w w') (hl : S.LockOk w) (hij : i ≠ j) : w'.sess j = w.sess j ∧
    (∀ k, w.locks k = some j → w'.locks k = some j) ∧
    ∀ k, w.locks k = some j → S.row k w'.sh.db = S.row k w.sh.db := by
  cases hm with
  | quiet h hs _ hd => exact ⟨hs j hij.symm, fun k hk => by rw [h]; exact hk, fun k _ => by rw [hd]⟩
  | lock ks ws hf _ h₁ h₂ hs _ hd =>
    refine ⟨hs j hij.symm, fun k hk => ?_, fun k _ => by rw [hd]⟩
    have : k ∉ ks := fun hm => by
      have := hf k hm
      simp [World.free, hk] at this
      exact hij this.symm
    rw [h₂ k this, hk]
  | done u h hs hd hu =>
    subst hu
    refine ⟨by simp [World.release, World.setSess, hij.symm, hs], fun k hk => ?_, fun k hk => ?_⟩
    · simp [World.release, World.setSess, h, hk, hij.symm]
    · rcases hd with hd | hd
      · rw [show (u.release i).sh.db = w.sh.db from hd]
      · -- the rows that `i` writes are locked by `i`, so `j` has locked none of them
        rw [show (u.release i).sh.db = S.view w i from hd]
        refine S.row_applyAll _ fun v hv hkv => hij ?_
        have := hl i v hv k hkv
        rw [hk] at this
        exact (Option.some.inj this).symm

omit [DecidableEq K] in
theorem Moved.unlocked (hm : S.Moved i w w') (hij : i ≠ j) (hu : ∀ k, w.locks k ≠ some j) :
    ∀ k, w'.locks k ≠ some j := by
  intro k
  cases hm with
  | quiet h _ _ _ => rw [h]; exact hu k
  | lock ks ws _ _ h₁ h₂ _ _ _ =>
    by_cases hk : k ∈ ks
    · rw [h₁ k hk]; simpa using hij
    · rw [h₂ k hk]; exact hu k
  | done u h _ _ he =>
    subst he
    simp only [World.release, World.setSess, h]
    split
    · simp
    · exact hu k

omit [DecidableEq K] in
theorem Moved.lockOk (hm : S.Moved i w w') (hl : S.LockOk w) : S.LockOk w' := by
  intro j
  by_cases hij : i = j
  · subst hij
    intro v hv k hk
    cases hm with
    | quiet h _ hp _ => rw [h]; rw [hp] at hv; exact hl i v hv k hk
    | lock ks ws _ hw h₁ h₂ _ hp _ =>
      rw [hp] at hv
      rcases List.mem_append.mp hv with hv | hv
      · by_cases hks : k ∈ ks
        · exact h₁ k hks
        · rw [h₂ k hks]; exact hl i v hv k hk
      · exact h₁ k (hw v hv k hk)
    | done u _ _ _ he => subst he; rw [(World.release_idle u i).sess] at hv; cases hv
  · obtain ⟨hs, hk, -⟩ := hm.leaves hl hij
    rw [hs]
    exact fun v hv k hkv => hk k (hl j v hv k hkv)

end

variable (G) [DecidableEq K]

/-- `p`, run as process `i` from `w`, only makes steps of `G` and ends in `Q`. -/
def wp (i : Nat) : Prog (Prim D K W T ε E) ε α → (Except ε α → World D X K W V → Prop) →
    World D X K W V → Prop
  | .ret a, Q, w => Q (.ok a) w
  | .throw e, Q, w => Q (.error e) w
  | .op c k, Q, w => ∀ w', S.Rely G i w w' → ∀ ch r w'', S.exec i ch c w' = some (r, w'') →
      ReflTransGen G w'.sh w''.sh ∧ wp i (k r) Q w''

/-! ## Composition -/

section
variable {S G} {i : Nat} {w : World D X K W V}

theorem wp_mono {Q Q' : Except ε α → World D X K W V → Prop} (h : ∀ r w, Q r w → Q' r w) :
    ∀ {p : Prog (Prim D K W T ε E) ε α} {w}, S.wp G i p Q w → S.wp G i p Q' w
  | .ret _, _, hp => h _ _ hp
  | .throw _, _, hp => h _ _ hp
  | .op _ _, _, hp => fun w' hr ch r w'' he => ⟨(hp w' hr ch r w'' he).1, wp_mono h (hp w' hr ch r w'' he).2⟩

/-- A postcondition of `p` that runs the rest `f` of the program. -/
def andThen (S : Sys D X K W R T V C ε E) (G : Shared D X V → Shared D X V → Prop) (i : Nat)
    (f : α → Prog (Prim D K W T ε E) ε β) (Q : Except ε β → World D X K W V → Prop) :
    Except ε α → World D X K W V → Prop
  | .ok a, w => S.wp G i (f a) Q w
  | .error e, w => Q (.error e) w

theorem wp_bind {f : α → Prog (Prim D K W T ε E) ε β} {Q : Except ε β → World D X K W V → Prop} :
    ∀ {p : Prog (Prim D K W T ε E) ε α} {w}, S.wp G i p (S.andThen G i f Q) w → S.wp G i (p.bind f) Q w
  | .ret _, _, h => h
  | .throw _, _, h => h
  | .op _ _, _, h => fun w' hr ch r w'' he => ⟨(h w' hr ch r w'' he).1, wp_bind (h w' hr ch r w'' he).2⟩

theorem wp_attempt {Q : Except ε (Except ε α) → World D X K W V → Prop} :
    ∀ {p : Prog (Prim D K W T ε E) ε α} {w}, S.wp G i p (fun r w => Q (.ok r) w) w → S.wp G i p.attempt Q w
  | .ret _, _, h => h
  | .throw _, _, h => h
  | .op _ _, _, h => fun w' hr ch r w'' he => ⟨(h w' hr ch r w'' he).1, wp_attempt (h w' hr ch r w'' he).2⟩

/-- A program leaves a shared state that steps of `G` reach. -/
theorem wp_shared {Q : Except ε α → World D X K W V → Prop} :
    ∀ {p : Prog (Prim D K W T ε E) ε α} {w}, S.wp G i p Q w →
      S.wp G i p (fun r w' => ReflTransGen G w.sh w'.sh ∧ Q r w') w
  | .ret _, _, h => ⟨.refl, h⟩
  | .throw _, _, h => ⟨.refl, h⟩
  | .op _ _, w, h => fun w' hr ch r w'' he => by
    obtain ⟨hg, hk⟩ := h w' hr ch r w'' he
    exact ⟨hg, wp_mono (fun _ _ hQ => ⟨(hr.shared.trans hg).trans hQ.1, hQ.2⟩) (wp_shared hk)⟩

theorem wp_stable {Q : Except ε α → World D X K W V → Prop}
    (hQ : ∀ r w w', S.Rely G i w w' → Q r w → Q r w') :
    ∀ {p : Prog (Prim D K W T ε E) ε α} {w w'}, S.Rely G i w w' → S.wp G i p Q w → S.wp G i p Q w'
  | .ret _, _, _, hr, h => hQ _ _ _ hr h
  | .throw _, _, _, hr, h => hQ _ _ _ hr h
  | .op _ _, _, _, hr, h => fun w'' hr' => h w'' (hr.trans hr')

end

/-! ## Soundness -/

section
variable {S} {init : D → X → Prop}

theorem Reachable.runs {c c' : Config D X K W T V C ε E} (h : S.Reachable init c) (hr : ReflTransGen S.Step c c') :
    S.Reachable init c' := by
  induction hr with
  | refl => exact h
  | tail _ hs ih => exact .step ih hs

end

def Reach (init : D → X → Prop) (s : Shared D X V) : Prop :=
  ∃ d x, init d x ∧ ReflTransGen G ⟨d, x, []⟩ s

structure Steady (init : D → X → Prop) (Post : C → Nat → Except ε Unit → World D X K W V → Prop)
    (c : Config D X K W T V C ε E) : Prop where
  reach : Reach G init c.world.sh
  locks : S.LockOk c.world
  idle : ∀ i, c.procs.length ≤ i → c.world.Idle i ∧ own i c.world.sh.trace = []
  procs : ∀ i p, c.procs[i]? = some p → S.wp G i p.prog (Post p.call i) c.world

section
variable {S G} {init : D → X → Prop} {Post : C → Nat → Except ε Unit → World D X K W V → Prop}

theorem Initial.steady {c : Config D X K W T V C ε E} (h : Initial init c) : S.Steady G init Post c where
  reach := by
    refine ⟨c.world.sh.db, c.world.sh.ext, h.init, ?_⟩
    have := h.trace
    rw [← this]
  locks := by intro j v hv; rw [h.sess j] at hv; cases hv
  idle i _ := ⟨⟨h.sess i, fun k => by rw [h.locks k]; simp⟩, by rw [h.trace]; rfl⟩
  procs i p hp := by rw [h.procs] at hp; cases hp

variable (henv : ∀ d x x' t, S.env d x x' → ReflTransGen G ⟨d, x, t⟩ ⟨d, x', t⟩)
variable (hcode : ∀ call i w, Reach G init w.sh → S.admits w.sh.db w.sh.ext call → w.Idle i →
  own i w.sh.trace = [] → S.wp G i (S.code call) (Post call i) w)
variable (hpost : ∀ call i r w w', S.Rely G i w w' → Post call i r w → Post call i r w')
include henv hcode hpost

theorem Step.steady {c c' : Config D X K W T V C ε E} (hs : S.Step c c') (h : S.Steady G init Post c) :
    S.Steady G init Post c' := by
  obtain ⟨d₀, x₀, hi, hg⟩ := h.reach
  cases hs with
  | @run w w' ps i call _ q k ch r hp he =>
    have hw := h.procs i _ hp w (Rely.refl S G i w) ch r w' he
    have hlen : i < ps.length := (List.getElem?_eq_some_iff.mp hp).1
    have hrely : ∀ j, i ≠ j → S.Rely G j w w' := fun j hij =>
      have ⟨hs, hk, hd⟩ := (exec_moved he).leaves h.locks hij
      ⟨hw.1, hs, hk, hd, exec_own he hij⟩
    refine ⟨⟨d₀, x₀, hi, hg.trans hw.1⟩, (exec_moved he).lockOk h.locks, fun j hj => ?_, fun j p hj => ?_⟩
    · simp only [List.length_set] at hj
      have hij : i ≠ j := by omega
      obtain ⟨hidle, ht⟩ := h.idle j hj
      have hr := hrely j hij
      exact ⟨⟨hr.sess.trans hidle.sess, (exec_moved he).unlocked hij hidle.locks⟩, hr.trace.trans ht⟩
    · by_cases hij : i = j
      · subst hij
        rw [List.getElem?_set_self hlen] at hj
        cases hj
        exact hw.2
      · rw [List.getElem?_set_ne hij] at hj
        exact wp_stable (hpost p.call j) (hrely j hij) (h.procs j p hj)
  | @start w ps call ha =>
    refine ⟨h.reach, h.locks, fun j hj => h.idle j ?_, fun j p hj => ?_⟩
    · simp only [List.length_append, List.length_cons, List.length_nil] at hj; simp only; omega
    · rcases Nat.lt_or_ge j ps.length with hlt | hge
      · rw [List.getElem?_append_left hlt] at hj
        exact h.procs j p hj
      · rw [List.getElem?_append_right hge] at hj
        have hj0 : j - ps.length = 0 := by
          refine Classical.byContradiction fun hne => ?_
          rw [List.getElem?_eq_none (by simp; omega)] at hj
          cases hj
        rw [hj0] at hj
        cases hj
        obtain ⟨hidle, ht⟩ := h.idle j hge
        exact hcode call j w h.reach ha hidle ht
  | @env w ps x hx =>
    have hgx := henv _ _ _ w.sh.trace hx
    refine ⟨⟨d₀, x₀, hi, hg.trans hgx⟩, h.locks, fun j hj => ?_, fun j p hj => ?_⟩
    · obtain ⟨hidle, ht⟩ := h.idle j hj
      exact ⟨⟨hidle.sess, hidle.locks⟩, ht⟩
    · exact wp_stable (hpost p.call j) ⟨hgx, rfl, fun _ h => h, fun _ _ => rfl, rfl⟩ (h.procs j p hj)

/-- **Soundness.** Whatever the interleaving, the shared state moves by steps of
`G`, and a process that has ended satisfies its postcondition. -/
theorem sound {c : Config D X K W T V C ε E} (h : S.Reachable init c) : S.Steady G init Post c := by
  induction h with
  | init h => exact h.steady
  | step _ hs ih => exact Step.steady henv hcode hpost hs ih

omit hcode hpost in
theorem Step.shared {c c' : Config D X K W T V C ε E} (hs : S.Step c c') (h : S.Steady G init Post c) :
    ReflTransGen G c.world.sh c'.world.sh := by
  cases hs with
  | @run w w' ps i call _ q k ch r hp he => exact (h.procs i _ hp w (Rely.refl S G i w) ch r w' he).1
  | start => exact .refl
  | @env w ps x hx => exact henv _ _ _ w.sh.trace hx

/-- Between two moments of a run the shared state moves by steps of `G`. -/
theorem runs_shared {c c' : Config D X K W T V C ε E} (h : S.Reachable init c) (hr : ReflTransGen S.Step c c') :
    ReflTransGen G c.world.sh c'.world.sh := by
  induction hr with
  | refl => exact .refl
  | @tail a b hab hs ih =>
    exact ih.trans (Step.shared henv hs (sound henv hcode hpost (h.runs hab)))

end

end Sys
