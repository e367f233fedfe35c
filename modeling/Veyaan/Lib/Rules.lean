import Veyaan.Lib.Rely

/-!
# Proof rules for statements

What a process knows between two of its statements is `Held`: the writes of
its session, and the rows it has locked, with their values. That knowledge is
stable, because the others cannot touch locked rows. Each rule below says what
must be shown of one statement, given `Held` before it.
-/

open Relation (ReflTransGen)

namespace Sys

variable {D X K W R T V C ε α β : Type} {E : Type → Type} (S : Sys D X K W R T V C ε E)
variable (G : Shared D X V → Shared D X V → Prop)

/-- Session `i` is in order, has written `ws` and has locked the rows `L`. -/
structure Held (i : Nat) (w : World D X K W V) (L : List (K × R)) (ws : List W) : Prop where
  sess : w.sess i = ⟨ws, false⟩
  locks : ∀ p ∈ L, w.locks p.1 = some i
  rows : ∀ p ∈ L, S.row p.1 w.sh.db = p.2

/-- From `w` to `w'` the shared state moved by steps of `G`, and process `i`
traced `vs`. -/
structure Since (i : Nat) (vs : List V) (w w' : World D X K W V) : Prop where
  shared : ReflTransGen G w.sh w'.sh
  trace : own i w'.sh.trace = own i w.sh.trace ++ vs

section
variable {S G} {i : Nat} {w w' : World D X K W V} {L : List (K × R)} {ws : List W}

theorem Since.refl : Since G i [] w w := ⟨.refl, by simp⟩

theorem Since.trans {u v : List V} {w'' : World D X K W V} (h : Since G i u w w') (h' : Since G i v w' w'') :
    Since G i (u ++ v) w w'' :=
  ⟨h.shared.trans h'.shared, by rw [h'.trace, h.trace, List.append_assoc]⟩

theorem Rely.since (h : S.Rely G i w w') : Since G i [] w w' := ⟨h.shared, by simp [h.trace]⟩

theorem Since.of_sh {vs : List V} {w'' : World D X K W V} (h : Since G i vs w w') (hs : w''.sh = w'.sh) :
    Since G i vs w w'' :=
  ⟨by rw [hs]; exact h.shared, by rw [hs]; exact h.trace⟩

theorem Since.then {us : List V} {w'' : World D X K W V} (h : Since G i [] w w') (h' : Since G i us w' w'') :
    Since G i us w w'' := h.trans h'

theorem Since.act {us : List V} {w'' : World D X K W V} (h : Since G i [] w w')
    (hg : ReflTransGen G w'.sh w''.sh) (ht : w''.sh.trace = w'.sh.trace ++ us.map (i, ·)) : Since G i us w w'' := by
  refine h.then ⟨hg, ?_⟩
  rw [ht, own_append, own_map_self]

theorem Held.rely (h : S.Held i w L ws) (hr : S.Rely G i w w') : S.Held i w' L ws where
  sess := hr.sess.trans h.sess
  locks p hp := hr.locks _ (h.locks p hp)
  rows p hp := (hr.rows _ (h.locks p hp)).trans (h.rows p hp)

theorem Held.cons (h : S.Held i w L ws) {k : K} (hk : w.locks k = some i) :
    S.Held i w ((k, S.row k w.sh.db) :: L) ws where
  sess := h.sess
  locks p hp := by
    rcases List.mem_cons.mp hp with rfl | hp
    · exact hk
    · exact h.locks p hp
  rows p hp := by
    rcases List.mem_cons.mp hp with rfl | hp
    · rfl
    · exact h.rows p hp

theorem Held.lock (h : S.Held i w L ws) : ∀ {ks : List K}, (∀ k ∈ ks, w.locks k = some i) →
    S.Held i w (ks.map (fun k => (k, S.row k w.sh.db)) ++ L) ws
  | [], _ => h
  | k :: _, hk => (h.lock fun k' hk' => hk k' (List.mem_cons_of_mem _ hk')).cons (hk k (List.mem_cons_self ..))

theorem Held.mono (h : S.Held i w L ws) {L' : List (K × R)} (hs : ∀ p ∈ L', p ∈ L) : S.Held i w L' ws :=
  ⟨h.sess, fun p hp => h.locks p (hs p hp), fun p hp => h.rows p (hs p hp)⟩

theorem World.Idle.held (h : w.Idle i) : S.Held i w [] [] := ⟨h.sess, by simp, by simp⟩

theorem Held.view (h : S.Held i w L ws) : S.view w i = S.applyAll ws w.sh.db := by
  unfold Sys.view; rw [h.sess]

theorem Held.of_eq (h : S.Held i w L ws) (hs : w'.sess = w.sess) (hl : w'.locks = w.locks)
    (hd : w'.sh.db = w.sh.db) : S.Held i w' L ws :=
  ⟨by rw [hs]; exact h.sess, fun p hp => by rw [hl]; exact h.locks p hp, fun p hp => by rw [hd]; exact h.rows p hp⟩

end

variable [DecidableEq K] {S G} {i : Nat} {w : World D X K W V} {L : List (K × R)} {ws : List W}
variable {Q : Except ε α → World D X K W V → Prop}

theorem wp_read {q : D → β} {f : β → Prog (Prim D K W T ε E) ε α} (h : S.Held i w L ws)
    (hE : ∀ w', Since G i [] w w' → (w'.sess i).failed = true → Q (.error S.dbError) w')
    (hk : ∀ w', Since G i [] w w' → S.Held i w' L ws →
      S.wp G i (f (q (S.applyAll ws w'.sh.db))) Q w') :
    S.wp G i ((Prog.call (.read none q)).bind f) Q w := by
  intro w' hr ch r w'' he
  have h' := h.rely hr
  simp only [exec, h'.sess, h'.view, label, Bool.false_or] at he
  split at he <;> cases he
  · exact ⟨.refl, hE _ (hr.since.of_sh rfl) (by simp [World.fail, World.setSess])⟩
  · exact ⟨.refl, hk _ hr.since h'⟩

theorem wp_readAs {t : T} {q : D → β} {f : β → Prog (Prim D K W T ε E) ε α} (h : S.Held i w L ws)
    (hF : ∀ w' w'', Since G i [] w w' → w''.sh = w'.sh.say i [S.see t false w'.sh.db w'.sh.ext] →
      ReflTransGen G w'.sh w''.sh ∧ ((w''.sess i).failed = true → Q (.error S.dbError) w''))
    (hk : ∀ w' w'', Since G i [] w w' → w''.sh = w'.sh.say i [S.see t true w'.sh.db w'.sh.ext] →
      S.Held i w'' L ws → ReflTransGen G w'.sh w''.sh ∧ S.wp G i (f (q (S.applyAll ws w'.sh.db))) Q w'') :
    S.wp G i ((Prog.call (.read (some t) q)).bind f) Q w := by
  intro w' hr ch r w'' he
  have h' := h.rely hr
  simp only [exec, h'.sess, h'.view, label, Bool.false_or] at he
  split at he <;> cases he
  · have := hF w' ((w'.say i [S.see t false w'.sh.db w'.sh.ext]).fail i) hr.since rfl
    exact ⟨this.1, this.2 (by simp [World.fail, World.setSess])⟩
  · exact hk w' _ hr.since rfl (h'.of_eq rfl rfl rfl)

theorem wp_fresh {t : T} {q : D → β} {f : β → Prog (Prim D K W T ε E) ε α} (h : S.Held i w L ws)
    (hF : ∀ w' w'', Since G i [] w w' → w''.sh = w'.sh.say i [S.see t false w'.sh.db w'.sh.ext] →
      S.Held i w'' L ws → ReflTransGen G w'.sh w''.sh ∧ Q (.error S.dbError) w'')
    (hk : ∀ w' w'', Since G i [] w w' → w''.sh = w'.sh.say i [S.see t true w'.sh.db w'.sh.ext] →
      S.Held i w'' L ws → ReflTransGen G w'.sh w''.sh ∧ S.wp G i (f (q w'.sh.db)) Q w'') :
    S.wp G i ((Prog.call (.fresh (some t) q)).bind f) Q w := by
  intro w' hr ch r w'' he
  have h' := h.rely hr
  simp only [exec, label] at he
  split at he <;> cases he
  · exact hF w' _ hr.since rfl (h'.of_eq rfl rfl rfl)
  · exact hk w' _ hr.since rfl (h'.of_eq rfl rfl rfl)

omit [DecidableEq K] in
theorem Held.lockAll [DecidableEq K] (h : S.Held i w L ws) (ks : List K) :
    S.Held i (w.lockAll i ks) L ws ∧ ∀ k ∈ ks, (w.lockAll i ks).locks k = some i := by
  refine ⟨⟨h.sess, fun p hp => ?_, h.rows⟩, fun k hk => if_pos hk⟩
  simp only [World.lockAll]
  split
  · rfl
  · exact h.locks p hp

theorem wp_forUpdate {ρ : Type} {sel : D → List ρ} {key : ρ → K}
    {f : List ρ → Prog (Prim D K W T ε E) ε α} (h : S.Held i w L ws)
    (hE : ∀ w', Since G i [] w w' → (w'.sess i).failed = true → Q (.error S.dbError) w')
    (hk : ∀ w', Since G i [] w w' → S.Held i w' L ws →
      (∀ r ∈ sel (S.applyAll ws w'.sh.db), w'.locks (key r) = some i) →
      S.wp G i (f (sel (S.applyAll ws w'.sh.db))) Q w') :
    S.wp G i ((Prog.call (.forUpdate none sel key)).bind f) Q w := by
  intro w' hr ch r w'' he
  have h' := h.rely hr
  simp only [exec, h'.sess, h'.view, label, Bool.false_or] at he
  split at he
  · cases he; exact ⟨.refl, hE _ (hr.since.of_sh rfl) (by simp [World.fail, World.setSess])⟩
  · split at he <;> cases he
    obtain ⟨hh, hl⟩ := h'.lockAll ((sel (S.applyAll ws w'.sh.db)).map key)
    exact ⟨.refl, hk (w'.lockAll i _) (hr.since.of_sh rfl) hh fun r hr => hl _ (List.mem_map_of_mem hr)⟩

theorem wp_forUpdateAs {ρ : Type} {t : T} {sel : D → List ρ} {key : ρ → K}
    {f : List ρ → Prog (Prim D K W T ε E) ε α} (h : S.Held i w L ws)
    (hE : ∀ w', Since G i [] w w' → (w'.sess i).failed = true → Q (.error S.dbError) w')
    (hk : ∀ w' w'', Since G i [] w w' → w''.sh = w'.sh.say i [S.see t true w'.sh.db w'.sh.ext] →
      S.Held i w'' L ws → (∀ r ∈ sel (S.applyAll ws w'.sh.db), w''.locks (key r) = some i) →
      ReflTransGen G w'.sh w''.sh ∧ S.wp G i (f (sel (S.applyAll ws w'.sh.db))) Q w'') :
    S.wp G i ((Prog.call (.forUpdate (some t) sel key)).bind f) Q w := by
  intro w' hr ch r w'' he
  have h' := h.rely hr
  simp only [exec, h'.sess, h'.view, label, Bool.false_or] at he
  split at he
  · cases he; exact ⟨.refl, hE _ (hr.since.of_sh rfl) (by simp [World.fail, World.setSess])⟩
  · split at he <;> cases he
    have h'' : S.Held i (w'.say i [S.see t true w'.sh.db w'.sh.ext]) L ws := h'.of_eq rfl rfl rfl
    obtain ⟨hh, hl⟩ := h''.lockAll ((sel (S.applyAll ws w'.sh.db)).map key)
    exact hk w' _ hr.since rfl hh fun r hr => hl _ (List.mem_map_of_mem hr)

theorem wp_skipLocked {ρ : Type} {sel : D → List ρ} {key : ρ → K} {n : Nat}
    {f : List ρ → Prog (Prim D K W T ε E) ε α} (h : S.Held i w L ws)
    (hE : ∀ w', Since G i [] w w' → (w'.sess i).failed = true → Q (.error S.dbError) w')
    (hk : ∀ w' rows, Since G i [] w w' → S.Held i w' L ws →
      rows.Sublist (sel (S.applyAll ws w'.sh.db)) → (∀ r ∈ rows, w'.locks (key r) = some i) →
      S.wp G i (f rows) Q w') :
    S.wp G i ((Prog.call (.skipLocked sel key n)).bind f) Q w := by
  intro w' hr ch r w'' he
  have h' := h.rely hr
  simp only [exec, h'.sess, h'.view, Bool.false_or] at he
  split at he <;> cases he
  · exact ⟨.refl, hE _ (hr.since.of_sh rfl) (by simp [World.fail, World.setSess])⟩
  · obtain ⟨hh, hl⟩ := h'.lockAll
      ((((sel (S.applyAll ws w'.sh.db)).filter (w'.free i ∘ key)).take n).map key)
    exact ⟨.refl, hk _ _ (hr.since.of_sh rfl) hh
      ((List.take_sublist _ _).trans List.filter_sublist) fun r hr => hl _ (List.mem_map_of_mem hr)⟩

theorem wp_stmt {ks : D → List K} {fn : D → Except ε (List W)}
    {f : Nat → Prog (Prim D K W T ε E) ε α} (h : S.Held i w L ws)
    (hE : ∀ w', Since G i [] w w' → (w'.sess i).failed = true → Q (.error S.dbError) w')
    (hrej : ∀ w' w'' e, Since G i [] w w' → S.Held i w' L ws → fn (S.applyAll ws w'.sh.db) = .error e →
      w''.sh = w'.sh.say i [S.rejected e] →
      ReflTransGen G w'.sh w''.sh ∧ ((w''.sess i).failed = true → Q (.error e) w''))
    (hk : ∀ w' vs, Since G i [] w w' → fn (S.applyAll ws w'.sh.db) = .ok vs → S.Held i w' L (ws ++ vs) →
      (∀ k ∈ ks (S.applyAll ws w'.sh.db), w'.locks k = some i) →
      (∀ v ∈ vs, ∀ k ∈ S.keys v, w'.locks k = some i) → S.wp G i (f vs.length) Q w') :
    S.wp G i ((Prog.call (.stmt ks fn)).bind f) Q w := by
  intro w' hr ch r w'' he
  have h' := h.rely hr
  simp only [exec, h'.sess, h'.view, Bool.false_or] at he
  split at he
  · cases he; exact ⟨.refl, hE _ (hr.since.of_sh rfl) (by simp [World.fail, World.setSess])⟩
  · split at he
    · split at he
      · cases he
        rename_i e hfn
        have := hrej w' ((w'.say i [S.rejected e]).fail i) e hr.since h' hfn rfl
        exact ⟨this.1, this.2 (by simp [World.fail, World.setSess])⟩
      · split at he <;> cases he
        rename_i vs hfn _
        obtain ⟨hh, hl⟩ := h'.lockAll (ks (S.applyAll ws w'.sh.db) ++ vs.flatMap S.keys)
        refine ⟨.refl, hk _ vs (hr.since.of_sh rfl) hfn ⟨?_, hh.locks, hh.rows⟩
          (fun k hk => hl k (List.mem_append_left _ hk)) fun v hv k hk => hl k ?_⟩
        · simp [World.setSess]
        · exact List.mem_append_right _ (List.mem_flatMap.mpr ⟨v, hv, hk⟩)
    · cases he

theorem wp_commit {f : Unit → Prog (Prim D K W T ε E) ε α} (h : S.Held i w L ws)
    (hE : ∀ w', Since G i [] w w' → (w'.sess i).failed = true → Q (.error S.dbError) w')
    (hk : ∀ w' w'', Since G i [] w w' → S.Held i w' L ws →
      w''.sh = { w'.sh with db := S.applyAll ws w'.sh.db } → S.Held i w'' [] [] →
      ReflTransGen G w'.sh w''.sh ∧ S.wp G i (f ()) Q w'') :
    S.wp G i ((Prog.call (.commit none)).bind f) Q w := by
  intro w' hr ch r w'' he
  have h' := h.rely hr
  simp only [exec, h'.sess, h'.view, label, Bool.false_or] at he
  split at he <;> cases he
  · exact ⟨.refl, hE _ (hr.since.of_sh rfl) (by simp [World.fail, World.setSess])⟩
  · exact hk w' _ hr.since h' rfl (World.Idle.held (World.release_idle _ i))

theorem wp_commitAs {t : T} {f : Unit → Prog (Prim D K W T ε E) ε α} (h : S.Held i w L ws)
    (hE : ∀ w', Since G i [] w w' → (w'.sess i).failed = true → Q (.error S.dbError) w')
    (hk : ∀ w' w'', Since G i [] w w' → S.Held i w' L ws →
      w''.sh = { w'.sh.say i [S.see t true w'.sh.db w'.sh.ext] with db := S.applyAll ws w'.sh.db } →
      S.Held i w'' [] [] → ReflTransGen G w'.sh w''.sh ∧ S.wp G i (f ()) Q w'') :
    S.wp G i ((Prog.call (.commit (some t))).bind f) Q w := by
  intro w' hr ch r w'' he
  have h' := h.rely hr
  simp only [exec, h'.sess, h'.view, label, Bool.false_or] at he
  split at he <;> cases he
  · exact ⟨.refl, hE _ (hr.since.of_sh rfl) (by simp [World.fail, World.setSess])⟩
  · exact hk w' _ hr.since h' rfl (World.Idle.held (World.release_idle _ i))

theorem wp_rollback {f : Unit → Prog (Prim D K W T ε E) ε α}
    (hk : ∀ w', Since G i [] w w' → S.Held i w' [] [] → S.wp G i (f ()) Q w') :
    S.wp G i ((Prog.call .rollback).bind f) Q w := by
  intro w' hr ch r w'' he
  simp only [exec] at he
  cases he
  exact ⟨.refl, hk _ (hr.since.of_sh rfl) (World.Idle.held (World.release_idle _ i))⟩

theorem wp_eff {e : E β} {f : β → Prog (Prim D K W T ε E) ε α} (h : S.Held i w L ws)
    (hk : ∀ w' w'' ch, Since G i [] w w' → S.Held i w' L ws →
      w''.sh = { w'.sh.say i (S.handle ch e w'.sh.ext).2.2 with ext := (S.handle ch e w'.sh.ext).2.1 } →
      S.Held i w'' L ws → ReflTransGen G w'.sh w''.sh ∧
        S.wp G i ((Prog.ofExcept (S.handle ch e w'.sh.ext).1).bind f) Q w'') :
    S.wp G i ((Prog.call (.eff e)).bind f) Q w := by
  intro w' hr ch r w'' he
  have h' := h.rely hr
  simp only [exec] at he
  cases he
  exact hk w' _ ch hr.since h' rfl (h'.of_eq rfl rfl rfl)

theorem wp_freshQuiet {q : D → β} {f : β → Prog (Prim D K W T ε E) ε α} (h : S.Held i w L ws)
    (hF : ∀ w', Since G i [] w w' → S.Held i w' L ws → Q (.error S.dbError) w')
    (hk : ∀ w', Since G i [] w w' → S.Held i w' L ws → S.wp G i (f (q w'.sh.db)) Q w') :
    S.wp G i ((Prog.call (.fresh none q)).bind f) Q w := by
  intro w' hr ch r w'' he
  have h' := h.rely hr
  simp only [exec, label] at he
  split at he <;> cases he
  · exact ⟨.refl, hF w' hr.since h'⟩
  · exact ⟨.refl, hk w' hr.since h'⟩

/-! ## A failed transaction -/

/-- The outcomes of a program in a transaction that has failed: statements are
refused, and effects that are steps of `G` go on without a trace. -/
def Dead (S : Sys D X K W R T V C ε E) (G : Shared D X V → Shared D X V → Prop) (Φ : Except ε α → Prop) :
    Prog (Prim D K W T ε E) ε α → Prop
  | .ret a => Φ (.ok a)
  | .throw e => Φ (.error e)
  | .op (.read none _) k => Dead S G Φ (k (.error S.dbError))
  | .op (.forUpdate ..) k => Dead S G Φ (k (.error S.dbError))
  | .op (.skipLocked ..) k => Dead S G Φ (k (.error S.dbError))
  | .op (.stmt ..) k => Dead S G Φ (k (.error S.dbError))
  | .op (.commit _) k => Dead S G Φ (k (.error S.dbError))
  | .op (.eff e) k => ∀ ch (s : Shared D X V), (S.handle ch e s.ext).2.2 = [] ∧
      ReflTransGen G s { s with ext := (S.handle ch e s.ext).2.1 } ∧ Dead S G Φ (k (S.handle ch e s.ext).1)
  | .op _ _ => False

omit [DecidableEq K] in
/-- What rewrites only the end of a program takes its outcomes to others. -/
theorem Dead.map {Φ : Except ε α → Prop} {Ψ : Except ε β → Prop}
    {F : Prog (Prim D K W T ε E) ε α → Prog (Prim D K W T ε E) ε β}
    (hop : ∀ {γ : Type} (c : Prim D K W T ε E γ) k, F (.op c k) = .op c fun r => F (k r))
    (hret : ∀ a, Φ (.ok a) → S.Dead G Ψ (F (.ret a))) (hthrow : ∀ e, Φ (.error e) → S.Dead G Ψ (F (.throw e)))
    {p : Prog (Prim D K W T ε E) ε α} (h : S.Dead G Φ p) : S.Dead G Ψ (F p) := by
  induction p with
  | ret a => exact hret a h
  | throw e => exact hthrow e h
  | op c k ih =>
    rw [hop]
    cases c with
    | read t q => cases t with
      | none => exact ih _ h
      | some t => exact h.elim
    | eff e => exact fun ch s => ⟨(h ch s).1, (h ch s).2.1, ih _ (h ch s).2.2⟩
    | fresh t q => exact h.elim
    | rollback => exact h.elim
    | _ => exact ih _ h

omit [DecidableEq K] in
theorem Dead.bind {Φ : Except ε β → Prop} {f : α → Prog (Prim D K W T ε E) ε β}
    {p : Prog (Prim D K W T ε E) ε α} (h : S.Dead G (fun r => match r with
      | .ok a => S.Dead G Φ (f a)
      | .error e => Φ (.error e)) p) : S.Dead G Φ (p.bind f) :=
  h.map (F := (·.bind f)) (fun _ _ => rfl) (fun _ ha => ha) fun _ he => he

omit [DecidableEq K] in
theorem Dead.attempt {Φ : Except ε (Except ε α) → Prop} {p : Prog (Prim D K W T ε E) ε α}
    (h : S.Dead G (fun r => Φ (.ok r)) p) : S.Dead G Φ p.attempt :=
  h.map (F := Prog.attempt) (fun _ _ => rfl) (fun _ ha => ha) fun _ he => he

omit [DecidableEq K] in
theorem Dead.mono {Φ Φ' : Except ε α → Prop} (hΦ : ∀ r, Φ r → Φ' r) {p : Prog (Prim D K W T ε E) ε α}
    (h : S.Dead G Φ p) : S.Dead G Φ' p :=
  h.map (F := id) (fun _ _ => rfl) (fun a => hΦ (.ok a)) fun e => hΦ (.error e)

theorem wp_dead {Φ : Except ε α → Prop} (hQ : ∀ r w', Φ r → (w'.sess i).failed = true → Q r w')
    {p : Prog (Prim D K W T ε E) ε α} {w} (hd : S.Dead G Φ p) (h : (w.sess i).failed = true) : S.wp G i p Q w := by
  induction p generalizing w with
  | ret a => exact hQ _ _ hd h
  | throw e => exact hQ _ _ hd h
  | op c k ih =>
    intro w' hr ch r w'' he
    have h' : (w'.sess i).failed = true := by rw [hr.sess]; exact h
    have hf : ((w'.fail i).sess i).failed = true := by simp [World.fail, World.setSess]
    cases c with
    | read t q => cases t with
      | none =>
        simp only [exec, h', label, Bool.true_or, if_true] at he
        cases he; exact ⟨.refl, ih _ hd hf⟩
      | some t => exact hd.elim
    | eff e =>
      simp only [exec] at he
      cases he
      obtain ⟨hv, hg, hk⟩ := hd ch w'.sh
      refine ⟨?_, ih _ hk h'⟩
      simpa [World.say, Shared.say, hv] using hg
    | fresh t q => exact hd.elim
    | rollback => exact hd.elim
    | _ =>
      simp only [exec, h', Bool.true_or, if_true] at he
      cases he; exact ⟨.refl, ih _ hd hf⟩

end Sys
