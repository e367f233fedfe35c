import Veyaan.Lib.Tx

/-!
# Programs that lock in order

Each lock has a level, which may depend on whether its row is there. When a program
waits for a lock, the levels of all those it holds are below (`strict`), or at least not
above. If among the processes that have not ended one at most is not strict, they do
not all wait: the process that waits for the lock of the highest level waits for one
that can go on.

A new row is named by a number that a counter gave out. Nobody else knows it, so the
row is not there when its statement comes (`Fresh`).
-/

namespace Sys

variable {D X K W R T V C ε α β : Type} {E : Type → Type} (S : Sys D X K W R T V C ε E)

structure LockOrder where
  level : D → K → Nat
  level_pos : ∀ d k, 0 < level d k
  level_congr : ∀ {d d' k}, S.row k d = S.row k d' → level d k = level d' k
  name : K → Option Nat
  present : D → K → Prop
  present_congr : ∀ {d d' k}, S.row k d = S.row k d' → present d k → present d' k
  present_apply : ∀ {d k} w, present d k → present (S.apply w d) k
  next : X → Nat
  drawn : ∀ {β : Type}, E β → β → Option Nat
  drawn_new : ∀ {β : Type} {ch} {e : E β} {x b n}, (S.handle ch e x).1 = .ok b → drawn e b = some n →
    next x ≤ n ∧ n < next (S.handle ch e x).2.1
  next_handle : ∀ {β : Type} ch (e : E β) x, next x ≤ next (S.handle ch e x).2.1
  next_env : ∀ {d x x'}, S.env d x x' → next x ≤ next x'

namespace LockOrder

variable {S} (o : S.LockOrder) [DecidableEq K]

/-! ## Programs -/

def Above (strict : Bool) (H : List (K × Nat)) (d : D) (ks : List K) : Prop :=
  ∀ k ∈ ks, k ∈ H.map Prod.fst ∨ ∀ h ∈ H, if strict then h.2 < o.level d k else h.2 ≤ o.level d k

def hold (d : D) (ks : List K) (H : List (K × Nat)) : List (K × Nat) :=
  (ks.filter fun k => k ∉ H.map Prod.fst).map (fun k => (k, o.level d k)) ++ H

def Fresh (F : List Nat) (d : D) : Prop := ∀ n ∈ F, ∀ k, o.name k = some n → ¬ o.present d k

def Spends (F F' : List Nat) (d d' : D) : Prop :=
  (∀ n ∈ F', n ∈ F) ∧ ∀ k n, o.name k = some n → o.present d' k → o.present d k ∨ n ∈ F ∧ n ∉ F'

def meets (strict : Bool) : {β : Type} → Prim D K W T ε E β → (Except ε β → List Nat → List (K × Nat) → Prop) →
    List Nat → List (K × Nat) → Prop
  | _, .read _ q, Φ, F, H => Φ (.error S.dbError) F H ∧ ∀ d, Φ (.ok (q d)) F H
  | _, .fresh _ q, Φ, F, H => Φ (.error S.dbError) F H ∧ ∀ d, Φ (.ok (q d)) F H
  | _, .forUpdate _ sel key, Φ, F, H => Φ (.error S.dbError) F H ∧ ∀ d, o.Fresh F d →
      o.Above strict H d ((sel d).map key) ∧ Φ (.ok (sel d)) F (o.hold d ((sel d).map key) H)
  | _, .skipLocked sel key n, Φ, F, H => Φ (.error S.dbError) F H ∧ ∀ d rows, o.Fresh F d → rows.Sublist (sel d) →
      rows.length ≤ n → Φ (.ok rows) F (o.hold d (rows.map key) H)
  | _, .stmt ks f, Φ, F, H => Φ (.error S.dbError) F H ∧ ∀ d, o.Fresh F d →
      o.Above strict H d (ks d) ∧ match f d with
        | .error e => Φ (.error e) F H
        | .ok ws => o.Above strict H d (ks d ++ ws.flatMap S.keys) ∧ ∃ F', o.Spends F F' d (S.applyAll ws d) ∧
            Φ (.ok ws.length) F' (o.hold d (ks d ++ ws.flatMap S.keys) H)
  | _, .commit _, Φ, F, H => Φ (.error S.dbError) F H ∧ Φ (.ok ()) F []
  | _, .rollback, Φ, F, _ => Φ (.ok ()) F []
  | _, .eff e, Φ, F, H => (∀ err, Φ (.error err) F H) ∧ ∀ b, Φ (.ok b) ((o.drawn e b).toList ++ F) H

def Ordered (strict : Bool) : Prog (Prim D K W T ε E) ε α → (Except ε α → List Nat → List (K × Nat) → Prop) →
    List Nat → List (K × Nat) → Prop
  | .ret a, Q, F, H => Q (.ok a) F H
  | .throw e, Q, F, H => Q (.error e) F H
  | .op c k, Q, F, H => o.meets strict c (fun r F H => Ordered strict (k r) Q F H) F H

section
variable {o} {strict : Bool} {F : List Nat} {H : List (K × Nat)}

theorem meets_mono {c : Prim D K W T ε E β} {Φ Φ' : Except ε β → List Nat → List (K × Nat) → Prop}
    (h : ∀ r F H, Φ r F H → Φ' r F H) (hc : o.meets strict c Φ F H) : o.meets strict c Φ' F H := by
  cases c with
  | read => exact ⟨h _ _ _ hc.1, fun d => h _ _ _ (hc.2 d)⟩
  | fresh => exact ⟨h _ _ _ hc.1, fun d => h _ _ _ (hc.2 d)⟩
  | forUpdate => exact ⟨h _ _ _ hc.1, fun d hd => ⟨(hc.2 d hd).1, h _ _ _ (hc.2 d hd).2⟩⟩
  | skipLocked => exact ⟨h _ _ _ hc.1, fun d rows hd hs hn => h _ _ _ (hc.2 d rows hd hs hn)⟩
  | stmt ks f =>
    refine ⟨h _ _ _ hc.1, fun d hd => ⟨(hc.2 d hd).1, ?_⟩⟩
    have := (hc.2 d hd).2
    split at this
    · exact h _ _ _ this
    · obtain ⟨ha, F', hs, hk⟩ := this
      exact ⟨ha, F', hs, h _ _ _ hk⟩
  | commit => exact ⟨h _ _ _ hc.1, h _ _ _ hc.2⟩
  | rollback => exact h _ _ _ hc
  | eff => exact ⟨fun err => h _ _ _ (hc.1 err), fun b => h _ _ _ (hc.2 b)⟩

theorem Ordered.mono {Q Q' : Except ε α → List Nat → List (K × Nat) → Prop} (h : ∀ r F H, Q r F H → Q' r F H) :
    ∀ {p : Prog (Prim D K W T ε E) ε α} {F H}, o.Ordered strict p Q F H → o.Ordered strict p Q' F H
  | .ret _, _, _, hp => h _ _ _ hp
  | .throw _, _, _, hp => h _ _ _ hp
  | .op _ _, _, _, hp => meets_mono (fun _ _ _ hk => hk.mono h) hp

theorem ordered_bind {f : α → Prog (Prim D K W T ε E) ε β} {Q : Except ε β → List Nat → List (K × Nat) → Prop} :
    ∀ {p : Prog (Prim D K W T ε E) ε α} {F H}, o.Ordered strict p (fun r F H => match r with
      | .ok a => o.Ordered strict (f a) Q F H
      | .error e => Q (.error e) F H) F H → o.Ordered strict (p.bind f) Q F H
  | .ret _, _, _, h => h
  | .throw _, _, _, h => h
  | .op _ _, _, _, h => meets_mono (fun _ _ _ hk => ordered_bind hk) h

theorem ordered_attempt {Q : Except ε (Except ε α) → List Nat → List (K × Nat) → Prop} :
    ∀ {p : Prog (Prim D K W T ε E) ε α} {F H}, o.Ordered strict p (fun r => Q (.ok r)) F H →
    o.Ordered strict p.attempt Q F H
  | .ret _, _, _, h => h
  | .throw _, _, _, h => h
  | .op _ _, _, _, h => meets_mono (fun _ _ _ hk => ordered_attempt hk) h

end

/-! ## Levels and known locks

A program is followed with the highest level `n` of its locks and some of the locks it
is known to hold, `L`. -/

def Top (n : Nat) (H : List (K × Nat)) : Prop := ∀ h ∈ H, 0 < h.2 ∧ h.2 ≤ n

def Over (strict : Bool) (n : Nat) (L : List K) (d : D) (ks : List K) : Prop :=
  ∀ k ∈ ks, k ∈ L ∨ if strict then n < o.level d k else n ≤ o.level d k

def Orders (strict : Bool) (n : Nat) (L : List K) (p : Prog (Prim D K W T ε E) ε α)
    (Q : Except ε α → Nat → List K → Prop) : Prop :=
  ∀ F H, Top n H → (∀ k ∈ L, k ∈ H.map Prod.fst) → o.Ordered strict p (fun r _ H' =>
    ∃ n' L', Q r n' L' ∧ Top n' H' ∧ ∀ k ∈ L', k ∈ H'.map Prod.fst) F H

section
variable {o} {strict : Bool} {n n' m : Nat} {L L' : List K} {H : List (K × Nat)} {d : D} {ks : List K}

theorem mem_hold {k : K} : k ∈ (o.hold d ks H).map Prod.fst ↔ k ∈ ks ∨ k ∈ H.map Prod.fst := by
  have hkeys : (o.hold d ks H).map Prod.fst = (ks.filter fun k => k ∉ H.map Prod.fst) ++ H.map Prod.fst := by
    rw [hold, List.map_append, List.map_map]
    exact congrArg (· ++ _) (List.map_id _)
  rw [hkeys, List.mem_append, List.mem_filter]
  by_cases hk : k ∈ H.map Prod.fst
  · exact iff_of_true (.inr hk) (.inr hk)
  · simp only [hk, not_false_eq_true, decide_true, and_true, or_false]

omit [DecidableEq K] in
theorem Top.nil : Top (K := K) n [] := nofun

omit [DecidableEq K] in
theorem Top.eq_nil (h : Top 0 H) : H = [] := by
  refine List.eq_nil_iff_forall_not_mem.mpr fun x hx => ?_
  obtain ⟨hpos, hle⟩ := h x hx
  omega

omit [DecidableEq K] in
theorem Top.mono (h : Top n H) (hn : n ≤ n') : Top n' H := fun x hx => ⟨(h x hx).1, Nat.le_trans (h x hx).2 hn⟩

theorem Top.hold (h : Top n H) (hn : n ≤ m) (hks : ∀ k ∈ ks, k ∈ H.map Prod.fst ∨ o.level d k ≤ m) :
    Top m (o.hold d ks H) := by
  intro x hx
  rcases List.mem_append.mp hx with hx | hx
  · obtain ⟨k, hk, rfl⟩ := List.mem_map.mp hx
    obtain ⟨hk, hnew⟩ := List.mem_filter.mp hk
    exact ⟨o.level_pos d k, (hks k hk).resolve_left (of_decide_eq_true hnew)⟩
  · exact h.mono hn x hx

omit [DecidableEq K] in
theorem Over.above (h : o.Over strict n L d ks) (ht : Top n H) (hL : ∀ k ∈ L, k ∈ H.map Prod.fst) :
    o.Above strict H d ks := by
  intro k hk
  refine (h k hk).imp (hL k) fun hn x hx => ?_
  have := (ht x hx).2
  by_cases hs : strict = true
  · rw [if_pos hs] at hn ⊢
    omega
  · rw [if_neg hs] at hn ⊢
    omega

omit [DecidableEq K] in
theorem Over.known (h : ∀ k ∈ ks, k ∈ L) : o.Over strict n L d ks := fun k hk => .inl (h k hk)

omit [DecidableEq K] in
theorem Over.of_lt (h : ∀ k ∈ ks, n < o.level d k) : o.Over strict n L d ks := by
  intro k hk
  right
  split
  · exact h k hk
  · exact Nat.le_of_lt (h k hk)

variable {p : Prog (Prim D K W T ε E) ε α} {Q Q' : Except ε α → Nat → List K → Prop}

theorem Orders.mono (h : o.Orders strict n L p Q) (hQ : ∀ r n L, Q r n L → Q' r n L) : o.Orders strict n L p Q' :=
  fun F H ht hL => (h F H ht hL).mono fun _ _ _ ⟨n', L', hq, hr⟩ => ⟨n', L', hQ _ _ _ hq, hr⟩

theorem Orders.weaken (h : o.Orders strict n' L' p Q) (hn : n ≤ n') (hL : ∀ k ∈ L', k ∈ L) :
    o.Orders strict n L p Q :=
  fun F H ht hH => h F H (ht.mono hn) fun k hk => hH k (hL k hk)

theorem orders_ret {a : α} (h : Q (.ok a) n L) : o.Orders strict n L (.ret a) Q :=
  fun _ _ ht hL => ⟨n, L, h, ht, hL⟩

theorem orders_throw {e : ε} (h : Q (.error e) n L) : o.Orders strict n L (.throw e) Q :=
  fun _ _ ht hL => ⟨n, L, h, ht, hL⟩

theorem orders_bind {f : α → Prog (Prim D K W T ε E) ε β} {Q : Except ε β → Nat → List K → Prop}
    (h : o.Orders strict n L p fun r n' L' => match r with
      | .ok a => o.Orders strict n' L' (f a) Q
      | .error e => Q (.error e) n' L') : o.Orders strict n L (p.bind f) Q := by
  refine fun F H ht hL => ordered_bind ((h F H ht hL).mono fun r F' H' hr => ?_)
  obtain ⟨n', L', hq, ht', hL'⟩ := hr
  cases r with
  | ok a => exact hq F' H' ht' hL'
  | error e => exact ⟨n', L', hq, ht', hL'⟩

theorem orders_attempt {Q : Except ε (Except ε α) → Nat → List K → Prop}
    (h : o.Orders strict n L p fun r => Q (.ok r)) :
    o.Orders strict n L p.attempt Q :=
  fun F H ht hL => ordered_attempt (h F H ht hL)

def Upto (m : Nat) (M : List K) : Except ε α → Nat → List K → Prop := fun _ n L => n ≤ m ∧ ∀ k ∈ M, k ∈ L

omit [DecidableEq K] in
theorem upto_self {r : Except ε α} : Upto n L r n L := ⟨Nat.le_refl _, fun _ h => h⟩

theorem orders_seq {M : List K} {f : α → Prog (Prim D K W T ε E) ε β} {Q : Except ε β → Nat → List K → Prop}
    (hp : o.Orders strict n L p (Upto m M)) (hf : ∀ a, o.Orders strict m M (f a) Q)
    (hE : ∀ e n L, n ≤ m → (∀ k ∈ M, k ∈ L) → Q (.error e) n L) : o.Orders strict n L (p.bind f) Q := by
  refine orders_bind (hp.mono fun r n' L' hr => ?_)
  cases r with
  | ok a => exact (hf a).weaken hr.1 hr.2
  | error e => exact hE e n' L' hr.1 hr.2

theorem orders_upto {M N : List K} {l : Nat} {f : α → Prog (Prim D K W T ε E) ε β}
    (hp : o.Orders strict n L p (Upto m M))
    (hf : ∀ a, o.Orders strict m M (f a) (Upto l N)) (hl : m ≤ l) (hN : ∀ k ∈ N, k ∈ M) :
    o.Orders strict n L (p.bind f) (Upto l N) :=
  orders_seq hp hf fun _ _ _ hn hM => ⟨Nat.le_trans hn hl, fun k hk => hM k (hN k hk)⟩

theorem orders_call {c : Prim D K W T ε E α} (h : ∀ F H, Top n H → (∀ k ∈ L, k ∈ H.map Prod.fst) →
    o.meets strict c (fun r _ H' => ∃ n' L', Q r n' L' ∧ Top n' H' ∧ ∀ k ∈ L', k ∈ H'.map Prod.fst) F H) :
    o.Orders strict n L (.call c) Q := by
  refine fun F H ht hL => meets_mono (fun r F' H' hr => ?_) (h F H ht hL)
  cases r with
  | ok a => exact hr
  | error e => exact hr

theorem orders_read {t : Option T} {q : D → α} (h : ∀ r, Q r n L) : o.Orders strict n L (.call (.read t q)) Q :=
  orders_call fun _ _ ht hL => ⟨⟨n, L, h _, ht, hL⟩, fun _ => ⟨n, L, h _, ht, hL⟩⟩

theorem orders_fresh {t : Option T} {q : D → α} (h : ∀ r, Q r n L) : o.Orders strict n L (.call (.fresh t q)) Q :=
  orders_call fun _ _ ht hL => ⟨⟨n, L, h _, ht, hL⟩, fun _ => ⟨n, L, h _, ht, hL⟩⟩

theorem orders_eff {e : E α} (h : ∀ r, Q r n L) : o.Orders strict n L (.call (.eff e)) Q :=
  orders_call fun _ _ ht hL => ⟨fun _ => ⟨n, L, h _, ht, hL⟩, fun _ => ⟨n, L, h _, ht, hL⟩⟩

theorem orders_commit {t : Option T} {Q : Except ε Unit → Nat → List K → Prop} (hE : Q (.error S.dbError) n L)
    (h : Q (.ok ()) 0 []) : o.Orders strict n L (.call (.commit t)) Q :=
  orders_call fun _ _ ht hL => ⟨⟨n, L, hE, ht, hL⟩, 0, [], h, .nil, nofun⟩

theorem orders_rollback {Q : Except ε Unit → Nat → List K → Prop} (h : Q (.ok ()) 0 []) :
    o.Orders strict n L (.call .rollback) Q :=
  orders_call fun _ _ _ _ => ⟨0, [], h, .nil, nofun⟩

variable {ρ : Type}

theorem orders_forUpdate {t : Option T} {sel : D → List ρ} {key : ρ → K}
    {Q : Except ε (List ρ) → Nat → List K → Prop}
    (hE : Q (.error S.dbError) n L) (h : ∀ d, o.Over strict n L d ((sel d).map key) ∧
      ∃ m, n ≤ m ∧ (∀ k ∈ (sel d).map key, o.level d k ≤ m) ∧ Q (.ok (sel d)) m ((sel d).map key ++ L)) :
    o.Orders strict n L (.call (.forUpdate t sel key)) Q := by
  refine orders_call fun F H ht hL => ⟨⟨n, L, hE, ht, hL⟩, fun d _ => ?_⟩
  obtain ⟨hover, m, hn, hlev, hq⟩ := h d
  refine ⟨hover.above ht hL, m, _, hq, ht.hold hn fun k hk => .inr (hlev k hk), ?_⟩
  exact fun k hk => mem_hold.mpr ((List.mem_append.mp hk).imp_right (hL k))

theorem orders_skipLocked {sel : D → List ρ} {key : ρ → K} {l : Nat} {Q : Except ε (List ρ) → Nat → List K → Prop}
    (hE : Q (.error S.dbError) n L) (hn : n ≤ m) (h : ∀ d rows, rows.Sublist (sel d) →
      (∀ k ∈ rows.map key, o.level d k ≤ m) ∧ Q (.ok rows) m (rows.map key ++ L)) :
    o.Orders strict n L (.call (.skipLocked sel key l)) Q := by
  refine orders_call fun F H ht hL => ⟨⟨n, L, hE, ht, hL⟩, fun d rows _ hs _ => ⟨m, _, (h d rows hs).2, ?_, ?_⟩⟩
  · exact ht.hold hn fun k hk => .inr ((h d rows hs).1 k hk)
  · exact fun k hk => mem_hold.mpr ((List.mem_append.mp hk).imp_right (hL k))

/-- The rows that are written are locked, and no row is new that takes its name from the counter. -/
theorem orders_stmt {f : D → Except ε (List W)} {ks : D → List K} {Q : Except ε Nat → Nat → List K → Prop}
    (hE : ∀ e, Q (.error e) n L) (hn : n ≤ m) (h : ∀ d, o.Over strict n L d (ks d) ∧ ∀ ws, f d = .ok ws →
      (∀ k ∈ ws.flatMap S.keys, k ∈ ks d) ∧ (∀ k ∈ ks d, k ∈ L ∨ o.level d k ≤ m) ∧
      (∀ k i, o.name k = some i → o.present (S.applyAll ws d) k → o.present d k) ∧
      Q (.ok ws.length) m (ks d ++ L)) :
    o.Orders strict n L (.call (.stmt ks f)) Q := by
  refine orders_call fun F H ht hL => ⟨⟨n, L, hE _, ht, hL⟩, fun d _ => ⟨(h d).1.above ht hL, ?_⟩⟩
  cases hf : f d with
  | error e => exact ⟨n, L, hE e, ht, hL⟩
  | ok ws =>
    obtain ⟨hks, hlev, hnew, hq⟩ := (h d).2 ws hf
    have hall : ∀ k ∈ ks d ++ ws.flatMap S.keys, k ∈ ks d := fun k hk => (List.mem_append.mp hk).elim id (hks k)
    refine ⟨fun k hk => (h d).1.above ht hL k (hall k hk), F,
      ⟨fun _ h => h, fun k i hk hpr => .inl (hnew k i hk hpr)⟩, m, _, hq, ?_, ?_⟩
    · exact ht.hold hn fun k hk => (hlev k (hall k hk)).imp_left (hL k)
    · exact fun k hk => mem_hold.mpr ((List.mem_append.mp hk).imp (List.mem_append_left _) (hL k))

theorem Orders.ordered {Q : Except ε α → Nat → List K → Prop} (h : o.Orders strict 0 [] p Q)
    (hQ : ∀ r n L, Q r n L → n = 0) :
    o.Ordered strict p (fun _ _ H => H = []) [] [] :=
  (h [] [] .nil nofun).mono fun _ _ _ ⟨_, _, hq, ht, _⟩ => Top.eq_nil (hQ _ _ _ hq ▸ ht)

end

end LockOrder

end Sys
