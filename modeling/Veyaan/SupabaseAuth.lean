import Veyaan.FirstRequest
import Veyaan.Lib.Calls
import Veyaan.Lib.Python

/-!
# The keys of the issuer

`SupabaseAuth` checks tokens with the keys that the issuer publishes. It keeps the
document with the keys for an hour. The requests of one process share it and take turns
where they await the issuer: an answer may be old when its request goes on, and a slow
answer takes the place of one that was asked for later. The check asks the token library
for an attribute that it does not have, so a token whose key is in the document is not
accepted either.
-/

open Relation (ReflTransGen)

namespace Veyaan

namespace Auth

open Python (Text Value)

/-! ## One token -/

inductive JoseError where
  | expiredSignature
  | jwtError (message : String)
  | other (e : Err)

structure Jose (Key : Type) where
  /-- `jwt.get_unverified_header(token)`. -/
  getUnverifiedHeader : String → Except JoseError (List (Text × Value))
  /-- `jwt.decode(token, key, …)` at this time. -/
  decode : String → Key → Time → Except JoseError (List (Text × Value))
  /-- `TokenClaims(**payload)`, or a `ValidationError`. -/
  tokenClaims : List (Text × Value) → Option TokenClaims

inductive AuthError where
  | invalidToken (message : String)
  | expiredToken (message : String)
  | http
  | raised (e : Err)

/-- The `except` clauses of `verify_token`. -/
def JoseError.translate : JoseError → AuthError
  | .expiredSignature => .expiredToken "Token has expired"
  | .jwtError message => .invalidToken ("Invalid token: " ++ message)
  | .other e => .raised e

/-- `jwt.algorithms.RSAAlgorithm.from_jwk`. The module `jose.jwt` has no attribute
`algorithms`. -/
def rsaFromJwk {Key : Type} : Except JoseError (List (Text × Value) → Except JoseError Key) :=
  .error (.other .attributeError)

/-- The loop of `_find_key`. -/
def findKeyIn {Key : Type} (kid : Value) : List Value → Except JoseError (Option Key)
  | [] => .ok none
  | .dict key :: keys =>
    if ((Python.get key "kid").getD .none).eq kid then do
      let fromJwk ← rsaFromJwk
      (fromJwk key).map some
    else findKeyIn kid keys
  | _ :: _ => .error (.other .attributeError)

def findKey {Key : Type} (jwks kid : Value) : Except JoseError (Option Key) :=
  match jwks with
  | .dict fields =>
    match ((Python.get fields "keys").getD (.list [])).elements with
    | some keys => findKeyIn kid keys
    | none => .error (.other .typeError)
  | _ => .error (.other .attributeError)

section
variable {Key : Type} (J : Jose Key)

/-- `verify_token` from where it has the document. Nothing is awaited here. -/
def verifyWith (jwks : Value) (token : String) (now : Time) : Except AuthError TokenClaims := do
  let header ← (J.getUnverifiedHeader token).mapError JoseError.translate
  match ← (findKey jwks ((Python.get header "kid").getD .none)).mapError JoseError.translate with
  | none => throw (.invalidToken "Invalid token key")
  | some key =>
    let payload ← (J.decode token key now).mapError JoseError.translate
    match J.tokenClaims payload with
    | some claims => return claims
    | none => throw (.raised .validation)

def Holds (jwks kid : Value) (key : List (Text × Value)) : Prop :=
  ∃ fields keys, jwks = .dict fields ∧ ((Python.get fields "keys").getD (.list [])).elements =
    some keys ∧ .dict key ∈ keys ∧
    ((Python.get key "kid").getD .none).eq kid = true

theorem findKeyIn_none {kid : Value} {k : Key} : ∀ keys : List Value, findKeyIn kid keys ≠ .ok (some k)
  | [] => by simp [findKeyIn]
  | v :: keys => by
    cases v with
    | dict key =>
      simp only [findKeyIn]
      split
      · intro h
        cases h
      · exact findKeyIn_none keys
    | _ =>
      intro h
      cases h

/-- No key is ever found. -/
theorem findKey_none {jwks kid : Value} {k : Key} : findKey jwks kid ≠ .ok (some k) := by
  unfold findKey
  split
  · split
    · exact findKeyIn_none _
    · intro h
      cases h
  · intro h
    cases h

theorem findKeyIn_known {kid : Value} {key : List (Text × Value)}
    (hkid : ((Python.get key "kid").getD .none).eq kid = true) : ∀ {keys : List Value}, .dict key ∈ keys →
      (findKeyIn kid keys : Except JoseError (Option Key)) = .error (.other .attributeError)
  | v :: keys, h => by
    cases v with
    | dict key' =>
      simp only [findKeyIn]
      split
      · rfl
      · rename_i hno
        rcases List.mem_cons.mp h with h | h
        · cases h
          exact absurd hkid hno
        · exact findKeyIn_known hkid h
    | _ => rfl

theorem findKey_known {jwks kid : Value} {key : List (Text × Value)} (h : Holds jwks kid key) :
    (findKey jwks kid : Except JoseError (Option Key)) = .error (.other .attributeError) := by
  obtain ⟨fields, keys, rfl, he, hmem, hkid⟩ := h
  simp only [findKey, he]
  exact findKeyIn_known hkid hmem

def Known (jwks : Value) (token : String) : Prop :=
  ∃ header key, J.getUnverifiedHeader token = .ok header ∧ Holds jwks ((Python.get header "kid").getD .none) key

/-- Every token is refused, and one with a known key by an exception that nothing turns
into an answer. -/
theorem verifyWith_refused (jwks : Value) (token : String) (now : Time) :
    ∃ e, verifyWith J jwks token now = .error e ∧
    (Known J jwks token → e = .raised .attributeError) := by
  unfold verifyWith Known
  cases hheader : J.getUnverifiedHeader token with
  | error e =>
    refine ⟨e.translate, rfl, ?_⟩
    rintro ⟨header, key, h, -⟩
    cases h
  | ok header =>
    simp only [Except.mapError, bind, Except.bind]
    cases hfind : (findKey jwks ((Python.get header "kid").getD .none) : Except JoseError (Option Key)) with
    | error e =>
      refine ⟨e.translate, rfl, ?_⟩
      rintro ⟨_, key, h, hholds⟩
      cases h
      rw [findKey_known hholds] at hfind
      cases hfind
      rfl
    | ok found =>
      cases found with
      | some k => exact absurd hfind findKey_none
      | none =>
        refine ⟨.invalidToken "Invalid token key", rfl, ?_⟩
        rintro ⟨_, key, h, hholds⟩
        cases h
        rw [findKey_known hholds] at hfind
        cases hfind

end

/-! ## The requests of one process -/

structure Ext where
  jwksCache : Option Value
  jwksFetchedAt : Time
  clock : Time

/-- The document while it is not older than an hour. One that counts as false is not
there. -/
def Ext.fresh (x : Ext) : Option Value :=
  x.jwksCache.filter fun jwks => jwks.truthy && decide (x.clock - x.jwksFetchedAt < 3600 * 1000000)

inductive Ev where
  | answered (t : Time)
  | kept (t : Time)
  | checked (jwks : Value) (t : Time)
  | rejected (e : AuthError)

inductive Eff : Type → Type
  /-- The start of `verify_token`, to its end where nothing is awaited. -/
  | look (token : String) : Eff (Option (Except AuthError TokenClaims))
  /-- `client.get`, and the document of the response. -/
  | get : Eff Value
  /-- The end of `get_jwks` after a response, and the rest of `verify_token`. -/
  | keep (token : String) (jwks : Value) : Eff (Except AuthError TokenClaims)

/-- The token library, and what the issuer answers at which time: a document, or
something that raises. -/
structure Setting (Key : Type) where
  jose : Jose Key
  served : Time → Option Value

section
variable {Key : Type} (G : Setting Key)

def Eff.handle (ch : Bool) : {β : Type} → Eff β → Ext → Except AuthError β × Ext × List Ev
  | _, .look token, x =>
    match x.fresh with
    | some jwks => (.ok (some (verifyWith G.jose jwks token x.clock)), x, [.checked jwks x.clock])
    | none => (.ok none, x, [])
  | _, .get, x =>
    match if ch then G.served x.clock else none with
    | some jwks => (.ok jwks, x, [.answered x.clock])
    | none => (.error .http, x, [])
  | _, .keep token jwks, x =>
    (.ok (verifyWith G.jose jwks token x.clock), { x with jwksCache := some jwks, jwksFetchedAt := x.clock },
      [.kept x.clock, .checked jwks x.clock])

abbrev Stmt := Prim Unit Empty Empty Empty AuthError Eff
abbrev Op := Prog Stmt AuthError

def effect {α : Type} (e : Eff α) : Op α := .call (.eff e)

/-- The rest of `verify_token` without a fresh document. -/
def fetch (token : String) : Op TokenClaims := do
  let jwks ← effect .get
  let r ← effect (.keep token jwks)
  Prog.ofExcept r

def verifyToken (token : String) : Op TokenClaims := do
  match ← effect (.look token) with
  | some r => Prog.ofExcept r
  | none => fetch token

theorem rows_framed : ∀ (w : Empty) (_d : Unit) (k : Empty), k ∉ (w.elim : List Empty) → () = () := fun w => w.elim

theorem rows_set : ∀ (w : Empty) (_d _d' : Unit) (k : Empty), k ∈ (w.elim : List Empty) → () = () := fun w => w.elim

def sys : Sys Unit Ext Empty Empty Unit Empty Ev String AuthError Eff where
  apply w := w.elim
  keys w := w.elim
  row _ _ := ()
  frame := rows_framed
  sets := rows_set
  see t := t.elim
  rejected := .rejected
  handle ch e x := e.handle G ch x
  dbError := .http
  code token := (verifyToken token).bind fun _ => .ret ()
  admits _ _ _ := True
  env _ x x' := x.clock ≤ x'.clock ∧ x'.jwksCache = x.jwksCache ∧ x'.jwksFetchedAt = x.jwksFetchedAt

/-- `__init__`. -/
def Init (_ : Unit) (x : Ext) : Prop := x.jwksCache = none ∧ x.jwksFetchedAt = 0

abbrev Conf := Sys.Config Unit Ext Empty Empty Empty Ev String AuthError Eff
abbrev Trace := List (Nat × Ev)

/-! ## Where a request stands -/

inductive At (token : String) (l : List Ev) : Op Unit → Prop
  | start : At token l ((verifyToken token).bind fun _ => .ret ())
  | asks : At token l ((fetch token).bind fun _ => .ret ())
  | holds {jwks t} : G.served t = some jwks → .answered t ∈ l →
      At token l (((effect (.keep token jwks)).bind Prog.ofExcept).bind fun _ => .ret ())
  | unserved : At token l (.throw .http)
  | refused {jwks t e} : .checked jwks t ∈ l → verifyWith G.jose jwks token t = .error e → At token l (.throw e)

inductive Goes (l : List Ev) (x : Ext) : Ext → List Ev → Prop
  | quiet : Goes l x x []
  | looks {jwks} : x.fresh = some jwks → Goes l x x [.checked jwks x.clock]
  | answered : Goes l x x [.answered x.clock]
  | keeps {jwks t} : G.served t = some jwks → .answered t ∈ l →
      Goes l x { x with jwksCache := some jwks, jwksFetchedAt := x.clock } [.kept x.clock, .checked jwks x.clock]

variable {G} {c c' : Conf}

theorem At.ended {token : String} {l : List Ev} {jwks : Value} {t : Time} (h : .checked jwks t ∈ l) :
    At G token l ((Prog.ofExcept (verifyWith G.jose jwks token t)).bind fun _ => .ret ()) := by
  obtain ⟨e, he, -⟩ := verifyWith_refused G.jose jwks token t
  rw [he]
  exact .refused h he

theorem exec_eff {i : Nat} {ch : Bool} {w w' : World Unit Ext Empty Empty Ev} {β : Type} {e : Eff β} {r}
    (h : (sys G).exec i ch (.eff e) w = some (r, w')) : r = (e.handle G ch w.sh.ext).1 ∧
      w'.sh.ext = (e.handle G ch w.sh.ext).2.1 ∧
      w'.sh.trace = w.sh.trace ++ (e.handle G ch w.sh.ext).2.2.map (i, ·) := by
  simp only [Sys.exec] at h
  cases h
  exact ⟨rfl, rfl, rfl⟩

theorem At.goes {token : String} {l : List Ev} {β : Type} {s : Stmt β} {k} {i : Nat} {ch : Bool}
    {w w' : World Unit Ext Empty Empty Ev} {r}
    (h : At G token l (.op s k)) (he : (sys G).exec i ch s w = some (r, w')) :
    ∃ vs, Goes G l w.sh.ext w'.sh.ext vs ∧ w'.sh.trace = w.sh.trace ++ vs.map (i, ·) ∧
    At G token (l ++ vs) (k r) := by
  generalize hp : Prog.op s k = p at h
  cases h with
  | start =>
    cases hp
    obtain ⟨rfl, hx, ht⟩ := exec_eff he
    simp only [Eff.handle] at hx ht ⊢
    cases hf : w.sh.ext.fresh with
    | some jwks =>
      simp only [hf] at hx ht ⊢
      rw [hx]
      exact ⟨_, .looks hf, ht, At.ended (List.mem_append_right _ (List.mem_singleton.mpr rfl))⟩
    | none =>
      simp only [hf] at hx ht ⊢
      rw [hx]
      exact ⟨[], .quiet, ht, .asks⟩
  | asks =>
    cases hp
    obtain ⟨rfl, hx, ht⟩ := exec_eff he
    simp only [Eff.handle] at hx ht ⊢
    cases hs : if ch then G.served w.sh.ext.clock else none with
    | some jwks =>
      have hserved : G.served w.sh.ext.clock = some jwks := by
        cases ch with
        | true => simpa using hs
        | false => cases hs
      simp only [hs] at hx ht ⊢
      rw [hx]
      refine ⟨_, .answered, ht, .holds hserved ?_⟩
      exact List.mem_append_right _ (List.mem_singleton.mpr rfl)
    | none =>
      simp only [hs] at hx ht ⊢
      rw [hx]
      exact ⟨[], .quiet, ht, .unserved⟩
  | holds hs ha =>
    cases hp
    obtain ⟨rfl, hx, ht⟩ := exec_eff he
    simp only [Eff.handle] at hx ht ⊢
    rw [hx]
    exact ⟨_, .keeps hs ha, ht, At.ended (List.mem_append_right _ (by simp))⟩
  | unserved => cases hp
  | refused => cases hp

theorem placed {i : Nat} {p : Sys.Proc Unit Empty Empty Empty String AuthError Eff} (h : (sys G).Reachable Init c)
    (hp : c.procs[i]? = some p) :
    At G p.call (own i c.world.sh.trace) p.prog := by
  refine Sys.Reachable.history (Ψ := At G) (fun _ => .start) ?_ h hp
  intro call l β s k i ch r vs w w' ha he ht _
  obtain ⟨vs', -, ht', hk⟩ := ha.goes he
  have hvs : vs = vs' := by
    rw [ht, List.append_cancel_left_eq] at ht'
    have hinj : Function.Injective (Prod.mk i : Ev → Nat × Ev) := fun a b hab => (Prod.mk.inj hab).2
    exact List.map_injective_iff.mpr hinj ht'
  rw [hvs]
  exact hk

theorem step_goes (h : (sys G).Reachable Init c) (hs : (sys G).Step c c') :
    (c'.world.sh.trace = c.world.sh.trace ∧ ∃ t, c.world.sh.ext.clock ≤ t ∧
      c'.world.sh.ext = { c.world.sh.ext with clock := t }) ∨
      ∃ i vs, Goes G (own i c.world.sh.trace) c.world.sh.ext c'.world.sh.ext vs ∧
        c'.world.sh.trace = c.world.sh.trace ++ vs.map (i, ·) := by
  cases hs with
  | @run w w' ps i call _ s k ch r hp he =>
    obtain ⟨vs, hg, ht, -⟩ := (placed h hp).goes he
    exact .inr ⟨i, vs, hg, ht⟩
  | start => exact .inl ⟨rfl, _, Nat.le_refl _, rfl⟩
  | @env w ps x hx =>
    refine .inl ⟨rfl, x.clock, hx.1, ?_⟩
    simp only [← hx.2.1, ← hx.2.2]

/-! ## How old the keys are -/

variable (G) in
def Kept (l : Trace) (jwks : Value) (t : Time) : Prop :=
  ∃ i τ, (i, Ev.answered τ) ∈ l ∧ (i, Ev.kept t) ∈ l ∧ τ ≤ t ∧ G.served τ = some jwks

variable (G) in
structure Inv (l : Trace) (x : Ext) : Prop where
  answered : ∀ i t, (i, Ev.answered t) ∈ l → t ≤ x.clock
  cache : ∀ jwks, x.jwksCache = some jwks → x.jwksFetchedAt ≤ x.clock ∧ Kept G l jwks x.jwksFetchedAt
  checked : ∀ i jwks t, (i, Ev.checked jwks t) ∈ l → ∃ t', Kept G l jwks t' ∧ t' ≤ t ∧ t < t' + 3600 * 1000000

theorem Kept.mono {l l' : Trace} {jwks : Value} {t : Time} (h : Kept G l jwks t)
    (hl : l ⊆ l') : Kept G l' jwks t := by
  obtain ⟨i, τ, ha, hk, hle, hs⟩ := h
  exact ⟨i, τ, hl ha, hl hk, hle, hs⟩

theorem Inv.later {l : Trace} {x : Ext} {t : Time} (h : Inv G l x) (ht : x.clock ≤ t) :
    Inv G l { x with clock := t } where
  answered i t' ha := Nat.le_trans (h.answered i t' ha) ht
  cache jwks hc := ⟨Nat.le_trans (h.cache jwks hc).1 ht, (h.cache jwks hc).2⟩
  checked := h.checked

theorem Inv.goes {l : Trace} {i : Nat} {x x' : Ext} {vs : List Ev} (h : Inv G l x) (hg : Goes G (own i l) x x' vs) :
    Inv G (l ++ vs.map (i, ·)) x' := by
  have hsub : l ⊆ l ++ vs.map (i, ·) := List.subset_append_left ..
  -- the documents of the checks before stay where they are
  have hbefore : ∀ j jwks t, (j, Ev.checked jwks t) ∈ l → ∃ t', Kept G (l ++ vs.map (i, ·)) jwks t' ∧ t' ≤ t ∧
      t < t' + 3600 * 1000000 := by
    intro j jwks t hj
    obtain ⟨t', hk, hrest⟩ := h.checked j jwks t hj
    exact ⟨t', hk.mono hsub, hrest⟩
  cases hg with
  | quiet =>
    simp only [List.map_nil, List.append_nil]
    exact h
  | @looks jwks hf =>
    obtain ⟨hcache, hfresh⟩ := Option.filter_eq_some_iff.mp hf
    simp only [Bool.and_eq_true, decide_eq_true_eq] at hfresh
    obtain ⟨hle, hk⟩ := h.cache jwks hcache
    refine ⟨fun j t hj => ?_, fun jwks' hc => ?_, fun j jwks' t hj => ?_⟩
    · rcases List.mem_append.mp hj with hj | hj
      · exact h.answered j t hj
      · cases List.mem_singleton.mp hj
    · exact ⟨(h.cache jwks' hc).1, (h.cache jwks' hc).2.mono hsub⟩
    · rcases List.mem_append.mp hj with hj | hj
      · exact hbefore j jwks' t hj
      · cases List.mem_singleton.mp hj
        exact ⟨_, hk.mono hsub, hle, (Nat.sub_lt_iff_lt_add' hle).mp hfresh.2⟩
  | answered =>
    refine ⟨fun j t hj => ?_, fun jwks' hc => ?_, fun j jwks' t hj => ?_⟩
    · rcases List.mem_append.mp hj with hj | hj
      · exact h.answered j t hj
      · cases List.mem_singleton.mp hj
        exact Nat.le_refl _
    · exact ⟨(h.cache jwks' hc).1, (h.cache jwks' hc).2.mono hsub⟩
    · rcases List.mem_append.mp hj with hj | hj
      · exact hbefore j jwks' t hj
      · cases List.mem_singleton.mp hj
  | @keeps jwks t hs ha =>
    have hkept : Kept G (l ++ [Ev.kept x.clock, .checked jwks x.clock].map (i, ·)) jwks x.clock :=
      ⟨i, t, hsub (mem_own.mp ha), List.mem_append_right _ (List.mem_cons_self ..),
        h.answered i t (mem_own.mp ha), hs⟩
    refine ⟨fun j t' hj => ?_, fun jwks' hc => ?_, fun j jwks' t' hj => ?_⟩
    · rcases List.mem_append.mp hj with hj | hj
      · exact h.answered j t' hj
      · simp at hj
    · cases hc
      exact ⟨Nat.le_refl _, hkept⟩
    · rcases List.mem_append.mp hj with hj | hj
      · exact hbefore j jwks' t' hj
      · obtain ⟨-, rfl, rfl⟩ : j = i ∧ jwks' = jwks ∧ t' = x.clock := by simpa using hj
        exact ⟨_, hkept, Nat.le_refl _, Nat.lt_add_of_pos_right (by decide)⟩

theorem reachable_inv (h : (sys G).Reachable Init c) : Inv G c.world.sh.trace c.world.sh.ext := by
  induction h with
  | init h₀ =>
    refine ⟨?_, ?_, ?_⟩
    · simp [h₀.trace]
    · simp [h₀.init.1]
    · simp [h₀.trace]
  | step h hs ih =>
    rcases step_goes h hs with ⟨ht, t, hle, hx⟩ | ⟨i, vs, hg, ht⟩
    · rw [ht, hx]
      exact ih.later hle
    · rw [ht]
      exact ih.goes hg

def Prompt (d : Time) (l : Trace) : Prop := ∀ i t t', (i, Ev.answered t) ∈ l → (i, Ev.kept t') ∈ l → t' ≤ t + d

/-- **No token is accepted.** However the requests interleave, each one that ends raises. It
was checked with a document that the issuer published less than an hour before, and the time
that an answer takes, or it got none; and where the document has the key of the token, the
exception is the one of the missing attribute. -/
theorem no_token_accepted {d : Time} (h : (sys G).Reachable Init c) (hd : Prompt d c.world.sh.trace) {i : Nat}
    {p : Sys.Proc Unit Empty Empty Empty String AuthError Eff} (hp : c.procs[i]? = some p)
    (hend : p.prog.ended = true) :
    ∃ e, p.prog = .throw e ∧ (e = .http ∨ ∃ τ t jwks, τ ≤ t ∧ t < τ + d + 3600 * 1000000 ∧ G.served τ = some jwks ∧
      verifyWith G.jose jwks p.call t = .error e ∧ (Known G.jose jwks p.call → e = .raised .attributeError)) := by
  have hat := placed h hp
  generalize p.prog = q at hat hend
  cases hat with
  | start => cases hend
  | asks => cases hend
  | holds => cases hend
  | unserved => exact ⟨_, rfl, .inl rfl⟩
  | @refused jwks t e hm he =>
    obtain ⟨t', ⟨j, τ, hans, hkept, hle, hs⟩, hle', hlt⟩ := (reachable_inv h).checked i jwks t (mem_own.mp hm)
    obtain ⟨e', he', hknown⟩ := verifyWith_refused G.jose jwks p.call t
    rw [he] at he'
    cases he'
    exact ⟨e, rfl, .inr ⟨τ, t, jwks, Nat.le_trans hle hle',
      Nat.lt_of_lt_of_le hlt (Nat.add_le_add_right (hd j τ t' hans hkept) _), hs, he, hknown⟩⟩

end

/-! ## A rotation -/

inductive Move where
  | request (token : String)
  | clock (t : Time)

def Move.next : Move → Unit → Ext → Option (String ⊕ Ext)
  | .request token, _, _ => some (.inl token)
  | .clock t, _, x => if x.clock ≤ t then some (.inr { x with clock := t }) else none

def moves {Key : Type} (G : Setting Key) : (sys G).Moves Move where
  next := Move.next
  call _ := trivial
  env {m _ _ _} h := by
    cases m with
    | request => cases h
    | clock t =>
      simp only [Move.next] at h
      split at h
      · rename_i ht
        cases h
        exact ⟨ht, rfl, rfl⟩
      · cases h

def signed : String := "eyJhbGciOiJSUzI1NiIsImtpZCI6Im9sZCJ9.e30.c2ln"

def header (kid : String) : List (Text × Value) :=
  [(.ofString "alg", .str (.ofString "RS256")), (.ofString "kid", .str (.ofString kid))]

def rotation : Setting Unit where
  jose :=
    { getUnverifiedHeader := fun token =>
        if token = signed then .ok (header "old") else .error (.jwtError "Error decoding token headers.")
      decode := fun _ _ _ => .error (.jwtError "Signature verification failed.")
      tokenClaims := fun _ => none }
  served t := some (.dict [(.ofString "keys", .list [.dict (header (if t < 100 then "old" else "new"))])])

def begun : Conf where
  world := ⟨⟨(), ⟨none, 0, 0⟩, []⟩, fun _ => none, fun _ => ⟨[], false⟩⟩
  procs := []

def rotationRun : List (Turn Move) :=
  .other (.request signed) :: List.replicate 2 (.run 0 true) ++ .other (.clock 100) :: .other (.request "new") ::
    List.replicate 3 (.run 1 true) ++ .other (.clock 200) :: .run 0 true ::
    .other (.request signed) :: [.run 2 true]

def escaped (token : String) (c : Conf) (i : Nat) : Bool :=
  match c.procs[i]? with
  | some ⟨call, .throw (.raised .attributeError)⟩ => call == token
  | _ => false

theorem escaped_proc {token : String} {c : Conf} {i : Nat} (h : escaped token c i = true) :
    c.procs[i]? = some ⟨token, .throw (.raised .attributeError)⟩ := by
  unfold escaped at h
  split at h
  · rename_i call hp
    rw [hp, eq_of_beq h]
  · cases h

theorem no_token_accepted_rotation : ∃ c τ t jwks, (sys rotation).Reachable Init c ∧
    c.procs[2]? = some ⟨signed, .throw (.raised .attributeError)⟩ ∧ τ ≤ t ∧ t < τ + 200 + 3600 * 1000000 ∧
    rotation.served τ = some jwks ∧ verifyWith rotation.jose jwks signed t = .error (.raised .attributeError) := by
  have h₀ : Sys.Initial Init begun := ⟨rfl, rfl, fun _ => rfl, fun _ => rfl, rfl, rfl⟩
  have hplay : (Sys.play (moves rotation) rotationRun begun).any (fun c => escaped signed c 2 &&
      c.world.sh.trace.all fun x => match x.2 with
        | .answered t => t == 0 && x.1 == 0 || t == 100 && x.1 == 1
        | .kept t => t == 200 && x.1 == 0 || t == 100 && x.1 == 1
        | _ => true) = true := by decide +kernel
  obtain ⟨c, hc, hφ⟩ := (Option.any_eq_true _ _).mp hplay
  rw [Bool.and_eq_true, List.all_eq_true] at hφ
  have hreach : (sys rotation).Reachable Init c := (Sys.Reachable.init h₀).runs (Sys.play_runs _ hc)
  have hprompt : Prompt 200 c.world.sh.trace := by
    intro i t t' ha hk
    have ha := hφ.2 _ ha
    have hk := hφ.2 _ hk
    simp only [Bool.or_eq_true, Bool.and_eq_true, beq_iff_eq] at ha hk
    have ha' : t = 0 ∧ i = 0 ∨ t = 100 ∧ i = 1 := ha
    have hk' : t' = 200 ∧ i = 0 ∨ t' = 100 ∧ i = 1 := hk
    show (t' : Nat) ≤ t + 200
    rcases ha' with ⟨rfl, rfl⟩ | ⟨rfl, rfl⟩ <;> rcases hk' with ⟨rfl, -⟩ | ⟨rfl, -⟩ <;> decide
  have hp := escaped_proc hφ.1
  obtain ⟨e, he, hor⟩ := no_token_accepted hreach hprompt hp rfl
  cases he
  rcases hor with h | ⟨τ, t, jwks, hle, hlt, hs, hv, -⟩
  · cases h
  · exact ⟨c, τ, t, jwks, hreach, hp, hle, hlt, hs, hv⟩

end Auth

end Veyaan
