import Mathlib.Data.String.Basic
import Mathlib.Logic.Function.Basic
import Veyaan.Lib.Counter

/-!
# The rate limiter

`RateLimitMiddleware` and `ValkeyClient.rate_limit_check`. Valkey takes the
pipelined `INCR` and `EXPIRE` at once, and a key is gone when its time to live
has elapsed. All endpoints of a client share one key, and every request sets its
time to live anew; what that makes of the limits is at the end. Times are in
milliseconds, windows in seconds.
-/

namespace Veyaan

namespace RateLimit

/-! ## Requests -/

structure Request where
  path : String
  method : String
  /-- `request.state.user_id`, if the attribute is there. -/
  userId : Option String := none
  /-- `request.client.host`. -/
  clientHost : Option String := none
  forwardedFor : Option String := none

structure Response where
  statusCode : Nat
  content : String
  headers : List (String × String)
  mediaType : String

structure Settings where
  rateLimitAuthFailures : Nat := 5
  rateLimitPairing : Nat := 3
  rateLimitCommands : Nat := 30
  rateLimitApprovals : Nat := 10
  rateLimitWsConnections : Nat := 5
  rateLimitHealthDetail : Nat := 30
  trustedProxyIps : List String := []
  valkeyKeyPrefix : String := "veyaan:dev:"
  defaultLimit : Nat := 100
  defaultWindow : Nat := 60

/-- `str.isspace`, for the characters of a header. -/
def isSpace (c : Char) : Bool :=
  c == ' ' || (9 ≤ c.toNat && c.toNat ≤ 13) || (28 ≤ c.toNat && c.toNat ≤ 31) || c.toNat == 133 || c.toNat == 160

/-- `s.split(",")[0].strip()`, the leftmost address of the chain. -/
def leftmost (s : String) : String :=
  let field := s.toList.takeWhile (· != ',')
  String.ofList ((field.dropWhile isSpace).reverse.dropWhile isSpace).reverse

def getClientId (cfg : Settings) (r : Request) : String :=
  match r.userId with
  | some userId => "user:" ++ userId
  | none =>
    let clientIp := r.clientHost.getD "unknown"
    if clientIp ∈ cfg.trustedProxyIps then
      match r.forwardedFor with
      | some forwardedFor => if forwardedFor = "" then "ip:" ++ clientIp else "ip:" ++ leftmost forwardedFor
      | none => "ip:" ++ clientIp
    else "ip:" ++ clientIp

/-- The branches of `_get_rate_limit`. -/
inductive EndpointClass where
  | auth
  | pairing
  | commands
  | approvals
  | ws
  | healthDetail
  | other
  deriving DecidableEq, Repr

def contains (needle haystack : String) : Bool := haystack.toList.tails.any (needle.toList.isPrefixOf ·)

def endpointClass (r : Request) : EndpointClass :=
  if r.path.startsWith "/v1/auth" then .auth
  else if r.path.startsWith "/v1/devices/pair" then .pairing
  else if r.path.startsWith "/v1/commands" && r.method == "POST" then .commands
  else if r.path.startsWith "/v1/approvals" && r.method ∈ ["POST", "PUT", "PATCH"] then .approvals
  else if contains "/ws" r.path then .ws
  else if r.path == "/health/detail" then .healthDetail
  else .other

def Settings.limit (cfg : Settings) : EndpointClass → Nat
  | .auth => cfg.rateLimitAuthFailures
  | .pairing => cfg.rateLimitPairing
  | .commands => cfg.rateLimitCommands
  | .approvals => cfg.rateLimitApprovals
  | .ws => cfg.rateLimitWsConnections
  | .healthDetail => cfg.rateLimitHealthDetail
  | .other => cfg.defaultLimit

def Settings.window (cfg : Settings) : EndpointClass → Nat
  | .auth => 300
  | .pairing => 300
  | .commands => 60
  | .approvals => 60
  | .ws => 60
  | .healthDetail => 60
  | .other => cfg.defaultWindow

/-- `_get_rate_limit`. -/
def getRateLimit (cfg : Settings) (r : Request) : Nat × Nat :=
  (cfg.limit (endpointClass r), cfg.window (endpointClass r))

/-! ## Valkey -/

structure Valkey where
  /-- `self.client` is there. -/
  connected : Bool
  counters : String → Option Counter

def Valkey.fresh : Valkey := ⟨true, fun _ => none⟩

def fullKey (cfg : Settings) (key : String) : String := "ratelimit:" ++ (cfg.valkeyKeyPrefix ++ key)

theorem fullKey_inj {cfg : Settings} {k k' : String} : fullKey cfg k = fullKey cfg k' ↔ k = k' := by
  simp [fullKey, String.append_right_inj]

def rateLimitCheck (cfg : Settings) (v : Valkey) (now : Nat) (key : String) (limit window : Nat) :
    (Bool × Nat × Nat) × Valkey :=
  if v.connected then
    let full := fullKey cfg key
    let counter := Counter.hit (v.counters full) ⟨now, window * 1000⟩
    let current := counter.value
    ((decide (current ≤ limit), current, limit - current),
      { v with counters := Function.update v.counters full (some counter) })
  else ((true, 0, limit), v)

/-! ## `dispatch` -/

def exempt (r : Request) : Bool := r.path ∈ ["/health/live", "/health/ready", "/metrics"]

/-- The answer 429. The window in its content is the word, not the number. -/
def refusal (limit window : Nat) : Response where
  statusCode := 429
  content := "\x7b\"error\": \"Rate limit exceeded\", \"retry_after\": window\x7d"
  headers := [("X-RateLimit-Limit", toString limit), ("X-RateLimit-Remaining", "0"),
    ("X-RateLimit-Reset", toString window), ("Retry-After", toString window)]
  mediaType := "application/json"

/-- `response.headers[…] = …`. -/
def Response.withHeaders (response : Response) (limit remaining window : Nat) : Response :=
  { response with
    headers := response.headers ++ [("X-RateLimit-Limit", toString limit),
      ("X-RateLimit-Remaining", toString remaining), ("X-RateLimit-Reset", toString window)] }

structure Arrival where
  time : Nat
  request : Request

/-- What became of a request: whether `call_next` was awaited, and the response. -/
structure Outcome where
  arrival : Arrival
  passed : Bool
  response : Response

variable (cfg : Settings) (callNext : Request → Response)

def dispatch (v : Valkey) (a : Arrival) : Outcome × Valkey :=
  if exempt a.request then (⟨a, true, callNext a.request⟩, v)
  else
    let clientId := getClientId cfg a.request
    let (limit, window) := getRateLimit cfg a.request
    let ((allowed, _, remaining), v') := rateLimitCheck cfg v a.time clientId limit window
    if allowed then (⟨a, true, (callNext a.request).withHeaders limit remaining window⟩, v')
    else (⟨a, false, refusal limit window⟩, v')

def serve : Valkey → List Arrival → List Outcome
  | _, [] => []
  | v, a :: as => (dispatch cfg callNext v a).1 :: serve (dispatch cfg callNext v a).2 as

/-! ## What the counter of a client counts -/

def Arrival.of (client : String) (a : Arrival) : Bool := !exempt a.request && getClientId cfg a.request == client

def Arrival.hit (a : Arrival) : Hit := ⟨a.time, cfg.window (endpointClass a.request) * 1000⟩

def hits (client : String) (past : List Arrival) : List Hit :=
  (past.filter (Arrival.of cfg client)).map (Arrival.hit cfg)

def Valkey.Counts (v : Valkey) (past : List Arrival) : Prop :=
  v.connected = true ∧ ∀ client, v.counters (fullKey cfg client) = Counter.after (hits cfg client past)

def Arrival.Early (a : Arrival) (past : List Arrival) : Prop :=
  Rested (cfg.limit (endpointClass a.request)) (hits cfg (getClientId cfg a.request) (a :: past))

instance (a : Arrival) (past : List Arrival) : Decidable (a.Early cfg past) :=
  inferInstanceAs (Decidable (Rested ..))

variable {cfg callNext} {v : Valkey} {a : Arrival} {past : List Arrival} {client : String}

theorem counts_fresh : Valkey.fresh.Counts cfg [] := ⟨rfl, fun _ => rfl⟩

theorem hits_cons_self (h : a.of cfg client = true) :
    hits cfg client (a :: past) = a.hit cfg :: hits cfg client past := by
  simp [hits, h]

theorem hits_cons_other (h : a.of cfg client = false) : hits cfg client (a :: past) = hits cfg client past := by
  simp [hits, h]

theorem dispatch_counts (h : v.Counts cfg past) : (dispatch cfg callNext v a).2.Counts cfg (a :: past) := by
  by_cases he : exempt a.request
  · have : ∀ client, a.of cfg client = false := fun client => by simp [Arrival.of, he]
    simp only [dispatch, he, if_true]
    exact ⟨h.1, fun client => by rw [hits_cons_other (this client)]; exact h.2 client⟩
  · have hv : (dispatch cfg callNext v a).2 = (rateLimitCheck cfg v a.time (getClientId cfg a.request)
        (getRateLimit cfg a.request).1 (getRateLimit cfg a.request).2).2 := by
      simp only [dispatch, he, Bool.false_eq_true, if_false]
      split <;> rfl
    rw [hv]
    simp only [rateLimitCheck, h.1, if_true]
    refine ⟨rfl, fun client => ?_⟩
    dsimp only
    by_cases hc : getClientId cfg a.request = client
    · subst hc
      rw [Function.update_self, h.2, hits_cons_self (by simp [Arrival.of, he])]
      rfl
    · rw [Function.update_of_ne (fun hk => hc (fullKey_inj.mp hk).symm), hits_cons_other (by simp [Arrival.of, hc])]
      exact h.2 client

theorem dispatch_arrival : (dispatch cfg callNext v a).1.arrival = a := by
  unfold dispatch
  split
  · rfl
  · dsimp only
    split <;> rfl

theorem dispatch_passed (h : v.Counts cfg past) (he : exempt a.request = false) :
    (dispatch cfg callNext v a).1.passed = true ↔ a.Early cfg past := by
  have hp : (dispatch cfg callNext v a).1.passed = (rateLimitCheck cfg v a.time (getClientId cfg a.request)
      (getRateLimit cfg a.request).1 (getRateLimit cfg a.request).2).1.1 := by
    simp only [dispatch, he, Bool.false_eq_true, if_false]
    split
    · rename_i hok; exact hok.symm
    · rename_i hno; simpa using hno
  rw [hp, Arrival.Early, hits_cons_self (by simp [Arrival.of, he])]
  simp only [rateLimitCheck, h.1, if_true, decide_eq_true_eq, h.2]
  exact Counter.value_le_iff

/-! ## Whole logs -/

def withPast : List Arrival → List Arrival → List (Arrival × List Arrival)
  | _, [] => []
  | past, a :: as => (a, past) :: withPast (a :: past) as

theorem serve_countP {p : Outcome → Bool} {q : Arrival × List Arrival → Bool}
    (hpq : ∀ v past a, v.Counts cfg past → p (dispatch cfg callNext v a).1 = q (a, past)) :
    ∀ {as : List Arrival} {v past}, v.Counts cfg past →
    (serve cfg callNext v as).countP p = (withPast past as).countP q
  | [], _, _, _ => rfl
  | a :: as, v, past, h => by
    simp only [serve, withPast, List.countP_cons, hpq v past a h]
    rw [serve_countP hpq (dispatch_counts h)]

theorem serve_forall {p : Outcome → Prop} {q : Arrival × List Arrival → Prop}
    (hpq : ∀ v past a, v.Counts cfg past → (p (dispatch cfg callNext v a).1 ↔ q (a, past))) :
    ∀ {as : List Arrival} {v past}, v.Counts cfg past →
    ((∀ o ∈ serve cfg callNext v as, p o) ↔ ∀ x ∈ withPast past as, q x)
  | [], _, _, _ => by simp [serve, withPast]
  | a :: as, v, past, h => by
    simp only [serve, withPast, List.forall_mem_cons, hpq v past a h]
    rw [serve_forall hpq (dispatch_counts h)]

/-! ## What the limits ask for -/

def Arrival.isIn (cfg : Settings) (client : String) (k : EndpointClass) (a : Arrival) : Bool :=
  a.of cfg client && endpointClass a.request == k

def Arrival.between (s e : Nat) (a : Arrival) : Bool := decide (s ≤ a.time) && decide (a.time ≤ e)

def Bounded (cfg : Settings) (callNext : Request → Response) (client : String) (log : List Arrival) : Prop :=
  ∀ k s e, e < s + cfg.window k * 1000 →
    (serve cfg callNext .fresh log).countP (fun o => o.passed &&
      (o.arrival.isIn cfg client k && o.arrival.between s e)) ≤
      cfg.limit k

def EarlyBounded (cfg : Settings) (client : String) (log : List Arrival) : Prop :=
  ∀ k s e, e < s + cfg.window k * 1000 →
    (withPast [] log).countP (fun x => decide (x.1.Early cfg x.2) && (x.1.isIn cfg client k && x.1.between s e)) ≤
      cfg.limit k

def Conforms (cfg : Settings) (client : String) (log : List Arrival) : Prop :=
  ∀ k s, log.countP (fun a => a.isIn cfg client k && a.between s (s + cfg.window k * 1000)) ≤ cfg.limit k

def Unpunished (cfg : Settings) (callNext : Request → Response) (client : String) (log : List Arrival) : Prop :=
  ∀ o ∈ serve cfg callNext .fresh log, o.arrival.of cfg client = true → o.passed = true

def AllEarly (cfg : Settings) (client : String) (log : List Arrival) : Prop :=
  ∀ x ∈ withPast [] log, x.1.of cfg client = true → x.1.Early cfg x.2

theorem countP_passed (k : EndpointClass) (s e : Nat) (log : List Arrival) :
    (serve cfg callNext .fresh log).countP (fun o => o.passed &&
      (o.arrival.isIn cfg client k && o.arrival.between s e)) =
      (withPast [] log).countP (fun x => decide (x.1.Early cfg x.2) &&
        (x.1.isIn cfg client k && x.1.between s e)) := by
  refine serve_countP (fun v past a h => ?_) counts_fresh
  rw [dispatch_arrival]
  by_cases he : exempt a.request
  · have : a.isIn cfg client k = false := by simp [Arrival.isIn, Arrival.of, he]
    simp [this]
  · have : (dispatch cfg callNext v a).1.passed = true ↔ a.Early cfg past := dispatch_passed h (by simpa using he)
    by_cases hr : a.Early cfg past
    · simp [this.mpr hr, hr]
    · have hp : (dispatch cfg callNext v a).1.passed = false := by simpa using mt this.mp hr
      simp [hp, hr]

/-- **Upper bound.** The limits bound each class of endpoints exactly as far as the
requests that come early are few: those that a pause of the client has preceded, among
as many requests of whatever class as the limit allows. -/
theorem rate_limit_bounds_iff (cfg : Settings) (callNext : Request → Response)
    (client : String) (log : List Arrival) :
    Bounded cfg callNext client log ↔ EarlyBounded cfg client log := by
  refine forall_congr' fun k => forall_congr' fun s => forall_congr' fun e => imp_congr_right fun _ => ?_
  rw [countP_passed]

/-- Five logins, a request of another class, whose window is shorter, and a login as
soon as that window is over. -/
def mixedLog : List Arrival :=
  let login (t : Nat) : Arrival :=
    ⟨t, { path := "/v1/auth/login", method := "POST", clientHost := some "192.0.2.1" }⟩
  [login 0, login 1, login 2, login 3, login 4,
    ⟨1000, { path := "/v1/devices", method := "GET", clientHost := some "192.0.2.1" }⟩, login 61000]

theorem rate_limit_not_bounded : ¬ ∀ cfg callNext client log, Bounded cfg callNext client log := by
  intro h
  have := h {} (fun _ => ⟨200, "", [], "application/json"⟩) "ip:192.0.2.1" mixedLog .auth 0 61000 (by decide)
  revert this
  decide +kernel

def recent (cfg : Settings) (client : String) (s : Nat) (past : List Arrival) : Nat :=
  ((hits cfg client past).filter fun h => s ≤ h.time).length

/-- The early requests of a class in the interval, besides those of the client that are
in it already, when no request of the client has a shorter window. -/
theorem countP_early_le {k : EndpointClass} {s e : Nat} (he : e < s + cfg.window k * 1000) :
    ∀ {log past : List Arrival}, (past.reverse ++ log).Pairwise (fun a b => a.time ≤ b.time) →
      (∀ a ∈ past ++ log, a.of cfg client = true → cfg.window k ≤ cfg.window (endpointClass a.request)) →
      (withPast past log).countP (fun x => decide (x.1.Early cfg x.2) &&
        (x.1.isIn cfg client k && x.1.between s e)) ≤
        cfg.limit k - recent cfg client s past
  | [], _, _, _ => by simp [withPast]
  | a :: as, past, hsort, hw => by
    have hsort' : ((a :: past).reverse ++ as).Pairwise (fun a b => a.time ≤ b.time) := by simpa using hsort
    have ih := countP_early_le (k := k) (s := s) (e := e) he hsort' (fun x hx => hw x (by
      simp only [List.mem_append, List.mem_cons] at hx ⊢; tauto))
    have hgrow : recent cfg client s past ≤ recent cfg client s (a :: past) := by
      by_cases ha : a.of cfg client
      · simp only [recent, hits_cons_self ha, List.filter_cons]
        split <;> simp
      · rw [recent, recent, hits_cons_other (by simpa using ha)]
    simp only [withPast, List.countP_cons]
    by_cases hc : (decide (a.Early cfg past) && (a.isIn cfg client k && a.between s e)) = true
    · simp only [hc, if_true]
      simp only [Bool.and_eq_true, decide_eq_true_eq, Arrival.isIn, Arrival.between, beq_iff_eq] at hc
      obtain ⟨hearly, ⟨ha, hk⟩, hs, hle⟩ := hc
      have hclient : getClientId cfg a.request = client := by
        simp only [Arrival.of, Bool.and_eq_true, beq_iff_eq] at ha
        exact ha.2
      rw [Arrival.Early, hk, hclient] at hearly
      have hone : recent cfg client s (a :: past) = recent cfg client s past + 1 := by
        simp [recent, hits_cons_self ha, Arrival.hit, hs]
      -- more hits than the limit in the interval would leave no room for a pause
      have hfew : recent cfg client s (a :: past) ≤ cfg.limit k := by
        by_contra hmany
        refine not_rested_of_close (s := s) (w := cfg.window k * 1000) ?_ ?_ ?_ (Nat.not_le.mp hmany) hearly
        · have hrev : ((a :: past)).Pairwise (fun a b => b.time ≤ a.time) := by
            have := (List.pairwise_append.mp hsort').1
            rwa [List.pairwise_reverse] at this
          exact List.Pairwise.map _ (fun _ _ h => h) (hrev.filter _)
        · intro h hh
          simp only [hits, List.mem_map, List.mem_filter] at hh
          obtain ⟨x, ⟨hx, hxc⟩, rfl⟩ := hh
          have := hw x (by simp only [List.mem_append, List.mem_cons] at hx ⊢; tauto) hxc
          simp only [Arrival.hit]
          omega
        · rw [hits_cons_self ha]
          intro h hh
          cases hh
          simp only [Arrival.hit]
          omega
      omega
    · simp only [hc, Bool.false_eq_true, if_false]
      omega

/-- The class is bounded as long as the client sends nothing to an endpoint whose window
is shorter: it is the shared key that lets more through. -/
theorem bounded_of_windows {k : EndpointClass} {log : List Arrival}
    (hsort : log.Pairwise fun a b => a.time ≤ b.time)
    (hw : ∀ a ∈ log, a.of cfg client = true → cfg.window k ≤ cfg.window (endpointClass a.request)) {s e : Nat}
    (he : e < s + cfg.window k * 1000) :
    (serve cfg callNext .fresh log).countP (fun o => o.passed &&
      (o.arrival.isIn cfg client k && o.arrival.between s e)) ≤
      cfg.limit k := by
  rw [countP_passed]
  refine Nat.le_trans (countP_early_le he ?_ ?_) (Nat.sub_le ..)
  · exact hsort
  · exact hw

/-- **No punishment.** A client that keeps to the limits is answered 429 never,
exactly if all of its requests come early. -/
theorem rate_limit_spares_iff (cfg : Settings) (callNext : Request → Response)
    (client : String) (log : List Arrival) :
    (Conforms cfg client log → Unpunished cfg callNext client log) ↔
    (Conforms cfg client log → AllEarly cfg client log) := by
  refine imp_congr_right fun _ => ?_
  refine serve_forall (p := fun o => o.arrival.of cfg client = true → o.passed = true)
    (q := fun x => x.1.of cfg client = true → x.1.Early cfg x.2) (fun v past a h => ?_) counts_fresh
  rw [dispatch_arrival]
  refine imp_congr_right fun ha => dispatch_passed h ?_
  simp only [Arrival.of, Bool.and_eq_true, Bool.not_eq_true'] at ha
  exact ha.1

def slowLog : List Arrival :=
  let pair (t : Nat) : Arrival :=
    ⟨t, { path := "/v1/devices/pair", method := "POST", clientHost := some "192.0.2.1" }⟩
  [pair 0, pair 200000, pair 400000, pair 600000]

theorem slowLog_conforms : Conforms {} "ip:192.0.2.1" slowLog := by
  intro k s
  by_cases hk : k = .pairing
  · subst hk
    -- the first and the last are too far apart
    by_contra hmany
    have hmost : slowLog.length ≤ slowLog.countP
        (fun a => a.isIn {} "ip:192.0.2.1" .pairing && a.between s (s + Settings.window {} .pairing * 1000)) :=
          Nat.lt_of_not_le hmany
    have hall := List.countP_eq_length.mp (Nat.le_antisymm List.countP_le_length hmost)
    have hfirst : s ≤ 0 := of_decide_eq_true
      (Bool.and_eq_true_iff.mp (Bool.and_eq_true_iff.mp (hall _ (List.mem_cons_self ..))).2).1
    have hlast : 600000 ≤ s + 300 * 1000 := of_decide_eq_true
      (Bool.and_eq_true_iff.mp (Bool.and_eq_true_iff.mp (hall _ (List.mem_of_getElem? (i := 3) rfl))).2).2
    omega
  · have hout : slowLog.countP (fun a => a.isIn {} "ip:192.0.2.1" k &&
        a.between s (s + Settings.window {} k * 1000)) = 0 := by
      have : ∀ a ∈ slowLog, endpointClass a.request = .pairing := by decide +kernel
      rw [List.countP_eq_zero]
      intro a ha
      simp [Arrival.isIn, this a ha, Ne.symm hk]
    rw [hout]
    exact Nat.zero_le _

theorem rate_limit_punishes : ¬ ∀ cfg callNext client log, Conforms cfg client log →
    Unpunished cfg callNext client log := by
  intro h
  have := h {} (fun _ => ⟨200, "", [], "application/json"⟩) "ip:192.0.2.1" slowLog slowLog_conforms
  have hall : (serve {} (fun _ => ⟨200, "", [], "application/json"⟩) .fresh slowLog).all
      (fun o => !o.arrival.of {} "ip:192.0.2.1" || o.passed) = true := by
    refine List.all_eq_true.mpr fun o ho => ?_
    cases hc : o.arrival.of {} "ip:192.0.2.1" with
    | false => rfl
    | true => simp [this o ho hc]
  revert hall
  decide +kernel

end RateLimit

end Veyaan
