import Veyaan.Handshake
import Veyaan.Lib.Follows
import Veyaan.Refine.Sound
import Veyaan.Schedule

/-!
# Authenticity of the handshake

A connection is registered for a device only after the device has signed the
challenge of this very handshake. The client chooses three of the six fields of
the signed text, but the three that the server chooses come first and contain
no separator, so the text determines them.
-/

namespace Veyaan

/-! ## The text that is signed -/

theorem cut_first {α : Type} {a : α} : ∀ {l l' r r' : List α}, a ∉ l → a ∉ l' → l ++ a :: r = l' ++ a :: r' →
    l = l' ∧ r = r'
  | [], [], _, _, _, _, h => ⟨rfl, (List.cons.inj h).2⟩
  | [], b :: l', _, _, _, h', h => absurd (List.cons.inj h).1 fun hab => h' (hab ▸ List.mem_cons_self ..)
  | b :: l, [], _, _, hl, _, h => absurd (List.cons.inj h).1 fun hba => hl (hba ▸ List.mem_cons_self ..)
  | b :: l, b' :: l', r, r', hl, hl', h => by
    obtain ⟨rfl, ht⟩ := List.cons.inj h
    obtain ⟨rfl, hr⟩ :=
      cut_first (fun hm => hl (List.mem_cons_of_mem _ hm)) (fun hm => hl' (List.mem_cons_of_mem _ hm)) ht
    exact ⟨rfl, hr⟩

namespace Ws

def IsHex (s : String) : Prop := ∀ c ∈ s.toList, c ∈ "0123456789abcdef".toList

theorem IsHex.colon {s : String} (h : IsHex s) : ':' ∉ s.toList := fun hm => absurd (h _ hm) (by decide)

/-- The signed text determines the device, the connection and the nonce. -/
theorem buildChallengeMessage_inj {d d' k k' : UUID} {n n' t t' p p' a a' : String} (hn : IsHex n) (hn' : IsHex n')
    (h : buildChallengeMessage d k n t p a = buildChallengeMessage d' k' n' t' p' a') :
    d = d' ∧ k = k' ∧ n = n' := by
  have h := String.ofList_injective h
  obtain ⟨hd, h⟩ := cut_first (strUuid_colon d) (strUuid_colon d') h
  obtain ⟨hk, h⟩ := cut_first (strUuid_colon k) (strUuid_colon k') h
  obtain ⟨hn, -⟩ := cut_first hn.colon hn'.colon h
  exact ⟨strUuid_inj hd, strUuid_inj hk, String.toList_injective hn⟩

/-! ## One handshake -/

/-- What a handshake with the entries `l` has done before it registers `conn`:
its nonce, the frame it was sent, the row of the device that it read, and the
text that was signed. -/
structure Admitted (C : Params) (l : List Ev) (conn : DeviceConnection) (nonce : String)
    (fields : List (String × Json)) (device : Device) (message : String) : Prop where
  drew : .drew conn.connectionId ∈ l
  generated : .generated nonce ∈ l
  received : .received (.frame (.obj fields)) ∈ l
  deviceId : parseDeviceId C ((getField fields "device_id").getD (.str "")) = .ok conn.deviceId
  read : .deviceRead conn.deviceId (some device) ∈ l
  trusted : device.trustStatus = .trusted
  unrevoked : device.revokedAt = none
  owner : conn.ownerId = device.ownerId
  consumed : ∃ v, .getdel (C.nonceKey nonce) (some v) ∈ l
  verified : verifyEd25519Signature C device.info.devicePublicIdentity message
    ((getField fields "signature").getD (.str "")) = true
  message : ∃ t p a, message = buildChallengeMessage conn.deviceId conn.connectionId nonce t p a

def Ev.isRegistered : Ev → Bool
  | .registered _ => true
  | _ => false

structure Sound (C : Params) (l : List Ev) : Prop where
  registered : ∀ conn, .registered conn ∈ l → ∃ nonce fields device message,
    Admitted C l conn nonce fields device message
  once : (l.filter Ev.isRegistered).length ≤ 1
  generated : ∀ n n', .generated n ∈ l → .generated n' ∈ l → n = n'
  received : ∀ r r', .received r ∈ l → .received r' ∈ l → r = r'

structure Stage (l : List Ev) (nonce : Option String) (frame : Option Received) : Prop where
  registered : ∀ conn, .registered conn ∉ l
  generated : ∀ n, .generated n ∈ l → nonce = some n
  received : ∀ r, .received r ∈ l → frame = some r

def Ev.plain : Ev → Bool
  | .registered _ => false
  | .generated _ => false
  | .received _ => false
  | _ => true

section
variable {C : Params} {l u : List Ev} {nonce : Option String} {frame : Option Received} {β : Type}

theorem Stage.filter (h : Stage l nonce frame) : l.filter Ev.isRegistered = [] :=
  List.filter_eq_nil_iff.mpr fun v hv hr => by
    cases v with
    | registered conn => exact h.registered conn hv
    | _ => cases hr

theorem Stage.sound (h : Stage l nonce frame) : Sound C l where
  registered conn hc := absurd hc (h.registered conn)
  once := by rw [h.filter]; exact Nat.zero_le 1
  generated n n' hn hn' := Option.some.inj ((h.generated n hn).symm.trans (h.generated n' hn'))
  received r r' hr hr' := Option.some.inj ((h.received r hr).symm.trans (h.received r' hr'))

theorem Stage.append (h : Stage l nonce frame) (hv : ∀ v ∈ u, v.plain = true) : Stage (l ++ u) nonce frame where
  registered conn hc := (List.mem_append.mp hc).elim (h.registered conn) fun hc => nomatch hv _ hc
  generated n hn := (List.mem_append.mp hn).elim (h.generated n) fun hn => nomatch hv _ hn
  received r hr := (List.mem_append.mp hr).elim (h.received r) fun hr => nomatch hv _ hr

theorem follows_plain {e : Eff β} {post : β → List Ev → Prop} (h : Stage l nonce frame)
    (hplain : ∀ ch x, ∀ v ∈ (e.handle C ch x).2.2, v.plain = true)
    (hpost : ∀ ch x a, (e.handle C ch x).1 = .ok a → Stage (l ++ (e.handle C ch x).2.2) nonce frame →
      post a (l ++ (e.handle C ch x).2.2)) : (sys C).Follows (Sound C) (effect e) post l :=
  Sys.follows_eff fun ch x =>
    ⟨(h.append (hplain ch x)).sound, fun a ha => hpost ch x a ha (h.append (hplain ch x))⟩

theorem raising_ok {ch : Bool} {e : Err} {x : Ext} {a b : β} {u : List Ev} (h : (raising ch e x a u).1 = .ok b) :
    a = b ∧ (raising ch e x a u).2.2 = u := by
  cases ch with
  | true => exact ⟨Except.ok.inj h, rfl⟩
  | false => cases h

theorem raising_entries {ch : Bool} {e : Err} {x : Ext} {a : β} {u : List Ev} {v : Ev}
    (h : v ∈ (raising ch e x a u).2.2) : v ∈ u := by
  cases ch with
  | true => exact h
  | false => cases h

theorem Admitted.append {conn : DeviceConnection} {nonce : String} {fields : List (String × Json)} {device : Device}
    {message : String} (h : Admitted C l conn nonce fields device message) :
    Admitted C (l ++ u) conn nonce fields device message :=
  have hl : ∀ {v}, v ∈ l → v ∈ l ++ u := fun hv => List.mem_append_left _ hv
  { h with
    drew := hl h.drew
    generated := hl h.generated
    received := hl h.received
    read := hl h.read
    consumed := h.consumed.imp fun _ => hl }

theorem Stage.register (h : Stage l nonce frame) {conn : DeviceConnection}
    (ha : ∃ nonce fields device message, Admitted C l conn nonce fields device message) :
    Sound C (l ++ [.registered conn]) where
  registered conn' hc := by
    rcases List.mem_append.mp hc with hc | hc
    · exact absurd hc (h.registered conn')
    · cases List.mem_singleton.mp hc
      obtain ⟨n, f, d, m, ha⟩ := ha
      exact ⟨n, f, d, m, ha.append⟩
  once := by rw [List.filter_append, h.filter]; exact Nat.le_refl 1
  generated n n' hn hn' := h.sound (C := C).generated n n' (by simpa using hn) (by simpa using hn')
  received r r' hr hr' := h.sound (C := C).received r r' (by simpa using hr) (by simpa using hr')

/-! ## The rules of the single effects -/

theorem follows_silent {e : Eff β} {post : β → List Ev → Prop} (h : Sound C l)
    (hs : ∀ ch x, (e.handle C ch x).2.2 = []) (hp : ∀ a, post a l) : (sys C).Follows (Sound C) (effect e) post l :=
  Sys.follows_eff fun ch x => by
    rw [show ((sys C).handle ch e x).2.2 = [] from hs ch x, List.append_nil]
    exact ⟨h, fun a _ => hp a⟩

theorem follows_raising {e : Eff β} {post : β → List Ev → Prop} {err : Err}
    {f : Ext → β × List Ev} (h : Stage l nonce frame)
    (he : ∀ ch x, e.handle C ch x = raising ch err x (f x).1 (f x).2) (hplain : ∀ x, ∀ v ∈ (f x).2, v.plain = true)
    (hp : ∀ x, Stage (l ++ (f x).2) nonce frame → post (f x).1 (l ++ (f x).2)) :
    (sys C).Follows (Sound C) (effect e) post l := by
  refine follows_plain h (fun ch x v hv => ?_) fun ch x a ha hs => ?_
  · rw [he] at hv
    exact hplain x v (raising_entries hv)
  · rw [he] at ha hs ⊢
    obtain ⟨rfl, hvs⟩ := raising_ok ha
    rw [hvs] at hs ⊢
    exact hp x hs

theorem follows_sendJson {m : ServerMessage} {post : Unit → List Ev → Prop} (h : Stage l nonce frame)
    (hp : Stage (l ++ [.sent m]) nonce frame → post () (l ++ [.sent m])) :
    (sys C).Follows (Sound C) (effect (.sendJson m)) post l :=
  follows_raising (f := fun _ => ((), [.sent m])) h (fun _ _ => rfl)
    (fun _ v hv => by cases List.mem_singleton.mp hv; rfl) fun _ => hp

theorem follows_close {code : Nat} {reason : String} (h : Stage l nonce frame) :
    (sys C).Follows (Sound C) (effect (.close code reason)) (fun _ _ => True) l :=
  follows_raising (f := fun _ => ((), [.closed code reason])) h (fun _ _ => rfl)
    (fun _ v hv => by cases List.mem_singleton.mp hv; rfl) fun _ _ => trivial

theorem follows_uuid4 {post : UUID → List Ev → Prop} (h : Stage l nonce frame)
    (hp : ∀ id, Stage (l ++ [.drew id]) nonce frame → post id (l ++ [.drew id])) :
    (sys C).Follows (Sound C) (effect .uuid4) post l :=
  follows_plain h (fun _ x v hv => by cases List.mem_singleton.mp hv; rfl) fun _ x _ ha hs => by
    cases ha
    exact hp x.nextId hs

theorem follows_refuse {code message reason : String} (h : Stage l nonce frame) :
    (sys C).Follows (Sound C) (refuse code message reason) (fun _ _ => True) l :=
  Sys.follows_bind (follows_sendJson h follows_close)

end

/-! ## The handshake, part by part -/

section
variable {C : Params} {l : List Ev} {nonce : Option String} {frame : Option Received}

theorem follows_register {conn : DeviceConnection} {gatewayId : UUID} (h : Stage l nonce frame)
    (ha : ∃ nonce fields device message, Admitted C l conn nonce fields device message) :
    (sys C).Follows (Sound C) (register conn gatewayId) (fun _ _ => True) l := by
  refine Sys.follows_bind (follows_silent h.sound (fun _ _ => rfl) fun old => Sys.follows_bind ?_)
  have hset : (sys C).Follows (Sound C) (effect (.setActive conn)) (fun _ l => Sound C l) l :=
    Sys.follows_eff fun ch x => ⟨h.register ha, fun _ _ => h.register ha⟩
  have hrest : (sys C).Follows (Sound C) ((effect (.setActive conn)).bind
      fun _ => (effect .now).bind fun connectedAt =>
      effect (.setHash ("device:connection:" ++ .ofList (strUuid conn.deviceId)) conn.connectionId
        gatewayId connectedAt 180))
      (fun _ _ => True) l :=
    Sys.follows_bind (hset.mono fun _ _ hs => Sys.follows_bind (follows_silent hs (fun _ _ => rfl) fun _ =>
      follows_silent hs (fun ch _ => by cases ch <;> rfl) fun _ => trivial))
  cases old with
  | none => exact hrest
  | some old => exact follows_silent h.sound (fun _ _ => rfl) fun _ => hrest

theorem follows_welcome {connectionId deviceId ownerId : UUID} (h : Stage l nonce frame)
    (ha : ∃ nonce fields device message, Admitted C l ⟨deviceId, ownerId, connectionId⟩
      nonce fields device message) :
    (sys C).Follows (Sound C) (welcome connectionId deviceId ownerId) (fun _ _ => True) l := by
  refine Sys.follows_bind (follows_silent h.sound (fun ch _ => by cases ch <;> rfl) fun active => ?_)
  refine Sys.follows_bind (follows_uuid4 h fun gatewayId h => ?_)
  refine Sys.follows_bind (follows_silent h.sound (fun _ _ => rfl) fun now => ?_)
  refine Sys.follows_bind (follows_sendJson h fun h => follows_register h ?_)
  obtain ⟨n, f, d, m, ha⟩ := ha
  exact ⟨n, f, d, m, ha.append.append⟩

theorem follows_consumeChallenge {n : String} {post : Bool → List Ev → Prop} (h : Stage l nonce frame)
    (hp : ∀ v, Stage (l ++ [.getdel (C.nonceKey n) v]) nonce frame →
      post v.isSome (l ++ [.getdel (C.nonceKey n) v])) :
    (sys C).Follows (Sound C) (consumeChallenge C n) post l := by
  have hcases : ∀ ch x, ((Eff.getdel (C.nonceKey n)).handle C ch x).2.2 = [] ∧
      ((Eff.getdel (C.nonceKey n)).handle C ch x).1 = .error .valkey ∨
      ∃ v, ((Eff.getdel (C.nonceKey n)).handle C ch x).2.2 = [.getdel (C.nonceKey n) v] ∧
        ((Eff.getdel (C.nonceKey n)).handle C ch x).1 = .ok v := fun ch x => by
    cases ch with
    | false => exact .inl ⟨rfl, rfl⟩
    | true => cases hx : x.connected <;> exact .inr ⟨_, by simp [Eff.handle, hx]; rfl, by simp [Eff.handle, hx]⟩
  refine Sys.follows_bind (follows_plain h (fun ch x v hv => ?_) fun ch x a ha hs => ?_)
  · rcases hcases ch x with ⟨he, -⟩ | ⟨_, he, -⟩
    · rw [he] at hv; cases hv
    · rw [he] at hv; cases List.mem_singleton.mp hv; rfl
  · rcases hcases ch x with ⟨-, he⟩ | ⟨v, hv, he⟩
    · exact nomatch he.symm.trans ha
    · cases he.symm.trans ha
      rw [hv] at hs ⊢
      exact hp a hs

theorem follows_authenticate {connectionId deviceId : UUID} {n protocolVersion appVersion serverTimeIso : String}
    {fields : List (String × Json)} (h : Stage l nonce frame)
    (hdrew : .drew connectionId ∈ l) (hgen : .generated n ∈ l) (hrec : .received (.frame (.obj fields)) ∈ l)
    (hid : parseDeviceId C ((getField fields "device_id").getD (.str "")) = .ok deviceId) :
    (sys C).Follows (Sound C) (authenticate C connectionId n
      (readResponse fields protocolVersion appVersion serverTimeIso)
      deviceId) (fun _ _ => True) l := by
  refine Sys.follows_bind (follows_raising (f := fun x => (x.db.devices.find deviceId,
    [.deviceRead deviceId (x.db.devices.find deviceId)])) h (fun _ _ => rfl)
    (fun _ v hv => by cases List.mem_singleton.mp hv; rfl) fun x h => ?_)
  generalize x.db.devices.find deviceId = row at h ⊢
  cases row with
  | none => exact follows_refuse h
  | some device =>
    simp only
    split
    · exact follows_refuse h
    rename_i htrust
    refine Sys.follows_bind (Sys.follows_bind (follows_consumeChallenge h fun v h => ?_))
    cases v with
    | none => exact follows_refuse h
    | some v =>
      simp only [Option.isSome_some, Bool.not_true, Bool.false_eq_true, if_false]
      split
      · exact follows_refuse h
      rename_i hver
      rw [Bool.not_eq_true', Bool.not_eq_false] at hver
      refine follows_welcome h ⟨n, fields, device, buildChallengeMessage deviceId connectionId n _ _ _, {
        drew := by simp [hdrew]
        generated := by simp [hgen]
        received := by simp [hrec]
        deviceId := hid
        read := by simp
        trusted := by_contra fun ht => htrust (.inl ht)
        unrevoked := by
          cases hr : device.revokedAt with
          | none => rfl
          | some _ => exact absurd (.inr (by rw [hr]; rfl)) htrust
        owner := rfl
        consumed := ⟨v, by simp⟩
        verified := hver
        message := ⟨_, _, _, rfl⟩ }⟩

theorem follows_respond {connectionId : UUID}
    {n protocolVersion appVersion serverTimeIso : String} {authData : Json}
    (h : Stage l nonce frame) (hdrew : .drew connectionId ∈ l) (hgen : .generated n ∈ l)
    (hrec : .received (.frame authData) ∈ l) :
    (sys C).Follows (Sound C) (respond C protocolVersion appVersion connectionId serverTimeIso n authData)
      (fun _ _ => True) l := by
  cases authData with
  | obj fields =>
    simp only [respond]
    split
    · exact follows_refuse h
    · split
      · rename_i id hid
        exact follows_authenticate h hdrew hgen hrec hid
      · trivial
      · exact follows_refuse h
  | _ => trivial

theorem follows_receiveResponse {connectionId : UUID}
    {n protocolVersion appVersion serverTimeIso : String} {r : Received}
    (h : Stage l nonce frame) (hdrew : .drew connectionId ∈ l) (hgen : .generated n ∈ l) (hrec : .received r ∈ l) :
    (sys C).Follows (Sound C) (receiveResponse C protocolVersion appVersion connectionId serverTimeIso n r)
      (fun _ _ => True) l := by
  cases r with
  | frame authData => exact follows_respond h hdrew hgen hrec
  | undecodable => exact follows_refuse h
  | timeout => exact follows_refuse h
  | raised => exact follows_close h
  | empty =>
    refine Sys.follows_op_eff fun ch x => ?_
    cases ch with
    | true =>
      exact ⟨(h.append (u := [.closed 4001 "Empty auth frame"])
        fun v hv => by cases List.mem_singleton.mp hv; rfl).sound, trivial⟩
    | false => exact ⟨(h.append (u := []) nofun).sound, follows_close (h.append (u := []) nofun)⟩

theorem stage_nil : Stage [] none none where
  registered _ h := nomatch h
  generated _ h := nomatch h
  received _ h := nomatch h

theorem follows_generateChallenge {post : String → List Ev → Prop} (h : Stage l none frame)
    (hp : ∀ n, Stage (l ++ [.generated n]) (some n) frame → post n (l ++ [.generated n])) :
    (sys C).Follows (Sound C) (generateChallenge C) post l := by
  have hgen : ∀ n, Stage (l ++ [.generated n]) (some n) frame := fun n => {
    registered := by simpa using h.registered
    generated := fun m hm => by
      rcases List.mem_append.mp hm with hm | hm
      · exact nomatch h.generated m hm
      · cases List.mem_singleton.mp hm
        rfl
    received := by simpa using h.received }
  refine Sys.follows_bind (Sys.follows_eff fun ch x => ⟨(hgen _).sound, fun a ha => ?_⟩)
  cases ha
  refine Sys.follows_bind (follows_silent (hgen _).sound (fun _ _ => rfl) fun _ => ?_)
  refine Sys.follows_bind (follows_silent (hgen _).sound (fun ch x => ?_) fun _ => hp _ (hgen _))
  cases ch with
  | false => rfl
  | true => cases hx : x.connected <;> simp [Eff.handle, hx]

theorem follows_websocketEndpoint {protocolVersion appVersion : String} :
    (sys C).Follows (Sound C) (websocketEndpoint C protocolVersion appVersion) (fun _ _ => True) [] := by
  refine Sys.follows_bind (follows_uuid4 stage_nil fun connectionId h => ?_)
  refine Sys.follows_bind (follows_silent h.sound (fun _ _ => rfl) fun serverTime => ?_)
  split
  · exact follows_close h
  refine Sys.follows_bind (follows_silent h.sound (fun ch _ => by cases ch <;> rfl) fun _ => ?_)
  refine Sys.follows_bind (follows_generateChallenge h fun n h => ?_)
  refine Sys.follows_bind (follows_sendJson h fun h => ?_)
  have hrec : ∀ r, Stage ([] ++ [Ev.drew connectionId] ++ [.generated n] ++
      [.sent (.authChallenge n connectionId (C.isoformat serverTime) ["v1"])] ++ [.received r])
          (some n) (some r) := fun r =>
    { registered := by simp
      generated := by simp
      received := by simp }
  refine Sys.follows_bind (Sys.follows_eff fun ch x => ⟨(hrec _).sound, fun r hr => ?_⟩)
  cases hr
  exact follows_receiveResponse (hrec _) (by simp) (by simp) (List.mem_append_right _ (List.mem_singleton.mpr rfl))

def Silent (C : Params) : (β : Type) → Stmt β → Prop
  | _, .eff e => ∀ ch x, (e.handle C ch x).2.2 = []
  | _, _ => False

theorem follows_of_silent (h : Sound C l) : ∀ {p : Op Unit}, p.All (Silent C) →
    (sys C).Follows (Sound C) p (fun _ _ => True) l
  | .ret _, _ => trivial
  | .throw _, _ => trivial
  | .op (.eff e) k, hp => Sys.follows_op_eff fun ch x => by
    rw [show ((sys C).handle ch e x).2.2 = [] from hp.1 ch x, List.append_nil]
    exact ⟨h, follows_of_silent h (hp.2 _)⟩

theorem silent_effect {β : Type} (e : Eff β) (h : ∀ ch x, (e.handle C ch x).2.2 = []) : (effect e).All (Silent C) :=
  .call h

theorem silent_raising {β : Type} {ch : Bool} {e : Err} {x : Ext} {a : β} : (raising ch e x a []).2.2 = [] := by
  cases ch <;> rfl

theorem silent_unregister {deviceId connectionId : UUID} : (unregister C deviceId connectionId).All (Silent C) := by
  refine .bind (silent_effect _ fun _ _ => silent_raising) fun valkeyConn => ?_
  refine .bind ?_ fun _ => silent_effect (.delActive deviceId connectionId) fun _ _ => rfl
  unfold deletePresence
  split
  · exact .bind (silent_effect _ fun _ _ => silent_raising) fun _ => silent_effect _ fun _ _ => silent_raising
  · trivial

theorem silent_deviceLifecycleCallback {data : Option Json} : (deviceLifecycleCallback C data).All (Silent C) := by
  unfold deviceLifecycleCallback
  split
  · refine .bind (.attempt (.bind (silent_effect (.getActive _) fun _ _ => rfl) fun conn => ?_)) fun _ => trivial
    cases conn with
    | none => trivial
    | some conn => exact .bind (silent_effect (.closeConnection conn _ _) fun _ _ => rfl) fun _ => silent_unregister
  · trivial

/-- The entries of every handshake of every run. -/
theorem reachable_sound {c : Conf} (h : Reachable C c) (i : Nat) : Sound C (own i c.world.sh.trace) := by
  refine Sys.Reachable.follows stage_nil.sound (fun call => ?_) h i
  cases call with
  | connect => exact follows_websocketEndpoint
  | lifecycle => exact follows_of_silent stage_nil.sound silent_deviceLifecycleCallback

end

/-! ## All handshakes -/

def Once {γ : Type} (f : γ → Ev) (t : List (Nat × Ev)) : Prop := t.Pairwise fun a b => ∀ g, a.2 = f g → b.2 ≠ f g

section
variable {γ : Type} {f : γ → Ev} {t : List (Nat × Ev)} {i : Nat}

theorem Once.append {u : List Ev} (h : Once f t) (hv : ∀ v ∈ u, ∀ g, v ≠ f g) : Once f (t ++ u.map (i, ·)) := by
  have hmap : ∀ b ∈ u.map (i, ·), ∀ g, b.2 ≠ f g := fun b hb => by
    obtain ⟨u, hu, rfl⟩ := List.mem_map.mp hb
    exact hv u hu
  exact List.pairwise_append.mpr ⟨h, List.pairwise_of_forall_mem_list fun _ _ b hb g _ => hmap b hb g,
    fun _ _ b hb g _ => hmap b hb g⟩

theorem Once.concat {v : Ev} (h : Once f t) (hv : ∀ j, (j, v) ∉ t) : Once f (t ++ [(i, v)]) := by
  refine List.pairwise_append.mpr ⟨h, List.pairwise_singleton .., fun ⟨j, u⟩ hm b hb g hu hg => ?_⟩
  cases List.mem_singleton.mp hb
  have huv : u = v := hu.trans hg.symm
  exact hv j (huv ▸ hm)

/-- Whoever drew a value, drew it alone. -/
theorem Once.unique (h : Once f t) {j : Nat} {g : γ} (hi : (i, f g) ∈ t) (hj : (j, f g) ∈ t) : i = j := by
  by_contra hij
  have : Std.Symm fun a b : Nat × Ev => ∀ g, a.2 = f g → b.2 ≠ f g := ⟨fun a b hab g hb ha => hab g ha hb⟩
  exact List.Pairwise.forall h hi hj (fun he => hij (Prod.mk.inj he).1) g rfl rfl

end

/-- What the entries of all handshakes have to do with the surroundings: no
identifier and no nonce comes twice, and the devices that were read are still
there. -/
structure Drawn (C : Params) (t : List (Nat × Ev)) (x : Ext) : Prop where
  ids : ∀ i id, (i, .drew id) ∈ t → id < x.nextId
  nonces : ∀ i n, (i, .generated n) ∈ t → ∃ k < x.nonces, n = C.urandomHex k
  rows : ∀ i id r, (i, .deviceRead id (some r)) ∈ t → ∃ r', x.db.devices.find id = some r' ∧ r.Same r'
  idOnce : Once .drew t
  nonceOnce : Once .generated t

def Ev.other : Ev → Bool
  | .drew _ => false
  | .generated _ => false
  | .deviceRead .. => false
  | _ => true

section
variable {C : Params} {t : List (Nat × Ev)} {x x' : Ext} {i : Nat} {u : List Ev}

theorem keepsDevices_refl (d : DB) : d.KeepsDevices d := fun _ r h => ⟨r, h, .refl r⟩

theorem Drawn.kept (h : Drawn C t x) (hid : x.nextId ≤ x'.nextId) (hn : x.nonces ≤ x'.nonces)
    (hd : x.db.KeepsDevices x'.db) (hv : ∀ v ∈ u, v.other = true) : Drawn C (t ++ u.map (i, ·)) x' := by
  have hold : ∀ {j v}, (j, v) ∈ t ++ u.map (i, ·) → v.other = false → (j, v) ∈ t := fun hm ho => by
    rcases List.mem_append.mp hm with hm | hm
    · exact hm
    · obtain ⟨u, hu, he⟩ := List.mem_map.mp hm
      cases he
      exact absurd ((hv _ hu).symm.trans ho) nofun
  refine ⟨fun j id hm => ?_, fun j n hm => ?_, fun j id r hm => ?_, ?_, ?_⟩
  · exact Nat.lt_of_lt_of_le (h.ids j id (hold hm rfl)) hid
  · obtain ⟨k, hk, rfl⟩ := h.nonces j n (hold hm rfl)
    exact ⟨k, Nat.lt_of_lt_of_le hk hn, rfl⟩
  · obtain ⟨r', hr', hs⟩ := h.rows j id r (hold hm rfl)
    obtain ⟨r'', hr'', hs'⟩ := hd id r' hr'
    exact ⟨r'', hr'', hs.trans hs'⟩
  · exact h.idOnce.append fun v hm id he => absurd (hv v hm) (by rw [he]; nofun)
  · exact h.nonceOnce.append fun v hm n he => absurd (hv v hm) (by rw [he]; nofun)

theorem Drawn.uuid4 (h : Drawn C t x) : Drawn C (t ++ [(i, .drew x.nextId)]) { x with nextId := x.nextId + 1 } where
  ids j id hm := by
    rcases List.mem_append.mp hm with hm | hm
    · exact Nat.lt_succ_of_lt (h.ids j id hm)
    · cases List.mem_singleton.mp hm
      exact Nat.lt_succ_self _
  nonces j n hm := h.nonces j n (by simpa using hm)
  rows j id r hm := h.rows j id r (by simpa using hm)
  idOnce := h.idOnce.concat fun j hm => Nat.lt_irrefl _ (h.ids j _ hm)
  nonceOnce := h.nonceOnce.append (u := [.drew x.nextId]) fun v hv n he => by
    cases List.mem_singleton.mp hv; cases he

theorem Drawn.urandomHex (hinj : Function.Injective C.urandomHex) (h : Drawn C t x) :
    Drawn C (t ++ [(i, .generated (C.urandomHex x.nonces))]) { x with nonces := x.nonces + 1 } where
  ids j id hm := h.ids j id (by simpa using hm)
  nonces j n hm := by
    rcases List.mem_append.mp hm with hm | hm
    · obtain ⟨k, hk, rfl⟩ := h.nonces j n hm
      exact ⟨k, Nat.lt_succ_of_lt hk, rfl⟩
    · cases List.mem_singleton.mp hm
      exact ⟨_, Nat.lt_succ_self _, rfl⟩
  rows j id r hm := h.rows j id r (by simpa using hm)
  idOnce := h.idOnce.append (u := [.generated (C.urandomHex x.nonces)]) fun v hv id he => by
    cases List.mem_singleton.mp hv
    cases he
  nonceOnce := h.nonceOnce.concat fun j hm => by
    obtain ⟨k, hk, he⟩ := h.nonces j _ hm
    exact absurd (hinj he).symm (Nat.ne_of_lt hk)

theorem Drawn.getDevice {id : UUID} (h : Drawn C t x) :
    Drawn C (t ++ [(i, .deviceRead id (x.db.devices.find id))]) x where
  ids j k hm := h.ids j k (by simpa using hm)
  nonces j n hm := h.nonces j n (by simpa using hm)
  rows j k r hm := by
    rcases List.mem_append.mp hm with hm | hm
    · exact h.rows j k r hm
    · simp only [List.mem_singleton, Prod.mk.injEq, Ev.deviceRead.injEq] at hm
      obtain ⟨-, rfl, hr⟩ := hm
      exact ⟨r, hr.symm, .refl r⟩
  idOnce := h.idOnce.append (u := [.deviceRead id (x.db.devices.find id)]) fun v hv id he => by
    cases List.mem_singleton.mp hv
    cases he
  nonceOnce := h.nonceOnce.append (u := [.deviceRead id (x.db.devices.find id)]) fun v hv n he => by
    cases List.mem_singleton.mp hv
    cases he

theorem Drawn.raised {β : Type} {ch : Bool} {e : Err} {a : β} (h : Drawn C t x) (hv : ∀ v ∈ u, v.other = true) :
    Drawn C (t ++ (raising ch e x a u).2.2.map (i, ·)) (raising ch e x a u).2.1 := by
  cases ch with
  | true => exact h.kept (Nat.le_refl _) (Nat.le_refl _) (keepsDevices_refl _) hv
  | false => exact h.kept (Nat.le_refl _) (Nat.le_refl _) (keepsDevices_refl _) nofun

theorem Drawn.handle (hinj : Function.Injective C.urandomHex) (h : Drawn C t x) {β : Type} (e : Eff β) (ch : Bool) :
    Drawn C (t ++ (e.handle C ch x).2.2.map (i, ·)) (e.handle C ch x).2.1 := by
  have hkept : ∀ {x'} {u : List Ev}, x.nextId = x'.nextId → x.nonces = x'.nonces → x.db = x'.db →
      (∀ v ∈ u, v.other = true) → Drawn C (t ++ u.map (i, ·)) x' := fun hid hn hd hv =>
    h.kept hid.le hn.le (hd ▸ keepsDevices_refl _) hv
  have hvalkey : ∀ {x'}, x.nextId = x'.nextId → x.nonces = x'.nonces → x.db = x'.db →
      Drawn C (t ++ (raising (β := Unit) ch .valkey x' () []).2.2.map (i, ·))
          (raising (β := Unit) ch .valkey x' () []).2.1 :=
    fun hid hn hd => by cases ch <;> exact hkept hid hn hd nofun
  have hone : ∀ {v : Ev}, v.other = true → ∀ u ∈ [v], u.other = true := fun hv u hu => by
    rw [List.mem_singleton.mp hu]
    exact hv
  cases e with
  | uuid4 => exact h.uuid4
  | urandomHex => exact h.urandomHex hinj
  | getDevice id =>
    cases ch with
    | true => exact h.getDevice
    | false => exact hkept rfl rfl rfl nofun
  | now => exact hkept rfl rfl rfl nofun
  | accept => exact h.raised nofun
  | sendJson m => exact h.raised (hone rfl)
  | close code reason => exact h.raised (hone rfl)
  | receive => exact hkept rfl rfl rfl (hone rfl)
  | set key value ttl =>
    cases ch with
    | false => exact hkept rfl rfl rfl nofun
    | true =>
      simp only [Eff.handle, Bool.not_true, Bool.false_eq_true, if_false]
      split <;> exact hkept (u := []) rfl rfl rfl nofun
  | getdel key =>
    cases ch with
    | false => exact hkept rfl rfl rfl nofun
    | true =>
      simp only [Eff.handle, Bool.not_true, Bool.false_eq_true, if_false]
      split
      · exact hkept rfl rfl rfl (hone (v := .getdel key (x.valkey key)) rfl)
      · exact hkept rfl rfl rfl (hone (v := .getdel key none) rfl)
  | isActive o => exact h.raised nofun
  | getActive id => exact hkept rfl rfl rfl nofun
  | closeConnection conn code reason => exact hkept rfl rfl rfl nofun
  | setActive conn => exact hkept rfl rfl rfl (hone (v := .registered conn) rfl)
  | delActive id conn => exact hkept rfl rfl rfl nofun
  | getHash key => exact h.raised nofun
  | setHash key conn gw at' ttl => exact hvalkey (by split <;> rfl) (by split <;> rfl) (by split <;> rfl)
  | deleteHash key => exact hvalkey (by split <;> rfl) (by split <;> rfl) (by split <;> rfl)
  | delete key => exact hvalkey (by split <;> rfl) (by split <;> rfl) (by split <;> rfl)

theorem Drawn.env (h : Drawn C t x) (hx : ExtStep x x') : Drawn C t x' := by
  have hkept : x.nextId ≤ x'.nextId → x.nonces ≤ x'.nonces → x.db.KeepsDevices x'.db →
      Drawn C t x' := fun hid hn hd => by
    simpa using h.kept (i := 0) (u := []) hid hn hd nofun
  cases hx with
  | store hd => exact hkept (Nat.le_refl _) (Nat.le_refl _) hd
  | nextId hn => exact hkept hn (Nat.le_refl _) (keepsDevices_refl _)
  | nonces hn => exact hkept (Nat.le_refl _) hn (keepsDevices_refl _)
  | _ => exact hkept (Nat.le_refl _) (Nat.le_refl _) (keepsDevices_refl _)

theorem reachable_drawn (hinj : Function.Injective C.urandomHex) {c : Conf} (h : Reachable C c) :
    Drawn C c.world.sh.trace c.world.sh.ext := by
  induction h with
  | init h =>
    rw [h.trace]
    exact ⟨nofun, nofun, nofun, .nil, .nil⟩
  | step _ hs ih =>
    cases hs with
    | run hp he =>
      rcases Sys.exec_ext he with ⟨e, -, hx, ht⟩ | ⟨hx, u, ht, hv⟩
      · rw [hx, ht]
        exact ih.handle hinj e _
      · rw [hx, ht]
        refine ih.kept (Nat.le_refl _) (Nat.le_refl _) (keepsDevices_refl _) fun v hm => ?_
        rcases hv v hm with ⟨e, rfl⟩ | ⟨l, -⟩
        · rfl
        · exact l.elim
    | start => exact ih
    | env hx => exact ih.env hx

/-! ## The result -/

def Binds (message : String) (deviceId connectionId : UUID) (nonce : String) : Prop :=
  (∃ t p a, message = buildChallengeMessage deviceId connectionId nonce t p a) ∧
    ∀ d k n t p a, IsHex n → message = buildChallengeMessage d k n t p a →
    d = deviceId ∧ k = connectionId ∧ n = nonce

variable {c : Conf}

theorem verify_of_json {k m : String} {s : Json} (h : verifyEd25519Signature C k m s = true) :
    ∃ b, s = .str b ∧ C.verify k m b = true := by
  cases s with
  | str b => exact ⟨b, rfl, h⟩
  | _ => cases h

/-- Two handshakes that were sent the same frame do not both register. -/
theorem frame_unique (hverify : ∀ k m m' s, C.verify k m s = true → C.verify k m' s = true → m = m')
    (hhex : ∀ n, IsHex (C.urandomHex n)) (hd : Drawn C t x) {i j : Nat} {authData : Json}
    (hi : Sound C (own i t)) (hj : Sound C (own j t)) (hri : (i, .received (.frame authData)) ∈ t)
    (hrj : (j, .received (.frame authData)) ∈ t) {conn conn' : DeviceConnection} (hci : (i, .registered conn) ∈ t)
    (hcj : (j, .registered conn') ∈ t) : i = j := by
  obtain ⟨n, f, dev, m, ha⟩ := hi.registered conn (mem_own.mpr hci)
  obtain ⟨n', f', dev', m', hb⟩ := hj.registered conn' (mem_own.mpr hcj)
  have hf : f = f' := by
    have h₁ := hi.received _ _ ha.received (mem_own.mpr hri)
    have h₂ := hj.received _ _ hb.received (mem_own.mpr hrj)
    exact Json.obj.inj (Received.frame.inj (h₁.trans h₂.symm))
  subst hf
  have hdev : conn.deviceId = conn'.deviceId := Except.ok.inj (ha.deviceId.symm.trans hb.deviceId)
  -- both read the key that the device still has
  have hkey : dev.info = dev'.info := by
    obtain ⟨r, hr, hs⟩ := hd.rows i _ _ (mem_own.mp ha.read)
    obtain ⟨r', hr', hs'⟩ := hd.rows j _ _ (mem_own.mp hb.read)
    rw [← hdev, hr] at hr'
    cases hr'
    exact hs.info.symm.trans hs'.info
  obtain ⟨sig, hsig, hv⟩ := verify_of_json ha.verified
  have hv' := hb.verified
  rw [hsig, ← hkey] at hv'
  have hm : m = m' := hverify _ m m' sig hv hv'
  obtain ⟨k, -, hk⟩ := hd.nonces i n (mem_own.mp ha.generated)
  obtain ⟨k', -, hk'⟩ := hd.nonces j n' (mem_own.mp hb.generated)
  obtain ⟨_, _, _, hma⟩ := ha.message
  obtain ⟨_, _, _, hmb⟩ := hb.message
  obtain ⟨-, hc, -⟩ := buildChallengeMessage_inj (hk ▸ hhex k) (hk' ▸ hhex k') (hma.symm.trans (hm.trans hmb))
  exact hd.idOnce.unique (mem_own.mp ha.drew) (hc ▸ mem_own.mp hb.drew)

theorem mem_once {l : List Ev} (h : (l.filter Ev.isRegistered).length ≤ 1) {conn conn' : DeviceConnection}
    (hc : .registered conn ∈ l) (hc' : .registered conn' ∈ l) : conn = conn' := by
  have hm : Ev.registered conn ∈ l.filter Ev.isRegistered := List.mem_filter.mpr ⟨hc, rfl⟩
  have hm' : Ev.registered conn' ∈ l.filter Ev.isRegistered := List.mem_filter.mpr ⟨hc', rfl⟩
  match hl : l.filter Ev.isRegistered with
  | [] => rw [hl] at hm; cases hm
  | [v] =>
    rw [hl, List.mem_singleton] at hm hm'
    exact Ev.registered.inj (hm.trans hm'.symm)
  | _ :: _ :: _ => rw [hl] at h; simp at h

/-- A connection is registered only by a handshake whose device signed its challenge,
each nonce admits one connection at most, and a frame serves one handshake at
most. -/
theorem handshake_authentic (hverify : ∀ k m m' s, C.verify k m s = true → C.verify k m' s = true → m = m')
    (hinj : Function.Injective C.urandomHex) (hhex : ∀ n, IsHex (C.urandomHex n)) (h : Reachable C c) :
    (∀ i conn, (i, .registered conn) ∈ c.world.sh.trace → ∃ nonce fields device message,
      Admitted C (own i c.world.sh.trace) conn nonce fields device message ∧
        (∀ n, (i, .generated n) ∈ c.world.sh.trace → n = nonce) ∧
        Binds message conn.deviceId conn.connectionId nonce) ∧
    (∀ i, ((own i c.world.sh.trace).filter Ev.isRegistered).length ≤ 1) ∧
    (∀ i j n conn conn', (i, .generated n) ∈ c.world.sh.trace → (i, .registered conn) ∈ c.world.sh.trace →
      (j, .generated n) ∈ c.world.sh.trace → (j, .registered conn') ∈ c.world.sh.trace → i = j ∧ conn = conn') ∧
    ∀ i j authData conn, (i, .received (.frame authData)) ∈ c.world.sh.trace →
    (i, .registered conn) ∈ c.world.sh.trace →
      (j, .received (.frame authData)) ∈ c.world.sh.trace → j ≠ i →
      ∀ conn', (j, .registered conn') ∉ c.world.sh.trace := by
  have hs := reachable_sound h
  have hd := reachable_drawn hinj h
  refine ⟨fun i conn hc => ?_, fun i => (hs i).once, fun i j n conn conn' hi hci hj hcj => ?_,
    fun i j authData conn hri hci hrj hji conn' hcj => ?_⟩
  · obtain ⟨nonce, fields, device, message, ha⟩ := (hs i).registered conn (mem_own.mpr hc)
    refine ⟨nonce, fields, device, message, ha, fun n hn => (hs i).generated n nonce (mem_own.mpr hn) ha.generated,
      ha.message, fun d k n t p a hn he => ?_⟩
    obtain ⟨_, _, _, hm⟩ := ha.message
    obtain ⟨k', -, hk'⟩ := hd.nonces i nonce (mem_own.mp ha.generated)
    exact buildChallengeMessage_inj hn (hk' ▸ hhex k') (he.symm.trans hm)
  · have hij := hd.nonceOnce.unique hi hj
    subst hij
    exact ⟨rfl, mem_once (hs i).once (mem_own.mpr hci) (mem_own.mpr hcj)⟩
  · exact hji (frame_unique hverify hhex hd (hs j) (hs i) hrj hri hcj hci)

end

/-! ## The database under the handshakes -/

/-- Whatever the rest of the system does meanwhile is a step of the surroundings. -/
theorem runs_extStep {P : Veyaan.Params} {c c' : Veyaan.Conf} (h : Veyaan.Reachable P c)
    (hr : Runs P c c') {x : Ext} (hx : x.db = c.world.sh.db) : ExtStep x { x with db := c'.world.sh.db } :=
  .store (hx ▸ (runs_later h hr).db.device)

/-! ## A handshake that succeeds -/

def demoParams : Params where
  urandomHex n := .ofList (hex32 n ++ hex32 n)
  isoformat _ := "2026-01-01T00:00:00+00:00"
  parseUuid s := if s = "00000000-0000-0000-0000-000000000005" then some 5 else none
  str _ := ""
  verify k m s :=
    k == "A6EHv/POEL4dcN0Y50vAmWfk1jCbpQ1fHdyGZBJVMbg=" &&
    m == "00000000-0000-0000-0000-000000000005:00000000-0000-0000-0000-000000000001:" ++
      "0000000000000000000000000000000000000000000000000000000000000000:2026-01-01T00:00:00+00:00:v1:1.0.0" &&
    s == "hp1ewBXxVUQ5CkZnZGWNX6f09r/7qFPIX4/KfNX2YwpOnuGqU3NUPKuRvmYDXpmdGGMnHArtXNN9GPizDVTXAg=="

def demoDevice : Device where
  id := 5
  ownerId := 7
  info := { laptop with devicePublicIdentity := "A6EHv/POEL4dcN0Y50vAmWfk1jCbpQ1fHdyGZBJVMbg=" }
  trustStatus := .trusted
  revokedAt := none

def demoSocket : Ext where
  db := { demoDB with devices := Table.empty.put demoDevice }
  valkey _ := none
  connected := true
  hashes _ := none
  activeConnections _ := none
  closed := []
  clock := 0
  nextId := 1
  nonces := 0
  inbox := .timeout
  stopped := false

inductive Move where
  | connect (call : Call)
  | inbox (r : Received)
  | revoke (deviceId : UUID)

def Move.next : Move → Unit → Ext → Option (Call ⊕ Ext)
  | .connect call, _, _ => some (.inl call)
  | .inbox r, _, x => some (.inr { x with inbox := r })
  | .revoke id, _, x => (x.db.devices.find id).map fun r =>
    .inr { x with db.devices := x.db.devices.put { r with trustStatus := .revoked, revokedAt := some x.clock } }

def moves (C : Params) : (sys C).Moves Move where
  next := Move.next
  call _ := trivial
  env {m _ _ _} h := by
    cases m with
    | connect => cases h
    | inbox r => cases h; exact .inbox
    | revoke id =>
      obtain ⟨r, hr, he⟩ := Option.map_eq_some_iff.mp h
      cases he
      have hid : r.id = id := by simpa using Table.key_of_find hr
      subst hid
      exact .store (Table.put_related Device.Same.refl fun b hb => by
        rw [key_device, hr] at hb
        cases hb
        exact ⟨rfl, rfl, fun _ => rfl⟩)

def demoAnswer : Json := .obj [("type", .str "auth_response"),
  ("device_id", .str "00000000-0000-0000-0000-000000000005"),
  ("signature", .str "hp1ewBXxVUQ5CkZnZGWNX6f09r/7qFPIX4/KfNX2YwpOnuGqU3NUPKuRvmYDXpmdGGMnHArtXNN9GPizDVTXAg=="),
  ("protocol_version", .str "v1"), ("app_version", .str "1.0.0")]

def demoRun : List (Turn Move) :=
  .other (.connect (.connect "v1" "1.0.0")) :: List.replicate 7 (.run 0 true) ++
    .other (.inbox (.frame demoAnswer)) :: List.replicate 11 (.run 0 true)

def registeredFirst (c : Conf) : Bool :=
  c.world.sh.trace.any fun e =>
    match e with
    | (0, .registered conn) => conn == ⟨5, 7, 1⟩
    | _ => false

theorem demo_verify (k m m' s : String) (h : demoParams.verify k m s = true)
    (h' : demoParams.verify k m' s = true) : m = m' := by
  simp only [demoParams, Bool.and_eq_true, beq_iff_eq] at h h'
  rw [h.1.2, h'.1.2]

theorem demo_urandomHex_injective : Function.Injective demoParams.urandomHex := fun n m h => by
  have h := String.ofList_injective h
  refine hex32_inj ?_
  have hlen : (hex32 n).length = (hex32 m).length := by
    have := congrArg List.length h
    simp only [List.length_append] at this
    omega
  exact (List.append_inj h hlen).1

theorem demo_urandomHex_isHex (n : Nat) : IsHex (demoParams.urandomHex n) := fun c hc => by
  simp only [demoParams, String.toList_ofList, List.mem_append, or_self] at hc
  exact hex32_isHex hc

theorem handshake_authentic_demo : ∃ c, Reachable demoParams c ∧ (0, .registered ⟨5, 7, 1⟩) ∈ c.world.sh.trace ∧
    ∃ nonce fields device message,
      Admitted demoParams (own 0 c.world.sh.trace) ⟨5, 7, 1⟩ nonce fields device message ∧
      Binds message 5 1 nonce := by
  have hplay : (Sys.play (moves demoParams) demoRun
      ⟨⟨⟨(), demoSocket, []⟩, fun _ => none, fun _ => ⟨[], false⟩⟩, []⟩).any registeredFirst = true := by
        decide +kernel
  obtain ⟨c, hp, hφ⟩ := (Option.any_eq_true _ _).mp hplay
  have hr : Reachable demoParams c :=
    (Sys.Reachable.init ⟨rfl, rfl, fun _ => rfl, fun _ => rfl, trivial⟩).runs (Sys.play_runs _ hp)
  obtain ⟨⟨i, v⟩, hm, hv⟩ := List.any_eq_true.mp hφ
  split at hv
  · rename_i conn heq
    cases heq
    cases beq_iff_eq.mp hv
    obtain ⟨nonce, fields, device, message, ha, -, hb⟩ :=
      (handshake_authentic demo_verify demo_urandomHex_injective demo_urandomHex_isHex hr).1 0 _ hm
    exact ⟨c, hr, hm, nonce, fields, device, message, ha, hb⟩
  · cases hv

end Ws

end Veyaan
