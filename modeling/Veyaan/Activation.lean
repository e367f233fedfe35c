import Veyaan.Schedule
import Veyaan.Serial.Workers

/-!
# Activating the emergency stop

An activation that nobody interferes with blocks the commands of the owner that
wait to be delivered, and no others, whatever the database has come to. The
database takes the rows only for users that it knows.
-/

namespace Veyaan

open Sys

/-! ## The commands that are blocked -/

/-- The command is one of the owner that `_block_commands` selects. -/
def DB.isBlockable (d : DB) (owner : UUID) (c : Command) : Bool :=
  d.ownerOf c.deviceId == some owner && (c.state == .queued || c.state == .approved)

def blockedEvent (c : Command) : CommandStateEvent :=
  ⟨c.id, some c.state, .blockedByEmergencyStop, .emergencyStopActivation, none⟩

section
variable {v : DB} {ws : List Write}

theorem blockRows_frame {ids : List UUID} (h : BlockRows v ids ws) :
    (v.write ws) = { v with commands := (v.write ws).commands, events := (v.write ws).events } := by
  induction h with
  | nil => rfl
  | skip _ _ ih => exact ih
  | block _ _ _ ih =>
    rw [DB.write_append, ih]
    rfl

theorem blockRows_effect : ∀ {cs : List Command} {v : DB} {ws : List Write}, BlockRows v (cs.map Command.id) ws →
    (cs.map Command.id).Nodup →
    (∀ c ∈ cs, v.commands.find c.id = some c ∧ accepts c.state .blockedByEmergencyStop = true) →
    (∀ c ∈ cs, ∃ u, (v.write ws).commands.find c.id = some
      { c with state := .blockedByEmergencyStop, updatedAt := u }) ∧
      (∀ id, id ∉ cs.map Command.id → (v.write ws).commands.find id = v.commands.find id) ∧
      (v.write ws).events = v.events ++ cs.map blockedEvent
  | [], v, ws, h, _, _ => by
    cases h
    exact ⟨by simp, fun _ _ => rfl, by simp⟩
  | c :: cs, v, ws, h, hnd, hcs => by
    obtain ⟨hc, hacc⟩ := hcs c (List.mem_cons_self ..)
    obtain ⟨hnot, hnd⟩ := List.nodup_cons.mp hnd
    cases h with
    | skip hno _ =>
      rw [hno c hc] at hacc
      cases hacc
    | @block v id ids x u n ws hx _ hrest =>
      cases hc.symm.trans hx
      have hfind : ∀ id, id ≠ c.id →
        (v.write (moveRows c .blockedByEmergencyStop .emergencyStopActivation none u n)).commands.find id =
          v.commands.find id := fun id hne => by
        rw [write_moveRows]
        exact Table.find_put_ne _ hne.symm
      obtain ⟨hblocked, hother, hevents⟩ := blockRows_effect hrest hnd fun y hy => by
        obtain ⟨hy', haccy⟩ := hcs y (List.mem_cons_of_mem _ hy)
        refine ⟨?_, haccy⟩
        rw [hfind _ fun he => hnot (he ▸ List.mem_map_of_mem hy)]
        exact hy'
      rw [DB.write_append]
      refine ⟨fun y hy => ?_, fun id hid => ?_, ?_⟩
      · rcases List.mem_cons.mp hy with rfl | hy
        · refine ⟨u, ?_⟩
          rw [hother _ hnot]
          exact find_moveRows ..
        · exact hblocked y hy
      · simp only [List.map_cons, List.mem_cons, not_or] at hid
        rw [hother id hid.2, hfind id hid.1]
      · rw [hevents, List.map_cons, List.append_cons]
        rfl

end

/-! ## The whole activation -/

/-- What an activation for this reason by this actor makes of the database. -/
structure BlocksPending (owner : UUID) (reason : String) (actor : UUID) (d d' : DB) : Prop where
  blocked : ∀ id c, d.commands.find id = some c → d.isBlockable owner c = true →
    ∃ u, d'.commands.find id = some { c with state := .blockedByEmergencyStop, updatedAt := u }
  spared : ∀ id c, d.commands.find id = some c → d.isBlockable owner c = false → d'.commands.find id = some c
  absent : ∀ id, d.commands.find id = none → d'.commands.find id = none
  events : d'.events = d.events ++ (d.commands.rows.filter (d.isBlockable owner)).map blockedEvent
  stop : ∃ t, d'.stops = d.stops.put ⟨owner, true, some reason, some t, none, some actor, none⟩
  audits : d'.audits = d.audits ++
    [{ action := .emergencyStopActivated, userId := actor, note := some reason, ownerId := some owner }]
  outbox : ∃ e t, d'.outbox.rows = d.outbox.rows ++ [e] ∧
    e.eventType = .emergencyStopActivated ∧ e.aggregateType = .owner ∧
    e.aggregateId = owner ∧ e.status = .pending ∧ e.msg = .emergencyStop owner ⟨owner, true, some reason, t⟩
  rest : d'.tasks = d.tasks ∧ d'.approvals = d.approvals ∧ d'.users = d.users ∧ d'.devices = d.devices ∧
    d'.credentials = d.credentials ∧ d'.pairings = d.pairings

section
variable {P : Params} {d : DB} {owner : UUID} {reason : String} {actor : UUID} {ws : List Write}

theorem Rows.blocksPending (h : Rows P d (.activate owner reason actor) ws) (hstop : d.stopActive owner = false) :
    BlocksPending owner reason actor d (d.write ws) := by
  cases h with
  | reactivate hs hact _ =>
    rw [DB.stopActive, hs] at hstop
    cases hact.symm.trans hstop
  | @activate _ _ _ now now' ws eid at' existing hex hin hblock he =>
    have howner : ((existing.map EmergencyStop.ownerId).getD owner) = owner := by
      cases existing with
      | none => rfl
      | some s => exact by simpa using Table.key_of_find hex
    have hids : d.blockable owner = (d.commands.rows.filter (d.isBlockable owner)).map Command.id := rfl
    rw [hids] at hblock
    obtain ⟨hblocked, hother, hevents⟩ := blockRows_effect hblock
      (d.commands.nodup_filter _ fun _ _ (h : _ = _) => h)
      fun c hc => by
      obtain ⟨hmem, hb⟩ := List.mem_filter.mp hc
      refine ⟨Table.find_of_mem hmem, ?_⟩
      simp only [DB.isBlockable, Bool.and_eq_true, Bool.or_eq_true, beq_iff_eq] at hb
      rcases hb.2 with hst | hst <;> rw [hst] <;> decide
    have hframe : ((Write.stop (activeStop existing owner reason actor now)).apply d).write ws = _ :=
      blockRows_frame hblock
    have hsome : ∀ id c, d.commands.find id = some c → d.isBlockable owner c = true →
        c ∈ d.commands.rows.filter (d.isBlockable owner) ∧ c.id = id := fun id c hc hb =>
      ⟨List.mem_filter.mpr ⟨Table.mem_of_find hc, hb⟩, by simpa using Table.key_of_find hc⟩
    rw [List.cons_append, DB.write_cons, DB.write_append, hframe]
    refine ⟨fun id c hc hb => ?_, fun id c hc hb => ?_, fun id hn => ?_, hevents, ⟨now, ?_⟩, rfl, ?_,
      rfl, rfl, rfl, rfl, rfl, rfl⟩
    · obtain ⟨hmem, rfl⟩ := hsome id c hc hb
      exact hblocked c hmem
    · refine (hother id fun hid => ?_).trans hc
      obtain ⟨x, hx, hxid⟩ := List.mem_map.mp hid
      obtain ⟨hxmem, hxb⟩ := List.mem_filter.mp hx
      have hxf : d.commands.find id = some x := hxid ▸ Table.find_of_mem hxmem
      cases hc.symm.trans hxf
      rw [hxb] at hb
      cases hb
    · refine (hother id fun hid => ?_).trans hn
      obtain ⟨x, hx, hxid⟩ := List.mem_map.mp hid
      have hxf : d.commands.find id = some x := hxid ▸ Table.find_of_mem (List.mem_filter.mp hx).1
      rw [hn] at hxf
      cases hxf
    · simp only [DB.write_cons, DB.write_nil, Write.apply, activeStop, howner]
    · exact ⟨_, now', Table.rows_put_new he, rfl, rfl, rfl, rfl, rfl⟩

/-- The transaction of the activation has committed all its rows, or the database does
not take them. -/
def ActivateEnds (P : Params) (owner : UUID) (reason : String) (actor : UUID) (d : DB) :
    Except Err (Option (Option EmergencyStop)) → DB → Prop
  | .ok a, d' => a.isSome = true ∧ d.takesStop owner reason actor = true ∧
      ∃ ws, Rows P d (.activate owner reason actor) ws ∧ d' = d.write ws
  | .error _, d' => d.takesStop owner reason actor = false ∧ d' = d

variable {J : Ext → Prop}

theorem within_activateRow (hstop : d.stopActive owner = false) (hy : d.Yields)
    (hJ : ∀ x, J x → d.outbox.find x.nextId = none) : within P false J (fun _ => True)
      (withSession (activateRow owner reason actor))
      (fun r d' _ => ActivateEnds P owner reason actor d r d') d (.idle d) := by
  have hfrom : ∀ {existing}, d.stops.find owner = existing → existing.all (!·.active) = true →
      within P false J (fun _ => True) (activateRow.activateFrom owner reason actor existing)
        (Closing false (fun _ => True) fun r d' _ => ActivateEnds P owner reason actor d r d') d
            (Open.idle d).lock := by
    intro existing hex hin
    refine within_activateFrom hex hin (fun hbad r o hr => ?_) fun ws ht hrows => ?_
    · have htakes : d.takesStop owner reason actor = false := by
        rcases hbad with h | h | h | ⟨x, hx, h⟩
        · cases h
        · exact h
        · exact absurd hy h
        · rw [hJ x hx] at h; cases h
      cases r with
      | ok a => exact ⟨fun _ => ⟨htakes, rfl⟩, fun hf => by rw [hr a rfl] at hf; cases hf⟩
      | error e => exact ⟨htakes, rfl⟩
    · refine ⟨trivial, by simp, fun stop => ⟨fun h => ?_, fun _ => ⟨trivial, rfl, ht, ws, hrows, rfl⟩⟩⟩
      simp [Open.idle] at h
  refine solo_withSession ?_
  unfold activateRow
  refine solo_selectForUpdate rfl (by simp) ?_
  cases hs : d.stops.find owner with
  | none =>
    simp only [Open.idle, hs]
    exact hfrom hs rfl
  | some stop =>
    have hoff : stop.active = false := by
      rw [DB.stopActive, hs] at hstop
      exact hstop
    simp only [Open.idle, hs]
    rw [if_neg (by simp [hoff])]
    exact hfrom hs (by simp [hoff])

theorem within_activate (hstop : d.stopActive owner = false) (hy : d.Yields)
    (hJ : ∀ x, J x → d.outbox.find x.nextId = none) : within P false J (fun _ => True) (activate owner reason actor)
      (fun _ d' _ => ∃ r, ActivateEnds P owner reason actor d r d') d (.idle d) := by
  refine alone_bind (alone_mono (fun r d' o' h => ?_) (within_activateRow hstop hy hJ))
  cases r with
  | error e => exact ⟨_, h⟩
  | ok a =>
    cases a with
    | none => cases h.1
    | some stop => exact solo_last fun _ => ⟨_, h⟩

end

/-! ## Reachable states -/

theorem reachable_yields {P : Params} {c : Conf} (h : Reachable P c) : c.world.sh.db.Yields := fun id x hx =>
  ⟨(reachable_fits h).command id x hx, ((reachable_inv h).db.live id x hx).2⟩

/-- **Activation.** From every state that the system reaches, an activation that nobody
interferes with blocks the pending commands of the owner and changes nothing else but the
stop, the audit log and the outbox, exactly if the database takes its rows. -/
theorem activation_blocks_iff {P : Params} {c : Conf} {owner : UUID} {reason : String} {actor : UUID}
    {x : Except Err Unit} {w' : Wd} (h : Reachable P c) (hstop : c.world.sh.db.stopActive owner = false)
    (hids : ∀ e ∈ c.world.sh.db.outbox.rows, e.id < c.world.sh.ext.nextId)
    (hrun : (sys P).Alone false 0 (activate owner reason actor) (fresh c.world.sh.db c.world.sh.ext).world x w') :
    BlocksPending owner reason actor c.world.sh.db w'.sh.db ↔
      (textOk reason = true ∧ c.world.sh.db.isUser actor = true ∧
        ((c.world.sh.db.stops.find owner).isSome = true ∨ c.world.sh.db.isUser owner = true)) := by
  have htakes : c.world.sh.db.takesStop owner reason actor = true ↔
    (textOk reason = true ∧ c.world.sh.db.isUser actor = true ∧
      ((c.world.sh.db.stops.find owner).isSome = true ∨ c.world.sh.db.isUser owner = true)) := by
    simp only [DB.takesStop, Bool.and_eq_true, Bool.or_eq_true, and_assoc]
  have hunused : ∀ y : Ext, c.world.sh.ext.nextId ≤ y.nextId →
      c.world.sh.db.outbox.find y.nextId = none := fun y hy =>
    Table.find_none fun e he => Nat.ne_of_lt (Nat.lt_of_lt_of_le (hids e he) hy)
  obtain ⟨d', o', hm, r, hd'⟩ := calm_sound (fresh_matches ..)
    (within_activate hstop (reachable_yields h) fun y hy => hunused y hy.2) (calm_nextId hrun.calm)
  rw [hm.db, ← htakes]
  cases r with
  | ok a =>
    obtain ⟨-, ht, ws, hrows, rfl⟩ := hd'
    exact iff_of_true (hrows.blocksPending hstop) ht
  | error e =>
    obtain ⟨ht, rfl⟩ := hd'
    refine iff_of_false (fun hb => ?_) (by simp [ht])
    -- without the rows the stop stays as it was
    obtain ⟨t, hst⟩ := hb.stop
    have : c.world.sh.db.stopActive owner = true := by
      rw [DB.stopActive, hst, Table.find_put, if_pos (by rfl)]
    rw [hstop] at this
    cases this

/-- An owner whom `users` does not know cannot activate the stop. -/
theorem activation_blocks_nothing :
    ¬ ∀ (c : Conf) (owner : UUID) (reason : String) (actor : UUID) (x : Except Err Unit) (w' : Wd),
    Reachable demo c → c.world.sh.db.stopActive owner = false →
    (∀ e ∈ c.world.sh.db.outbox.rows, e.id < c.world.sh.ext.nextId) →
    (sys demo).Alone false 0 (activate owner reason actor) (fresh c.world.sh.db c.world.sh.ext).world x w' →
    BlocksPending owner reason actor c.world.sh.db w'.sh.db := by
  intro hall
  have h : ((sys demo).finish 0 (activate 9 "stop" 9) demoStart.world).any
      (fun x => (x.2.sh.db.stops.find 9).isNone) = true := by
    decide +kernel
  obtain ⟨⟨x, w'⟩, hrun, hnone⟩ := (Option.any_eq_true _ _).mp h
  obtain ⟨t, hst⟩ := (hall demoStart 9 "stop" 9 x w' demo_reachable rfl (by decide) (finish_alone hrun)).stop
  simp only [hst] at hnone
  rw [Table.find_put, if_pos (by rfl)] at hnone
  cases hnone

/-- A queued ping, whose owner activates the stop. -/
theorem activation_blocks_iff_ping : ∃ c x w' cmd, Reachable demo c ∧ c.world.sh.db.commands.find 10 = some cmd ∧
    cmd.state = .queued ∧
    (sys demo).Alone false 0 (activate 7 "stop" 7) (fresh c.world.sh.db c.world.sh.ext).world x w' ∧
    BlocksPending 7 "stop" 7 c.world.sh.db w'.sh.db := by
  obtain ⟨c, hr, hc⟩ := played (P := demo) (c := demoStart)
    (t := .other (.call (.create (ping false) 7)) :: steps 0 26)
    (φ := fun c => (c.world.sh.db.commands.find 10).any (·.state == .queued) && !c.world.sh.db.stopActive 7 &&
      c.world.sh.db.outbox.rows.all (fun e => decide (e.id < c.world.sh.ext.nextId)) && c.world.sh.db.isUser 7 &&
      ((sys demo).finish 0 (activate 7 "stop" 7) (fresh c.world.sh.db c.world.sh.ext).world).isSome)
      (by decide +kernel)
  simp only [Bool.and_eq_true, Option.any_eq_true, beq_iff_eq, Bool.not_eq_true',
    List.all_eq_true, decide_eq_true_eq, Option.isSome_iff_exists, Prod.exists] at hc
  obtain ⟨⟨⟨⟨⟨cmd, hcmd, hst⟩, hoff⟩, hids⟩, huser⟩, x, w', hrun⟩ := hc
  have hreach := Reachable.runs demo_reachable hr
  exact ⟨c, x, w', cmd, hreach, hcmd, hst, finish_alone hrun,
    (activation_blocks_iff hreach hoff hids (finish_alone hrun)).mpr ⟨by decide, huser, .inr huser⟩⟩

end Veyaan
