import Veyaan.Lib.Pages
import Veyaan.Payload

/-!
# The four listings

Commands, approvals, audit logs and notifications are listed page by page, newest
first. Each listing asks twice: once for the page, once for the total. A filter with an
empty text is not applied, and the total of the notifications leaves their type out.
-/

namespace Veyaan

/-! ## Tables and queries -/

/-- A row with its `created_at`. -/
structure Dated (ρ : Type) where
  row : ρ
  createdAt : Time

instance {ρ κ : Type} [Keyed ρ κ] : Keyed (Dated ρ) κ := ⟨fun r => key r.row⟩

/-- A row of `audit_logs`, with the columns that can be filtered by. -/
structure AuditRow where
  id : UUID
  userId : Option UUID
  deviceId : Option UUID
  commandId : Option UUID
  category : String
  action : String
  result : String

structure NotificationRecord where
  id : UUID
  userId : UUID
  notificationType : String

instance : Keyed AuditRow UUID := ⟨AuditRow.id⟩
instance : Keyed NotificationRecord UUID := ⟨NotificationRecord.id⟩

def truthy (text : Option String) : Option String := text.filter (· ≠ "")

structure Listing (ρ : Type) where
  sent : Bool
  query : Dated ρ → Bool
  countQuery : Dated ρ → Bool
  matching : Dated ρ → Bool

/-- The arguments of `list_commands`. -/
structure CommandFilters where
  ownerId : Option UUID
  deviceId : Option UUID
  state : Option CommandState
  riskLevel : Option String
  commandType : Option String
  startDate : Option Time
  endDate : Option Time

def CommandFilters.select (f : CommandFilters) (d : DB) (riskLevel commandType : Option String)
    (c : Dated Command) : Bool :=
  f.ownerId.all (fun o => d.ownerOf c.row.deviceId == some o) && f.deviceId.all (c.row.deviceId == ·) &&
    f.state.all (c.row.state == ·) && riskLevel.all (c.row.riskLevel.value == ·) &&
    commandType.all (c.row.commandType == ·) &&
    f.startDate.all (fun t => decide (t ≤ c.createdAt)) && f.endDate.all (fun t => decide (c.createdAt ≤ t))

/-- `list_commands`: the page and the total have the same conditions. -/
def listCommands (d : DB) (f : CommandFilters) : Listing Command where
  sent := (truthy f.riskLevel).all textOk && (truthy f.commandType).all textOk
  query := f.select d (truthy f.riskLevel) (truthy f.commandType)
  countQuery := f.select d (truthy f.riskLevel) (truthy f.commandType)
  matching := f.select d f.riskLevel f.commandType

def selectApprovals (ownerId : UUID) (status riskLevel : Option String) (a : Dated Approval) : Bool :=
  a.row.ownerId == ownerId && status.all (a.row.status.value == ·) && riskLevel.all (a.row.riskLevel.value == ·)

/-- `list_approvals`. -/
def listApprovals (ownerId : UUID) (status riskLevel : Option String) : Listing Approval where
  sent := (truthy status).all textOk && (truthy riskLevel).all textOk
  query := selectApprovals ownerId (truthy status) (truthy riskLevel)
  countQuery := selectApprovals ownerId (truthy status) (truthy riskLevel)
  matching := selectApprovals ownerId status riskLevel

/-- The arguments of `query_audit_logs`. -/
structure AuditFilters where
  userId : Option UUID
  category : Option String
  action : Option String
  result : Option String
  deviceId : Option UUID
  commandId : Option UUID
  startDate : Option Time
  endDate : Option Time

def AuditFilters.select (f : AuditFilters) (category action result : Option String) (r : Dated AuditRow) : Bool :=
  f.userId.all (r.row.userId == some ·) && category.all (r.row.category == ·) && action.all (r.row.action == ·) &&
    result.all (r.row.result == ·) && f.deviceId.all (r.row.deviceId == some ·) &&
    f.commandId.all (r.row.commandId == some ·) &&
    f.startDate.all (fun t => decide (t ≤ r.createdAt)) && f.endDate.all (fun t => decide (r.createdAt ≤ t))

/-- `query_audit_logs`: the total is counted over the query of the page. -/
def queryAuditLogs (f : AuditFilters) : Listing AuditRow where
  sent := (truthy f.category).all textOk && (truthy f.action).all textOk && (truthy f.result).all textOk
  query := f.select (truthy f.category) (truthy f.action) (truthy f.result)
  countQuery := f.select (truthy f.category) (truthy f.action) (truthy f.result)
  matching := f.select f.category f.action f.result

def selectNotifications (userId : UUID) (notificationType : Option String) (n : Dated NotificationRecord) : Bool :=
  n.row.userId == userId && notificationType.all (n.row.notificationType == ·)

/-- `list_for_user`: the total is that of all notifications of the user. -/
def listForUser (userId : UUID) (notificationType : Option String) : Listing NotificationRecord where
  sent := (truthy notificationType).all textOk
  query := selectNotifications userId (truthy notificationType)
  countQuery := selectNotifications userId none
  matching := selectNotifications userId notificationType

/-! ## Exact pages -/

/-- `ORDER BY created_at DESC`. -/
def newestFirst {ρ : Type} (r : Dated ρ) : OrderDual Time := OrderDual.toDual r.createdAt

section
variable {ρ : Type} (L : Listing ρ) (rows : List (Dated ρ)) (size : Nat)

def Listing.Answers (answer : List (Dated ρ)) : Prop := Pages.Answers newestFirst (rows.filter L.query) answer

def Listing.total : Nat := (rows.filter L.countQuery).length

def Listing.hasNext (p : Nat) : Bool := decide (p * size < L.total rows)

open Classical in
/-- What is promised of a listing with pages of this size, when each page may come from
an answer of its own. -/
structure Listing.Exact : Prop where
  answers : L.sent = true
  total : L.total rows = rows.countP L.matching
  next : ∀ a, L.Answers rows a → ∀ p, 1 ≤ p →
    (L.hasNext rows size p = true ↔ ∃ r ∈ a.drop (p * size), L.matching r = true)
  once : ∀ ans : Nat → List (Dated ρ), (∀ p, L.Answers rows (ans p)) → ∀ n,
    (rows.filter L.query).length ≤ n * size → ∀ r ∈ rows, L.matching r = true → (Pages.pages ans size n).count r = 1

/-- The count takes in no row that does not match, and no page ends between two matching
rows of one time. -/
def Listing.Clear : Prop :=
  L.sent = true ∧ (∀ r ∈ rows, L.countQuery r = true → L.matching r = true) ∧
    ∀ p, ¬ Pages.Splits newestFirst (rows.filter L.matching) (p * size)

end

section
variable {ρ : Type} {L : Listing ρ} {rows : List (Dated ρ)} {size : Nat}

/-- If the count selects the page and more, and the page all that matches, then the
listing is exact just if it is clear. -/
theorem Listing.exact_iff (hshown : ∀ r, L.matching r = true → L.query r = true)
    (hcounted : ∀ r, L.query r = true → L.countQuery r = true) (hnd : rows.Nodup) (hs : 0 < size) :
    L.Exact rows size ↔ L.Clear rows size := by
  classical
  have hfilter : (∀ r ∈ rows, L.countQuery r = true → L.matching r = true) →
      rows.filter L.query = rows.filter L.matching :=
    fun h => List.filter_congr fun r hr => Bool.eq_iff_iff.mpr ⟨fun hq => h r hr (hcounted r hq), hshown r⟩
  constructor
  · intro h
    have hle : ∀ r ∈ rows, L.countQuery r = true → L.matching r = true := by
      have hcount : (rows.filter L.countQuery).countP L.matching = rows.countP L.matching := by
        rw [List.countP_filter]
        refine List.countP_congr fun r _ => ⟨fun hr => (Bool.and_eq_true_iff.mp hr).1, fun hm => ?_⟩
        exact Bool.and_eq_true_iff.mpr ⟨hm, hcounted r (hshown r hm)⟩
      have hall := List.countP_eq_length.mp (hcount.trans h.total.symm)
      exact fun r hr hc => hall r (List.mem_filter.mpr ⟨hr, hc⟩)
    refine ⟨h.answers, hle, (Pages.once_iff hs (hnd.filter _)).mp fun ans hans n hn r hr => ?_⟩
    rw [← hfilter hle] at hn
    obtain ⟨hr, hm⟩ := List.mem_filter.mp hr
    refine h.once ans (fun p => ?_) n hn r hr hm
    rw [Listing.Answers, hfilter hle]
    exact hans p
  · rintro ⟨hsent, hle, hno⟩
    have hcount : L.total rows = rows.countP L.matching := by
      rw [Listing.total, ← List.countP_eq_length_filter]
      exact List.countP_congr fun r hr => ⟨hle r hr, fun hm => hcounted r (hshown r hm)⟩
    refine ⟨hsent, hcount, fun a ha p hp => ?_, fun ans hans n hn r hr hm => ?_⟩
    · rw [Listing.Answers, hfilter hle] at ha
      have hlen : a.length = L.total rows := by rw [ha.1.length_eq, hcount, List.countP_eq_length_filter]
      rw [Listing.hasNext, decide_eq_true_iff, ← hlen]
      constructor
      · intro hlt
        have hpos : 0 < (a.drop (p * size)).length := by rw [List.length_drop]; omega
        obtain ⟨r, hr⟩ := List.exists_mem_of_length_pos hpos
        exact ⟨r, hr, (List.mem_filter.mp (ha.1.mem_iff.mp (List.mem_of_mem_drop hr))).2⟩
      · rintro ⟨r, hr, -⟩
        have := List.length_pos_of_mem hr
        rw [List.length_drop] at this
        omega
    · rw [hfilter hle] at hn
      have hans' : ∀ p, Pages.Answers newestFirst (rows.filter L.matching) (ans p) := fun p => by
        rw [← hfilter hle]
        exact hans p
      exact (Pages.once_iff hs (hnd.filter _)).mpr hno ans hans' n hn r (List.mem_filter.mpr ⟨hr, hm⟩)

end

theorem truthy_all {text : Option String} {q : String → Bool} (h : text.all q = true) :
    (truthy text).all q = true := by
  cases text with
  | none => rfl
  | some s =>
    rw [truthy, Option.filter_some]
    split
    · exact h
    · rfl

theorem nodup_rows {ρ κ : Type} [Keyed ρ κ] (t : Table ρ) : t.rows.Nodup := List.Nodup.of_map _ t.nodup

/-- **Pagination.** A listing is exact just if PostgreSQL takes its filters, its total
counts no row that does not match, and no page ends between two matching rows of one
time. -/
theorem pagination_exact_iff (size : Nat) (hs : 0 < size) :
    (∀ (t : Table (Dated Command)) d f, (listCommands d f).Exact t.rows size ↔
      (listCommands d f).Clear t.rows size) ∧
    (∀ (t : Table (Dated Approval)) o st risk, (listApprovals o st risk).Exact t.rows size ↔
      (listApprovals o st risk).Clear t.rows size) ∧
    (∀ (t : Table (Dated AuditRow)) f, (queryAuditLogs f).Exact t.rows size ↔
      (queryAuditLogs f).Clear t.rows size) ∧
    ∀ (t : Table (Dated NotificationRecord)) u ty, (listForUser u ty).Exact t.rows size ↔
    (listForUser u ty).Clear t.rows size := by
  refine ⟨fun t d f => ?_, fun t o st risk => ?_, fun t f => ?_, fun t u ty => ?_⟩
  · refine Listing.exact_iff (fun r h => ?_) (fun r h => h) (nodup_rows t) hs
    simp only [listCommands, CommandFilters.select, Bool.and_eq_true] at h ⊢
    obtain ⟨⟨⟨⟨h, hrisk⟩, htype⟩, hstart⟩, hend⟩ := h
    exact ⟨⟨⟨⟨h, truthy_all hrisk⟩, truthy_all htype⟩, hstart⟩, hend⟩
  · refine Listing.exact_iff (fun r h => ?_) (fun r h => h) (nodup_rows t) hs
    simp only [listApprovals, selectApprovals, Bool.and_eq_true] at h ⊢
    exact ⟨⟨h.1.1, truthy_all h.1.2⟩, truthy_all h.2⟩
  · refine Listing.exact_iff (fun r h => ?_) (fun r h => h) (nodup_rows t) hs
    simp only [queryAuditLogs, AuditFilters.select, Bool.and_eq_true] at h ⊢
    obtain ⟨⟨⟨⟨⟨⟨⟨huser, hcat⟩, hact⟩, hres⟩, hdev⟩, hcmd⟩, hstart⟩, hend⟩ := h
    exact ⟨⟨⟨⟨⟨⟨⟨huser, truthy_all hcat⟩, truthy_all hact⟩, truthy_all hres⟩, hdev⟩, hcmd⟩, hstart⟩, hend⟩
  · refine Listing.exact_iff (fun r h => ?_) (fun r h => ?_) (nodup_rows t) hs
    · simp only [listForUser, selectNotifications, Bool.and_eq_true] at h ⊢
      exact ⟨h.1, truthy_all h.2⟩
    · simp only [listForUser, selectNotifications, Bool.and_eq_true] at h ⊢
      exact ⟨h.1, rfl⟩

def demoNotifications : Table (Dated NotificationRecord) :=
  ⟨[⟨⟨1, 7, "approval"⟩, 10⟩, ⟨⟨2, 7, "device"⟩, 20⟩], by decide⟩

/-- The total of one type counts the other as well. -/
theorem notifications_miscounted : ¬ ∀ (t : Table (Dated NotificationRecord)) u ty size, 0 < size →
    (listForUser u ty).Exact t.rows size := by
  intro h
  have htotal := (h demoNotifications 7 (some "approval") 20 (by decide)).total
  revert htotal
  decide

/-- All of them, one to a page. -/
theorem pagination_exact_iff_notifications : (listForUser 7 none).Exact demoNotifications.rows 1 := by
  refine ((pagination_exact_iff 1 (by decide)).2.2.2 demoNotifications 7 none).mpr
    ⟨by decide, by decide, fun p hp => ?_⟩
  have hlt : p * 1 < 2 := hp.lt
  obtain rfl | rfl : p = 0 ∨ p = 1 := by omega
  · exact Pages.not_splits_zero hp
  · revert hp
    decide

end Veyaan
