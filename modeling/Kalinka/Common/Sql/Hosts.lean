import Mathlib.Data.Fintype.EquivFin
import Mathlib.Data.Int.Notation
import Mathlib.Logic.Function.Basic
import Kalinka.Lib.Keyed
import Kalinka.Lib.Run

/-!
# Host UUIDs

`klk_host_get_uuid` selects the host of a name `FOR UPDATE`, and a handler for NOT FOUND calls
`klk_host_add`, which inserts the host and its main application.  The calls for one name run at the
same time, a statement at a time, in READ COMMITTED transactions: the select locks the row that it
finds, and where it finds none it locks nothing.

`calls_agree_iff` says exactly in which runs all calls succeed with the same UUID and leave one host
and one main application.
-/

namespace Kalinka.Server

open Keyed Run

variable {Text : Type} [DecidableEq Text] {n : ℕ}

/-- A row of `klk_hosts`. -/
structure Host (Text : Type) where
  host : Text
  hostName : Text
  cpuIndexTyp : ℤ
  cpuIndexMax : ℤ
  deriving DecidableEq, Repr

/-- A row of `klk_applications`. -/
structure Application (Text : Type) where
  application : Text
  module : Text
  enabled : ℤ
  priority : ℤ
  status : ℤ
  host : Option Text
  deriving DecidableEq, Repr

/-- The application is the main one of the host. -/
def Application.IsMain (commonId host : Text) (app : Application Text) : Prop :=
  app.module = commonId ∧ app.host = some host

/-- The two violate the unique key of module and host: it lets a NULL stand twice. -/
def Application.Collide (app app' : Application Text) : Prop :=
  app.module = app'.module ∧ app.host = app'.host ∧ app.host ≠ none

instance (commonId host : Text) (app : Application Text) : Decidable (app.IsMain commonId host) :=
  inferInstanceAs (Decidable (_ ∧ _))

/-- Where a call of `klk_host_get_uuid` is, with the rows that its transaction has inserted. -/
inductive HostCall (Text : Type)
  | idle
  /-- behind `START TRANSACTION` -/
  | begun
  /-- in the handler, before the first INSERT of `klk_host_add` -/
  | missed
  /-- before the second INSERT -/
  | hostAdded (row : Host Text)
  /-- before COMMIT -/
  | added (row : Host Text) (app : Application Text)
  /-- before COMMIT, with a lock on the row that the select has found -/
  | found (host : Text)
  | done (host : Text)
  /-- an error of the server has ended the call, and its transaction is open -/
  | failed (row : Option (Host Text))
  /-- and now it is rolled back -/
  | rolledBack
  deriving DecidableEq, Repr

namespace HostCall

/-- The host that others do not see yet. -/
def inserted : HostCall Text → Option (Host Text)
  | .hostAdded row => some row
  | .added row _ => some row
  | .failed row => row
  | _ => none

/-- What the call has read, or has returned. -/
def answer : HostCall Text → Option Text
  | .found host => some host
  | .done host => some host
  | _ => none

/-- A select for update waits for the call.  Where an INSERT has failed with a duplicate key, that
has set a shared lock on the row. -/
def blocksSelect : HostCall Text → Bool
  | .hostAdded _ | .added _ _ | .found _ | .failed _ => true
  | _ => false

/-- An INSERT of the name waits for the call. -/
def blocksInsert : HostCall Text → Bool
  | .hostAdded _ | .added _ _ | .found _ | .failed (some _) => true
  | _ => false

def isFailed : HostCall Text → Bool
  | .failed _ | .rolledBack => true
  | _ => false

/-- The call has not begun, or has ended. -/
def isOver : HostCall Text → Bool
  | .idle | .done _ | .failed _ | .rolledBack => true
  | _ => false

end HostCall

/-- The committed rows, and `n` calls for one name. -/
structure Hosts (Text : Type) (n : ℕ) where
  hosts : List (Host Text) := []
  applications : List (Application Text) := []
  calls : Fin n → HostCall Text := fun _ => .idle
  /-- what is in the tables and what `UUID()` has given -/
  uuids : List Text := []

/-- A statement of a call; `uuid` is what `UUID()` gives. -/
inductive HostAction (Text : Type) (n : ℕ)
  | start (i : Fin n)
  | select (i : Fin n)
  | insertHost (i : Fin n) (uuid : Text)
  | insertApplication (i : Fin n) (uuid : Text)
  | commit (i : Fin n)
  /-- the client ends the transaction of a call that failed -/
  | rollback (i : Fin n)

namespace Hosts

def setCall (s : Hosts Text n) (i : Fin n) (c : HostCall Text) : Hosts Text n :=
  { s with calls := Function.update s.calls i c }

/-- One statement of a call for the host `name`: `none` while it waits for a lock. -/
def step (commonId name : Text) (s : Hosts Text n) : HostAction Text n → Option (Hosts Text n)
  | .start i =>
    match s.calls i with
    | .idle => some (s.setCall i .begun)
    | _ => none
  | .select i =>
    match s.calls i with
    | .begun =>
      if ∃ j, j ≠ i ∧ (s.calls j).blocksSelect = true then none
      else
        match select Host.hostName name s.hosts with
        | some row => some (s.setCall i (.found row.host))
        | none => some (s.setCall i .missed)
    | _ => none
  | .insertHost i uuid =>
    match s.calls i with
    | .missed =>
      if uuid ∈ s.uuids ∨ ∃ j, j ≠ i ∧ (s.calls j).blocksInsert = true then none
      else
        let s := { s with uuids := uuid :: s.uuids }
        if ∃ row ∈ s.hosts, row.host = uuid ∨ row.hostName = name then
          some (s.setCall i (.failed none))
        else some (s.setCall i (.hostAdded ⟨uuid, name, 0, 0⟩))
    | _ => none
  | .insertApplication i uuid =>
    match s.calls i with
    | .hostAdded row =>
      if uuid ∈ s.uuids then none
      else
        let s := { s with uuids := uuid :: s.uuids }
        -- the host is new, so there is no uncommitted application of it
        if ∃ app ∈ s.applications, app.application = uuid ∨ app.IsMain commonId row.host then
          some (s.setCall i (.failed (some row)))
        else some (s.setCall i (.added row ⟨uuid, commonId, 1, 0, 0, some row.host⟩))
    | _ => none
  | .commit i =>
    match s.calls i with
    | .found host => some (s.setCall i (.done host))
    | .added row app =>
      some { s.setCall i (.done row.host) with
        hosts := s.hosts ++ [row]
        applications := s.applications ++ [app] }
    | _ => none
  | .rollback i =>
    match s.calls i with
    | .failed _ => some (s.setCall i .rolledBack)
    | _ => none

/-- What a call with the answer `host` leaves. -/
structure Kept (commonId name host : Text) (s : Hosts Text n) : Prop where
  hosts : ∃ row, s.hosts.filter (·.hostName = name) = [row] ∧ row.host = host
  main : ∃ app, s.applications.filter (·.IsMain commonId host) = [app]

/-- No call fails, and those that are done agree. -/
structure Agreed (commonId name : Text) (s : Hosts Text n) : Prop where
  succeeds : ∀ i, (s.calls i).isFailed = false
  same : ∀ i j host host', s.calls i = .done host → s.calls j = .done host' → host = host'
  kept : ∀ i host, s.calls i = .done host → s.Kept commonId name host

/-- The condition on a select: it misses the row only while no other call has missed it and not yet
inserted it, and a host that it finds has its main application. -/
def SelectOk (commonId name : Text) (s : Hosts Text n) : HostAction Text n → Prop
  | .select _ =>
    match select Host.hostName name s.hosts with
    | some row => ∃ app ∈ s.applications, app.IsMain commonId row.host
    | none => ∀ j, s.calls j ≠ .missed
  | _ => True

/-- The tables keep their unique keys, and no call has begun. -/
structure Ready (s : Hosts Text n) : Prop where
  idle : ∀ i, s.calls i = .idle
  hostName : Primary Host.hostName s.hosts
  moduleHost : s.applications.Pairwise fun app app' => ¬app.Collide app'
  hostUuid : ∀ row ∈ s.hosts, row.host ∈ s.uuids
  appUuid : ∀ app ∈ s.applications, app.application ∈ s.uuids
  appHost : ∀ app ∈ s.applications, ∀ host, app.host = some host → host ∈ s.uuids

/-- No call is on its way. -/
def Over (s : Hosts Text n) : Prop := ∀ i, (s.calls i).isOver = true

/-- While a call is on its way, there is one that need not wait. -/
def GoesOn (commonId name : Text) (s : Hosts Text n) : Prop :=
  (∃ i, (s.calls i).isOver = false) →
    ∃ a s', (∀ i, a ≠ .start i) ∧ s.step commonId name a = some s'

variable {s s' t : Hosts Text n} {a : HostAction Text n} {as : List (HostAction Text n)}
variable {commonId name uuid host : Text} {row : Host Text} {app : Application Text} {i j : Fin n}
variable {c : HostCall Text}

/-! ## The statements -/

omit [DecidableEq Text] in
@[simp] theorem calls_setCall_self : (s.setCall i c).calls i = c := Function.update_self ..

omit [DecidableEq Text] in
theorem calls_setCall_of_ne (h : j ≠ i) : (s.setCall i c).calls j = s.calls j :=
  Function.update_of_ne h ..

omit [DecidableEq Text] in
theorem forall_setCall_iff {p : Fin n → HostCall Text → Prop} :
    (∀ k, p k ((s.setCall i c).calls k)) ↔ p i c ∧ ∀ k, k ≠ i → p k (s.calls k) :=
  Function.forall_update_iff s.calls p

/-- What a step can do. -/
inductive Steps (commonId name : Text) (s : Hosts Text n) :
    HostAction Text n → Hosts Text n → Prop
  | starts {i : Fin n} (hcall : s.calls i = .idle) :
      Steps commonId name s (.start i) (s.setCall i .begun)
  | finds {i : Fin n} {row : Host Text} (hcall : s.calls i = .begun)
      (hrow : select Host.hostName name s.hosts = some row) :
      Steps commonId name s (.select i) (s.setCall i (.found row.host))
  | misses {i : Fin n} (hcall : s.calls i = .begun)
      (hfree : ∀ j, j ≠ i → (s.calls j).blocksSelect = false)
      (hrow : select Host.hostName name s.hosts = none) :
      Steps commonId name s (.select i) (s.setCall i .missed)
  | inserts {i : Fin n} {uuid : Text} (hcall : s.calls i = .missed) (hnew : uuid ∉ s.uuids)
      (hfree : ∀ j, j ≠ i → (s.calls j).blocksInsert = false)
      (hkey : ∀ row ∈ s.hosts, row.hostName ≠ name) :
      Steps commonId name s (.insertHost i uuid)
        (setCall { s with uuids := uuid :: s.uuids } i (.hostAdded ⟨uuid, name, 0, 0⟩))
  | duplicate {i : Fin n} {uuid : Text} {row : Host Text} (hcall : s.calls i = .missed)
      (hnew : uuid ∉ s.uuids) (hrow : row ∈ s.hosts)
      (hkey : row.host = uuid ∨ row.hostName = name) :
      Steps commonId name s (.insertHost i uuid)
        (setCall { s with uuids := uuid :: s.uuids } i (.failed none))
  | creates {i : Fin n} {uuid : Text} {row : Host Text} (hcall : s.calls i = .hostAdded row)
      (hnew : uuid ∉ s.uuids) :
      Steps commonId name s (.insertApplication i uuid)
        (setCall { s with uuids := uuid :: s.uuids } i
          (.added row ⟨uuid, commonId, 1, 0, 0, some row.host⟩))
  | refused {i : Fin n} {uuid : Text} {row : Host Text} {app : Application Text}
      (hcall : s.calls i = .hostAdded row) (hnew : uuid ∉ s.uuids) (happ : app ∈ s.applications)
      (hkey : app.application = uuid ∨ app.IsMain commonId row.host) :
      Steps commonId name s (.insertApplication i uuid)
        (setCall { s with uuids := uuid :: s.uuids } i (.failed (some row)))
  | returns {i : Fin n} {host : Text} (hcall : s.calls i = .found host) :
      Steps commonId name s (.commit i) (s.setCall i (.done host))
  | commits {i : Fin n} {row : Host Text} {app : Application Text}
      (hcall : s.calls i = .added row app) :
      Steps commonId name s (.commit i) { s.setCall i (.done row.host) with
        hosts := s.hosts ++ [row]
        applications := s.applications ++ [app] }
  | rollsBack {i : Fin n} {row : Option (Host Text)} (hcall : s.calls i = .failed row) :
      Steps commonId name s (.rollback i) (s.setCall i .rolledBack)

omit [DecidableEq Text] in
theorem free_of_not_exists {p : HostCall Text → Bool}
    (h : ¬∃ j, j ≠ i ∧ p (s.calls j) = true) : ∀ j, j ≠ i → p (s.calls j) = false :=
  fun j hj => eq_false_of_ne_true fun hp => h ⟨j, hj, hp⟩

theorem step_cases (hs : s.step commonId name a = some s') : Steps commonId name s a s' := by
  cases a with
  | start i =>
    simp only [step] at hs
    split at hs
    · rename_i hcall
      cases hs
      exact .starts hcall
    · cases hs
  | select i =>
    simp only [step] at hs
    split at hs
    · rename_i hcall
      obtain ⟨hfree, hs⟩ := Option.ite_none_left_eq_some.1 hs
      split at hs
      · rename_i row hrow
        cases hs
        exact .finds hcall hrow
      · rename_i hrow
        cases hs
        exact .misses hcall (free_of_not_exists hfree) hrow
    · cases hs
  | insertHost i uuid =>
    simp only [step] at hs
    split at hs
    · rename_i hcall
      obtain ⟨hfree, hs⟩ := Option.ite_none_left_eq_some.1 hs
      obtain ⟨hnew, hfree⟩ := not_or.1 hfree
      split at hs
      · rename_i hkey
        obtain ⟨row, hrow, hkey⟩ := hkey
        cases hs
        exact .duplicate hcall hnew hrow hkey
      · rename_i hkey
        cases hs
        refine .inserts hcall hnew (free_of_not_exists hfree) fun row hrow hname => ?_
        exact hkey ⟨row, hrow, .inr hname⟩
    · cases hs
  | insertApplication i uuid =>
    simp only [step] at hs
    split at hs
    · rename_i row hcall
      obtain ⟨hnew, hs⟩ := Option.ite_none_left_eq_some.1 hs
      split at hs
      · rename_i hkey
        obtain ⟨app, happ, hkey⟩ := hkey
        cases hs
        exact .refused hcall hnew happ hkey
      · cases hs
        exact .creates hcall hnew
    · cases hs
  | commit i =>
    simp only [step] at hs
    split at hs
    · rename_i host hcall
      cases hs
      exact .returns hcall
    · rename_i row app hcall
      cases hs
      exact .commits hcall
    · cases hs
  | rollback i =>
    simp only [step] at hs
    split at hs
    · rename_i row hcall
      cases hs
      exact .rollsBack hcall
    · cases hs

/-! ## What holds in every run -/

/-- The uncommitted row of call `i` is the only one with the name, and nothing refers to it. -/
structure Single (name : Text) (s : Hosts Text n) (i : Fin n) (row : Host Text) : Prop where
  hostName : row.hostName = name
  uuid : row.host ∈ s.uuids
  hosts : ∀ row' ∈ s.hosts, row'.hostName ≠ name
  others : ∀ j, j ≠ i → (s.calls j).inserted = none
  apps : ∀ app ∈ s.applications, app.host ≠ some row.host

structure Inv (commonId name : Text) (s : Hosts Text n) : Prop where
  hostName : Primary Host.hostName s.hosts
  moduleHost : s.applications.Pairwise fun app app' => ¬app.Collide app'
  hostUuid : ∀ row ∈ s.hosts, row.host ∈ s.uuids
  appUuid : ∀ app ∈ s.applications, app.application ∈ s.uuids
  appHost : ∀ app ∈ s.applications, ∀ host, app.host = some host → host ∈ s.uuids
  inserted : ∀ i row, (s.calls i).inserted = some row → Single name s i row
  added : ∀ i row app, s.calls i = .added row app →
    app.IsMain commonId row.host ∧ app.application ∈ s.uuids
  /-- the application of a new host is never a duplicate -/
  notRefused : ∀ i row, s.calls i ≠ .failed (some row)
  answer : ∀ i host, (s.calls i).answer = some host →
    ∃ row ∈ s.hosts, row.hostName = name ∧ row.host = host

omit [DecidableEq Text] in
theorem Ready.inv (h : s.Ready) (commonId name : Text) : s.Inv commonId name where
  hostName := h.hostName
  moduleHost := h.moduleHost
  hostUuid := h.hostUuid
  appUuid := h.appUuid
  appHost := h.appHost
  inserted i row hrow := by
    rw [h.idle i] at hrow
    cases hrow
  added i row app hcall := by cases (h.idle i).symm.trans hcall
  notRefused i row hcall := by cases (h.idle i).symm.trans hcall
  answer i host hhost := by
    rw [h.idle i] at hhost
    cases hhost

omit [DecidableEq Text] in
/-- A step that leaves the tables alone. -/
theorem Inv.setCall (h : s.Inv commonId name) {uuids : List Text} (huuids : s.uuids ⊆ uuids)
    (hinserted : ∀ row, c.inserted = some row → Single name { s with uuids := uuids } i row)
    (hadded : ∀ row app, c = .added row app →
      app.IsMain commonId row.host ∧ app.application ∈ uuids)
    (hrefused : ∀ row, c ≠ .failed (some row))
    (hanswer : ∀ host, c.answer = some host →
      ∃ row ∈ s.hosts, row.hostName = name ∧ row.host = host) :
    (Hosts.setCall { s with uuids := uuids } i c).Inv commonId name := by
  refine ⟨h.hostName, h.moduleHost, fun row hrow => huuids (h.hostUuid row hrow),
    fun app happ => huuids (h.appUuid app happ),
    fun app happ host hhost => huuids (h.appHost app happ host hhost), ?_, ?_, ?_, ?_⟩
  · apply (forall_setCall_iff (p := fun k c' => ∀ row, c'.inserted = some row →
      Single name (Hosts.setCall { s with uuids := uuids } i c) k row)).2
    refine ⟨fun row hrow => ?_, fun k hk row hrow => ?_⟩
    · obtain ⟨hname, huuid, hhosts, hothers, happs⟩ := hinserted row hrow
      refine ⟨hname, huuid, hhosts, fun j hj => ?_, happs⟩
      rw [calls_setCall_of_ne hj]
      exact hothers j hj
    · obtain ⟨hname, huuid, hhosts, hothers, happs⟩ := h.inserted k row hrow
      have hc : c.inserted = none := by
        apply Option.eq_none_iff_forall_not_mem.2
        intro row' hrow'
        cases ((hinserted row' hrow').others k hk).symm.trans hrow
      refine ⟨hname, huuids huuid, hhosts, ?_, happs⟩
      apply (forall_setCall_iff (p := fun j c' => j ≠ k → c'.inserted = none)).2
      exact ⟨fun _ => hc, fun j _ => hothers j⟩
  · apply (forall_setCall_iff (p := fun _ c' => ∀ row app, c' = .added row app →
      app.IsMain commonId row.host ∧ app.application ∈ uuids)).2
    refine ⟨hadded, fun k _ row app hcall => ?_⟩
    exact (h.added k row app hcall).imp_right fun hmem => huuids hmem
  · apply (forall_setCall_iff (p := fun _ c' => ∀ row, c' ≠ .failed (some row))).2
    exact ⟨hrefused, fun k _ => h.notRefused k⟩
  · apply (forall_setCall_iff (p := fun _ c' => ∀ host, c'.answer = some host →
      ∃ row ∈ s.hosts, row.hostName = name ∧ row.host = host)).2
    exact ⟨hanswer, fun k _ => h.answer k⟩

omit [DecidableEq Text] in
/-- A new host with its application is committed. -/
theorem Inv.commit (h : s.Inv commonId name) (hcall : s.calls i = .added row app) :
    ({ s.setCall i (.done row.host) with
      hosts := s.hosts ++ [row]
      applications := s.applications ++ [app] } : Hosts Text n).Inv commonId name := by
  have hsingle : Single name s i row := h.inserted i row (by rw [hcall]; rfl)
  obtain ⟨⟨hmodule, hhost⟩, huuid⟩ := h.added i row app hcall
  have hother : ∀ k, k ≠ i → ∀ row', (s.calls k).inserted ≠ some row' := fun k hk row' hrow' => by
    cases (hsingle.others k hk).symm.trans hrow'
  refine ⟨h.hostName.append fun row' hrow' => ?_, ?_, ?_, ?_, ?_, ?_, ?_, ?_, ?_⟩
  · rw [hsingle.hostName]
    exact hsingle.hosts row' hrow'
  · refine List.pairwise_append.2 ⟨h.moduleHost, List.pairwise_singleton _ _, ?_⟩
    intro app' happ' app'' happ'' hcollide
    obtain rfl := List.mem_singleton.1 happ''
    exact hsingle.apps app' happ' (hcollide.2.1.trans hhost)
  · exact List.forall_mem_append.2 ⟨h.hostUuid, List.forall_mem_singleton.2 hsingle.uuid⟩
  · exact List.forall_mem_append.2 ⟨h.appUuid, List.forall_mem_singleton.2 huuid⟩
  · refine List.forall_mem_append.2 ⟨h.appHost, List.forall_mem_singleton.2 fun host' hhost' => ?_⟩
    obtain rfl := Option.some.inj (hhost.symm.trans hhost')
    exact hsingle.uuid
  · apply (forall_setCall_iff (p := fun k c' => ∀ row', c'.inserted = some row' →
      Single name _ k row')).2
    exact ⟨nofun, fun k hk row' hrow' => absurd hrow' (hother k hk row')⟩
  · apply (forall_setCall_iff (p := fun _ c' => ∀ row' app', c' = .added row' app' →
      app'.IsMain commonId row'.host ∧ app'.application ∈ s.uuids)).2
    refine ⟨nofun, fun k hk row' app' hcall' => ?_⟩
    exact absurd (by rw [hcall']; rfl) (hother k hk row')
  · apply (forall_setCall_iff (p := fun _ c' => ∀ row', c' ≠ .failed (some row'))).2
    exact ⟨nofun, fun k _ => h.notRefused k⟩
  · apply (forall_setCall_iff (p := fun _ c' => ∀ host', c'.answer = some host' →
      ∃ row' ∈ s.hosts ++ [row], row'.hostName = name ∧ row'.host = host')).2
    refine ⟨fun host' hhost' => ?_, fun k _ host' hhost' => ?_⟩
    · obtain rfl := Option.some.inj hhost'
      exact ⟨row, List.mem_append_right _ List.mem_cons_self, hsingle.hostName, rfl⟩
    · obtain ⟨row', hrow', hname⟩ := h.answer k host' hhost'
      exact ⟨row', List.mem_append_left _ hrow', hname⟩

omit [DecidableEq Text] in
theorem inserted_eq_none_of_blocksInsert (h : c.blocksInsert = false) : c.inserted = none := by
  cases c with
  | failed row => cases row <;> first | rfl | cases h
  | hostAdded | added | found => cases h
  | _ => rfl

theorem Inv.step (h : s.Inv commonId name) (hs : s.step commonId name a = some s') :
    s'.Inv commonId name := by
  cases step_cases hs with
  | starts | misses | rollsBack =>
    exact h.setCall (List.Subset.refl _) nofun nofun nofun nofun
  | @finds i row hcall hrow =>
    obtain ⟨hmem, hname⟩ := of_select_eq_some hrow
    refine h.setCall (List.Subset.refl _) nofun nofun nofun fun host hhost => ?_
    exact ⟨row, hmem, hname, Option.some.inj hhost⟩
  | @inserts i uuid hcall hnew hfree hkey =>
    refine h.setCall (List.subset_cons_self _ _) (fun row hrow => ?_) nofun nofun nofun
    obtain rfl := Option.some.inj hrow
    refine ⟨rfl, List.mem_cons_self, hkey, fun j hj => ?_, fun app happ happhost => ?_⟩
    · exact inserted_eq_none_of_blocksInsert (hfree j hj)
    · exact hnew (h.appHost app happ uuid happhost)
  | duplicate => exact h.setCall (List.subset_cons_self _ _) nofun nofun nofun nofun
  | @creates i uuid row hcall hnew =>
    have hsingle : Single name s i row := h.inserted i row (by rw [hcall]; rfl)
    refine h.setCall (List.subset_cons_self _ _) (fun row' hrow' => ?_) (fun row' app' happ' => ?_)
      nofun nofun
    · obtain rfl := Option.some.inj hrow'
      obtain ⟨hname, huuid, hhosts, hothers, happs⟩ := hsingle
      exact ⟨hname, List.mem_cons_of_mem _ huuid, hhosts, hothers, happs⟩
    · cases happ'
      exact ⟨⟨rfl, rfl⟩, List.mem_cons_self⟩
  | @refused i uuid row app hcall hnew happ hkey =>
    have hsingle : Single name s i row := h.inserted i row (by rw [hcall]; rfl)
    obtain hkey | hkey := hkey
    · exact absurd (hkey ▸ h.appUuid app happ) hnew
    · exact absurd hkey.2 (hsingle.apps app happ)
  | @returns i host hcall =>
    refine h.setCall (List.Subset.refl _) nofun nofun nofun fun host' hhost' => ?_
    apply h.answer i
    rw [hcall]
    exact hhost'
  | commits hcall => exact h.commit hcall

/-! ## Races -/

/-- No call has failed or is bound to fail: beside one that has missed the row and not yet inserted
it there is no other such call, and no row with the name, committed or not. -/
structure Sound (commonId : Text) (name : Text) (s : Hosts Text n) : Prop where
  succeeds : ∀ i, (s.calls i).isFailed = false
  alone : ∀ i j, i ≠ j → s.calls i = .missed →
    s.calls j ≠ .missed ∧ (s.calls j).inserted = none
  missing : ∀ i, s.calls i = .missed → ∀ row ∈ s.hosts, row.hostName ≠ name
  main : ∀ i host, (s.calls i).answer = some host →
    ∃ app ∈ s.applications, app.IsMain commonId host

/-- What soundness asks of the calls other than `i`. -/
structure SoundApart (commonId name : Text) (s : Hosts Text n) (i : Fin n) : Prop where
  succeeds : ∀ j, j ≠ i → (s.calls j).isFailed = false
  alone : ∀ j k, j ≠ i → k ≠ i → j ≠ k → s.calls j = .missed →
    s.calls k ≠ .missed ∧ (s.calls k).inserted = none
  missing : ∀ j, j ≠ i → s.calls j = .missed → ∀ row ∈ s.hosts, row.hostName ≠ name
  main : ∀ j, j ≠ i → ∀ host, (s.calls j).answer = some host →
    ∃ app ∈ s.applications, app.IsMain commonId host

/-- And what it asks of call `i`, where it is at `c`. -/
structure SoundAt (commonId name : Text) (s : Hosts Text n) (i : Fin n) (c : HostCall Text) :
    Prop where
  succeeds : c.isFailed = false
  alone : c = .missed → ∀ j, j ≠ i → s.calls j ≠ .missed ∧ (s.calls j).inserted = none
  inserted : ∀ j, j ≠ i → s.calls j = .missed → c ≠ .missed ∧ c.inserted = none
  missing : c = .missed → ∀ row ∈ s.hosts, row.hostName ≠ name
  main : ∀ host, c.answer = some host → ∃ app ∈ s.applications, app.IsMain commonId host

omit [DecidableEq Text] in
theorem sound_setCall_iff : Sound commonId name (s.setCall i c) ↔
    SoundApart commonId name s i ∧ SoundAt commonId name s i c := by
  have hself : (s.setCall i c).calls i = c := calls_setCall_self
  have hne : ∀ {j}, j ≠ i → (s.setCall i c).calls j = s.calls j := calls_setCall_of_ne
  constructor
  · rintro ⟨hsucceeds, halone, hmissing, hmain⟩
    refine ⟨⟨fun j hj => ?_, fun j k hj hk hjk => ?_, fun j hj => ?_, fun j hj => ?_⟩, ?_⟩
    · exact hne hj ▸ hsucceeds j
    · have h := halone j k hjk
      rwa [hne hj, hne hk] at h
    · exact hne hj ▸ hmissing j
    · exact hne hj ▸ hmain j
    · refine ⟨hself ▸ hsucceeds i, fun hc j hj => ?_, fun j hj hmissed => ?_, hself ▸ hmissing i,
        hself ▸ hmain i⟩
      · exact hne hj ▸ halone i j hj.symm (hself.trans hc)
      · exact hself ▸ halone j i hj ((hne hj).trans hmissed)
  · rintro ⟨hapart, hat⟩
    refine ⟨fun j => ?_, fun j k hjk => ?_, fun j => ?_, fun j => ?_⟩
    · by_cases hj : j = i
      · rw [hj, hself]
        exact hat.succeeds
      · rw [hne hj]
        exact hapart.succeeds j hj
    · by_cases hj : j = i
      · subst hj
        rw [hself, hne hjk.symm]
        exact fun hc => hat.alone hc k hjk.symm
      · rw [hne hj]
        by_cases hk : k = i
        · subst hk
          rw [hself]
          exact hat.inserted j hj
        · rw [hne hk]
          exact hapart.alone j k hj hk hjk
    · by_cases hj : j = i
      · rw [hj, hself]
        exact hat.missing
      · rw [hne hj]
        exact hapart.missing j hj
    · by_cases hj : j = i
      · rw [hj, hself]
        exact hat.main
      · rw [hne hj]
        exact hapart.main j hj

omit [DecidableEq Text] in
theorem sound_iff (i : Fin n) : Sound commonId name s ↔
    SoundApart commonId name s i ∧ SoundAt commonId name s i (s.calls i) := by
  rw [← sound_setCall_iff, setCall, Function.update_eq_self]

omit [DecidableEq Text] in
theorem sound_uuids_iff {uuids : List Text} :
    Sound commonId name (Hosts.setCall { s with uuids := uuids } i c) ↔
      Sound commonId name (s.setCall i c) :=
  ⟨fun ⟨hsucceeds, halone, hmissing, hmain⟩ => ⟨hsucceeds, halone, hmissing, hmain⟩,
    fun ⟨hsucceeds, halone, hmissing, hmain⟩ => ⟨hsucceeds, halone, hmissing, hmain⟩⟩

omit [DecidableEq Text] in
/-- A call that has neither missed the row nor inserted or found one. -/
theorem soundAt_of_quiet (hfailed : c.isFailed = false) (hmissed : c ≠ .missed)
    (hinserted : c.inserted = none) (hanswer : c.answer = none) :
    SoundAt commonId name s i c where
  succeeds := hfailed
  alone h := absurd h hmissed
  inserted _ _ _ := ⟨hmissed, hinserted⟩
  missing h := absurd h hmissed
  main host h := by cases hanswer.symm.trans h

omit [DecidableEq Text] in
theorem soundAt_answer_iff (hanswer : c.answer = some host) :
    SoundAt commonId name s i c ↔ ∃ app ∈ s.applications, app.IsMain commonId host := by
  have hc : c.isFailed = false ∧ c ≠ .missed ∧ c.inserted = none := by
    cases c with
    | found | done => exact ⟨rfl, nofun, rfl⟩
    | _ => cases hanswer
  obtain ⟨hfailed, hmissed, hinserted⟩ := hc
  refine ⟨fun h => h.main host hanswer, fun h => ⟨hfailed, fun hc => absurd hc hmissed,
    fun _ _ _ => ⟨hmissed, hinserted⟩, fun hc => absurd hc hmissed, fun host' hhost' => ?_⟩⟩
  obtain rfl := Option.some.inj (hanswer.symm.trans hhost')
  exact h

omit [DecidableEq Text] in
/-- An uncommitted row is to be the only one: no other call is about to insert. -/
theorem soundAt_inserted_iff (hfailed : c.isFailed = false) (hinserted : c.inserted = some row)
    (hanswer : c.answer = none) :
    SoundAt commonId name s i c ↔ ∀ j, j ≠ i → s.calls j ≠ .missed := by
  have hmissed : c ≠ .missed := by
    rintro rfl
    cases hinserted
  constructor
  · intro h j hj hcall
    cases (h.inserted j hj hcall).2.symm.trans hinserted
  · intro h
    refine ⟨hfailed, fun hc => absurd hc hmissed, fun j hj hcall => absurd hcall (h j hj),
      fun hc => absurd hc hmissed, fun host hhost => ?_⟩
    cases hanswer.symm.trans hhost

omit [DecidableEq Text] in
theorem soundAt_missed_iff (hinserted : ∀ j, j ≠ i → (s.calls j).inserted = none)
    (hrow : ∀ row ∈ s.hosts, row.hostName ≠ name) :
    SoundAt commonId name s i .missed ↔ ∀ j, j ≠ i → s.calls j ≠ .missed := by
  constructor
  · intro h j hj
    exact (h.alone rfl j hj).1
  · intro h
    exact ⟨rfl, fun _ j hj => ⟨h j hj, hinserted j hj⟩, fun j hj hcall => absurd hcall (h j hj),
      fun _ => hrow, nofun⟩

omit [DecidableEq Text] in
theorem inserted_eq_none_of_blocksSelect (h : c.blocksSelect = false) : c.inserted = none := by
  cases c with
  | hostAdded | added | found | failed => cases h
  | _ => rfl

omit [DecidableEq Text] in
theorem Inv.answer_ne_some (hI : s.Inv commonId name) (hcall : s.calls i = .added row app) :
    (s.calls j).answer ≠ some host := by
  intro hanswer
  have hsingle : Single name s i row := hI.inserted i row (by rw [hcall]; rfl)
  obtain ⟨row', hrow', hname, -⟩ := hI.answer j host hanswer
  exact hsingle.hosts row' hrow' hname

omit [DecidableEq Text] in
/-- While a call has both rows uncommitted, no other one may be about to insert. -/
theorem sound_iff_of_added (hI : s.Inv commonId name) (hcall : s.calls i = .added row app) :
    Sound commonId name s ↔ ∀ k, (s.calls k).isFailed = false ∧ s.calls k ≠ .missed := by
  constructor
  · refine fun h k => ⟨h.succeeds k, fun hk => ?_⟩
    have hne : k ≠ i := by
      rintro rfl
      cases hcall.symm.trans hk
    have hinserted := (h.alone k i hne hk).2
    rw [hcall] at hinserted
    cases hinserted
  · intro h
    exact ⟨fun k => (h k).1, fun k _ _ hk => absurd hk (h k).2, fun k hk => absurd hk (h k).2,
      fun k host hanswer => absurd hanswer (hI.answer_ne_some hcall)⟩

omit [DecidableEq Text] in
/-- The row that a call commits is there for all that have missed it. -/
theorem sound_commit_iff (hI : s.Inv commonId name) (hcall : s.calls i = .added row app) :
    Sound commonId name { s.setCall i (.done row.host) with
      hosts := s.hosts ++ [row]
      applications := s.applications ++ [app] } ↔ Sound commonId name s := by
  have hsingle : Single name s i row := hI.inserted i row (by rw [hcall]; rfl)
  have hcalls : (∀ k, ((s.setCall i (.done row.host)).calls k).isFailed = false ∧
      (s.setCall i (.done row.host)).calls k ≠ .missed) ↔
      ∀ k, (s.calls k).isFailed = false ∧ s.calls k ≠ .missed := by
    rw [forall_setCall_iff (p := fun _ c => c.isFailed = false ∧ c ≠ .missed)]
    refine ⟨fun ⟨_, h⟩ k => ?_, fun h => ⟨⟨rfl, nofun⟩, fun k _ => h k⟩⟩
    by_cases hk : k = i
    · rw [hk, hcall]
      exact ⟨rfl, nofun⟩
    · exact h k hk
  rw [sound_iff_of_added hI hcall, ← hcalls]
  constructor
  · refine fun h k => ⟨h.succeeds k, fun hk => ?_⟩
    exact h.missing k hk row (List.mem_append_right _ List.mem_cons_self) hsingle.hostName
  · intro h
    refine ⟨fun k => (h k).1, fun k _ _ hk => absurd hk (h k).2, fun k hk => absurd hk (h k).2, ?_⟩
    apply (forall_setCall_iff (p := fun _ c => ∀ host, c.answer = some host →
      ∃ app' ∈ s.applications ++ [app], app'.IsMain commonId host)).2
    refine ⟨fun host hanswer => ?_, fun k _ host hanswer => ?_⟩
    · obtain rfl := Option.some.inj hanswer
      exact ⟨app, List.mem_append_right _ List.mem_cons_self, (hI.added i row app hcall).1⟩
    · exact absurd hanswer (hI.answer_ne_some hcall)

omit [DecidableEq Text] in
theorem sound_setCall_and_iff {c' : HostCall Text} {p : Prop} (hcall : s.calls i = c')
    (h : SoundAt commonId name s i c ↔ SoundAt commonId name s i c' ∧ p) :
    Sound commonId name (s.setCall i c) ↔ Sound commonId name s ∧ p := by
  rw [sound_setCall_iff, h, sound_iff (s := s) i, hcall, and_assoc]

/-- What one statement does to soundness: only the selects matter. -/
theorem sound_step_iff (hI : s.Inv commonId name) (hs : s.step commonId name a = some s') :
    Sound commonId name s' ↔ Sound commonId name s ∧ SelectOk commonId name s a := by
  have hquiet {i : Fin n} : SoundAt commonId name s i .begun := soundAt_of_quiet rfl nofun rfl rfl
  cases step_cases hs with
  | @starts i hcall =>
    apply sound_setCall_and_iff hcall
    exact iff_of_true hquiet ⟨soundAt_of_quiet rfl nofun rfl rfl, trivial⟩
  | @finds i row hcall hrow =>
    have hok : SelectOk commonId name s (.select i) ↔
        ∃ app ∈ s.applications, app.IsMain commonId row.host := by
      rw [SelectOk, hrow]
    apply sound_setCall_and_iff hcall
    rw [hok, soundAt_answer_iff (c := .found row.host) rfl, and_iff_right hquiet]
  | @misses i hcall hfree hrow =>
    have hok : SelectOk commonId name s (.select i) ↔ ∀ j, j ≠ i → s.calls j ≠ .missed := by
      rw [SelectOk, hrow]
      refine ⟨fun h j _ => h j, fun h j hj => ?_⟩
      by_cases hji : j = i
      · subst hji
        cases hcall.symm.trans hj
      · exact h j hji hj
    have hinserted : ∀ j, j ≠ i → (s.calls j).inserted = none := fun j hj =>
      inserted_eq_none_of_blocksSelect (hfree j hj)
    apply sound_setCall_and_iff hcall
    rw [hok, soundAt_missed_iff hinserted (select_eq_none_iff.1 hrow), and_iff_right hquiet]
  | @inserts i uuid hcall hnew hfree hkey =>
    have hinserted : ∀ j, j ≠ i → (s.calls j).inserted = none := fun j hj =>
      inserted_eq_none_of_blocksInsert (hfree j hj)
    rw [sound_uuids_iff]
    apply sound_setCall_and_iff hcall
    rw [soundAt_missed_iff hinserted hkey, soundAt_inserted_iff rfl rfl rfl]
    exact (and_iff_left trivial).symm
  | @duplicate i uuid row hcall hnew hrow hkey =>
    have hname : row.hostName = name := by
      obtain rfl | hname := hkey
      · exact absurd (hI.hostUuid row hrow) hnew
      · exact hname
    rw [sound_uuids_iff]
    apply sound_setCall_and_iff hcall
    exact iff_of_false (fun h => nomatch h.succeeds) fun h => h.1.missing rfl row hrow hname
  | @creates i uuid row hcall hnew =>
    rw [sound_uuids_iff]
    apply sound_setCall_and_iff hcall
    rw [soundAt_inserted_iff rfl rfl rfl, soundAt_inserted_iff rfl rfl rfl]
    exact (and_iff_left trivial).symm
  | @refused i uuid row app hcall hnew happ hkey =>
    have hsingle : Single name s i row := hI.inserted i row (by rw [hcall]; rfl)
    obtain hkey | hkey := hkey
    · exact absurd (hkey ▸ hI.appUuid app happ) hnew
    · exact absurd hkey.2 (hsingle.apps app happ)
  | @returns i host hcall =>
    apply sound_setCall_and_iff hcall
    rw [soundAt_answer_iff (c := .done host) rfl, soundAt_answer_iff (c := .found host) rfl]
    exact (and_iff_left trivial).symm
  | commits hcall => exact (sound_commit_iff hI hcall).trans (and_iff_left trivial).symm
  | @rollsBack i row hcall =>
    apply sound_setCall_and_iff hcall
    exact iff_of_false (fun h => nomatch h.succeeds) fun h => nomatch h.1.succeeds

/-! ## The calls -/

theorem Inv.kept (hI : s.Inv commonId name) (h : Sound commonId name s)
    (hhost : (s.calls i).answer = some host) : s.Kept commonId name host := by
  obtain ⟨row, hrow, hname, hhost'⟩ := hI.answer i host hhost
  obtain ⟨app, happ, hmain⟩ := h.main i host hhost
  refine ⟨⟨row, ?_, hhost'⟩, app, ?_⟩
  · exact filter_eq_singleton (hI.hostName.pairwise name) hrow (decide_eq_true hname)
  · refine filter_eq_singleton (hI.moduleHost.imp fun hnot => ?_) happ (decide_eq_true hmain)
    rintro ⟨hleft, hright⟩
    obtain ⟨hmodule, heq⟩ := of_decide_eq_true hleft
    obtain ⟨hmodule', heq'⟩ := of_decide_eq_true hright
    exact hnot ⟨hmodule.trans hmodule'.symm, heq.trans heq'.symm, by rw [heq]; nofun⟩

theorem Sound.agreed (h : Sound commonId name s) (hI : s.Inv commonId name) :
    s.Agreed commonId name := by
  have hanswer : ∀ i host, s.calls i = .done host → (s.calls i).answer = some host := by
    intro i host hcall
    rw [hcall]
    rfl
  refine ⟨h.succeeds, fun i j host host' hi hj => ?_,
    fun i host hi => hI.kept h (hanswer i host hi)⟩
  obtain ⟨row, hrow, hname, rfl⟩ := hI.answer i host (hanswer i host hi)
  obtain ⟨row', hrow', hname', rfl⟩ := hI.answer j host' (hanswer j host' hj)
  rw [eq_of_key_eq hI.hostName hrow hrow' (hname.trans hname'.symm)]

/-- When all calls have ended, it shows whether there was a race. -/
theorem agreed_iff_sound (hI : s.Inv commonId name) (hover : s.Over) :
    s.Agreed commonId name ↔ Sound commonId name s := by
  refine ⟨fun h => ?_, fun h => h.agreed hI⟩
  have hmissed : ∀ i, s.calls i ≠ .missed := by
    intro i hcall
    have hi := hover i
    rw [hcall] at hi
    cases hi
  refine ⟨h.succeeds, fun i j _ hi => absurd hi (hmissed i), fun i hi => absurd hi (hmissed i),
    fun i host hhost => ?_⟩
  have hdone : s.calls i = .done host := by
    have hi := hover i
    cases hcall : s.calls i with
    | done host' =>
      rw [hcall] at hhost
      rw [Option.some.inj hhost]
    | found host' =>
      rw [hcall] at hi
      cases hi
    | _ =>
      rw [hcall] at hhost
      cases hhost
  obtain ⟨app, happ⟩ := (h.kept i host hdone).main
  have hmem : app ∈ s.applications.filter (·.IsMain commonId host) := by
    rw [happ]
    exact List.mem_cons_self
  obtain ⟨hmem, hmain⟩ := List.mem_filter.1 hmem
  exact ⟨app, hmem, of_decide_eq_true hmain⟩

/-- What others wait for goes on. -/
theorem exists_step_of_blocksInsert (hnew : uuid ∉ s.uuids)
    (hblock : (s.calls i).blocksInsert = true) (hfailed : (s.calls i).isFailed = false) :
    ∃ a s', (∀ i, a ≠ .start i) ∧ s.step commonId name a = some s' := by
  cases hcall : s.calls i with
  | found host => exact ⟨.commit i, _, nofun, by rw [step, hcall]⟩
  | added row app => exact ⟨.commit i, _, nofun, by rw [step, hcall]⟩
  | hostAdded row =>
    have hstep : ∃ s', s.step commonId name (.insertApplication i uuid) = some s' := by
      simp only [step, hcall, if_neg hnew]
      split <;> exact ⟨_, rfl⟩
    obtain ⟨s', hs'⟩ := hstep
    exact ⟨.insertApplication i uuid, s', nofun, hs'⟩
  | failed row =>
    rw [hcall] at hfailed
    cases hfailed
  | _ =>
    rw [hcall] at hblock
    cases hblock

theorem Sound.goesOn [Infinite Text] (h : Sound commonId name s) : s.GoesOn commonId name := by
  rintro ⟨i, hi⟩
  obtain ⟨uuid, hnew⟩ := Infinite.exists_notMem_finset s.uuids.toFinset
  rw [List.mem_toFinset] at hnew
  by_cases hblock : ∃ j, (s.calls j).blocksInsert = true
  · obtain ⟨j, hj⟩ := hblock
    exact exists_step_of_blocksInsert hnew hj (h.succeeds j)
  · have hfree : ¬∃ j, j ≠ i ∧ (s.calls j).blocksInsert = true := fun ⟨j, _, hj⟩ => hblock ⟨j, hj⟩
    cases hcall : s.calls i with
    | begun =>
      have hselect : ¬∃ j, j ≠ i ∧ (s.calls j).blocksSelect = true := by
        rintro ⟨j, hj, hblocks⟩
        have hfailed := h.succeeds j
        refine hfree ⟨j, hj, ?_⟩
        cases hcall' : s.calls j with
        | failed row =>
          rw [hcall'] at hfailed
          cases hfailed
        | _ =>
          rw [hcall'] at hblocks
          first | rfl | cases hblocks
      have hstep : ∃ s', s.step commonId name (.select i) = some s' := by
        simp only [step, hcall, if_neg hselect]
        split <;> exact ⟨_, rfl⟩
      obtain ⟨s', hs'⟩ := hstep
      exact ⟨.select i, s', nofun, hs'⟩
    | missed =>
      have hstep : ∃ s', s.step commonId name (.insertHost i uuid) = some s' := by
        simp only [step, hcall, if_neg (not_or.2 ⟨hnew, hfree⟩)]
        split <;> exact ⟨_, rfl⟩
      obtain ⟨s', hs'⟩ := hstep
      exact ⟨.insertHost i uuid, s', nofun, hs'⟩
    | hostAdded | added | found => exact absurd ⟨i, by rw [hcall]; rfl⟩ hblock
    | _ =>
      rw [hcall] at hi
      cases hi

/-- If no select misses the row while another call is between its own select and its INSERT, the
calls agree and never all wait.  Once they have ended, they agree only then. -/
theorem calls_agree_iff [Infinite Text] (hs : s.Ready)
    (h : exec (step commonId name) s as = some t) :
    (EachStep (step commonId name) (SelectOk commonId name) s as →
      t.Agreed commonId name ∧ t.GoesOn commonId name) ∧
    (t.Over → (t.Agreed commonId name ↔
      EachStep (step commonId name) (SelectOk commonId name) s as)) := by
  have hI := hs.inv commonId name
  have hIt : t.Inv commonId name := exec_induction Inv.step hI h
  have hsound : Sound commonId name s := by
    have hcall : ∀ i, s.calls i = .idle := hs.idle
    refine ⟨fun i => ?_, fun i j _ hi => ?_, fun i hi => ?_, fun i host hi => ?_⟩
    · rw [hcall]
      rfl
    · cases (hcall i).symm.trans hi
    · cases (hcall i).symm.trans hi
    · rw [hcall] at hi
      cases hi
  have hiff := exec_iff_eachStep Inv.step sound_step_iff hI h
  rw [and_iff_right hsound] at hiff
  refine ⟨fun hok => ?_, fun hover => (agreed_iff_sound hIt hover).trans hiff⟩
  have ht := hiff.2 hok
  exact ⟨ht.agreed hIt, ht.goesOn⟩

/-- The statements of a call that has missed the row. -/
def addSteps (i : Fin n) (uuid appId : Text) : List (HostAction Text n) :=
  [.insertHost i uuid, .insertApplication i appId, .commit i]

/-- Two first starts, one after the other. -/
theorem secondCall_agrees : ∃ t, exec (step 0 1) ({ uuids := [0, 1] } : Hosts ℕ 2)
      ([.start 0, .start 1, .select 0] ++ addSteps 0 2 3 ++ [.select 1, .commit 1]) = some t ∧
    t.Agreed 0 1 ∧ t.calls 1 = .done 2 := by
  have hready : ({ uuids := [0, 1] } : Hosts ℕ 2).Ready :=
    ⟨fun _ => rfl, List.nodup_nil, List.Pairwise.nil, nofun, nofun, nofun⟩
  have hrun : ∃ t, exec (step 0 1) ({ uuids := [0, 1] } : Hosts ℕ 2)
      ([.start 0, .start 1, .select 0] ++ addSteps 0 2 3 ++ [.select 1, .commit 1]) = some t ∧
      t.calls 1 = .done 2 := ⟨_, rfl, rfl⟩
  obtain ⟨t, hexec, hdone⟩ := hrun
  refine ⟨t, hexec, ((calls_agree_iff hready hexec).1 ?_).1, hdone⟩
  refine .cons rfl trivial (.cons rfl trivial (.cons rfl ?_ ?_))
  · exact Fin.forall_fin_two.2 ⟨nofun, nofun⟩
  refine .cons rfl trivial (.cons rfl trivial (.cons rfl trivial ?_))
  exact .cons rfl ⟨_, List.mem_cons_self, rfl, rfl⟩ (.cons rfl trivial trivial)

/-- Both select before either inserts. -/
theorem secondCall_fails : ∃ t, exec (step 0 1) ({ uuids := [0, 1] } : Hosts ℕ 2)
      ([.start 0, .start 1, .select 0, .select 1] ++ addSteps 0 2 3 ++ [.insertHost 1 4]) =
        some t ∧
    t.calls 0 = .done 2 ∧ t.calls 1 = .failed none ∧ t.Over ∧ ¬t.Agreed 0 1 :=
  ⟨_, rfl, rfl, rfl, Fin.forall_fin_two.2 ⟨rfl, rfl⟩, fun h => nomatch h.succeeds 1⟩

end Hosts

end Kalinka.Server
