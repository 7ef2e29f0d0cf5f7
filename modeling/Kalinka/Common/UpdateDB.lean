import Kalinka.Common.BaseResources
import Kalinka.Common.Sql.Resources

/-!
# Synchronising the resource table

`BaseResources::updateDB` calls `update()` for the devices that the database knows and `updateDB()`
for the others, deletes the rows of one type on their busses that belong to no device, and goes on
with the containers in the list.  The rule of `getResourceByType` says which devices a type selects;
the code compares the type with itself where it should compare it with the one of the container, so
that it takes all devices, and goes on with the own type of each container.

`updateDB_synchronised_iff` says when the result is the right one nevertheless.  The log and
exceptions of the virtual calls are left out.
-/

namespace Kalinka

open Function Keyed Relation

/-- `NAME`, `UUID` and `BUSUUID` after `update()`. -/
structure DevInfo where
  name : Option String
  uuid : String
  busUUID : Option String

/-- What the virtual calls do to each device: `update()` reads the database, and `updateDB()`
inserts a row, whose key is the UUID from then on, if there is a table for the class. -/
structure DevCalls where
  update : ℕ → DevInfo
  updateDB : ℕ → Option (Server.Resource String)

/-- All containers and devices, their `BUSUUID`, the database, and the devices of the virtual calls
so far. -/
structure SyncState where
  heap : ResourceHeap
  busUUID : ℕ → Option String
  db : Server.Db String
  called : List ℕ := []

namespace SyncState

def setParams (s : SyncState) (d : ℕ) (name : Option String) (uuid : String) : SyncState :=
  { s with heap.dev := update s.heap.dev d { s.heap.dev d with name, uuid := some uuid } }

/-- The virtual call for one device. -/
def updateDev (calls : DevCalls) (s : SyncState) (d : ℕ) : SyncState :=
  let s := { s with called := s.called ++ [d] }
  if (s.heap.dev d).uuid.isSome then
    { s.setParams d (calls.update d).name (calls.update d).uuid with
      busUUID := update s.busUUID d (calls.update d).busUUID }
  else
    match calls.updateDB d with
    | none => s
    | some row =>
      { s.setParams d (s.heap.dev d).name row.resource with
        db.resources := s.db.resources ++ [row] }

/-- `bus_uuids` with the bus of one more device. -/
def addBus (busses : List String) : Option String → List String
  | some bus => if bus ∈ busses then busses else busses ++ [bus]
  | none => busses

/-- One turn of the loop over the devices. -/
def updateNext (calls : DevCalls) (type : String) (sb : SyncState × List String) (d : ℕ) :
    SyncState × List String :=
  let s := if (sb.1.heap.dev d).type = type ∨ type = type then sb.1.updateDev calls d else sb.1
  (s, addBus sb.2 (s.busUUID d))

def removeRow (fuel c : ℕ) (type : String) (s : SyncState) (row : Server.Resource String) :
    Option SyncState :=
  if type ≠ row.resourceType then some s
  else (s.heap.getResourceByUUID fuel row.resource c).map fun dev =>
    match dev with
    | some _ => s
    | none => { s with db := (s.db.resourceDelete row.resource).2 }

def removeMissing (fuel c : ℕ) (type : String) (s : SyncState) (bus : String) :
    Option SyncState :=
  (s.db.resources.filter fun row => row.bus = bus).foldlM (removeRow fuel c type) s

/-- `none` when the fuel does not suffice. -/
def updateDB (calls : DevCalls) : ℕ → String → SyncState → ℕ → Option SyncState
  | 0, _, _, _ => none
  | fuel + 1, type, s, c => do
    let (s, busses) := (s.heap.devs c).foldl (updateNext calls type) (s, [])
    let s ← busses.foldlM (removeMissing (fuel + 1) c type) s
    (s.heap.sub c).foldlM (fun s' r =>
      updateDB calls fuel (if type = type then (s.heap.res r).mType else type) s' r) s

end SyncState

namespace ResourceHeap

/-- Where the rule of `getResourceByType` goes from a container, and with which type. -/
def ruleSub (s : ResourceHeap) (p : ℕ × String) : List (ℕ × String) :=
  (s.sub p.1).map fun r => (r, if p.2 = (s.res p.1).mType then (s.res r).mType else p.2)

/-- The rule takes the device of the container when it asks for the type. -/
def RuleTakes (s : ResourceHeap) (p : ℕ × String) (d : ℕ) : Prop :=
  d ∈ s.devs p.1 ∧ (p.2 = (s.res p.1).mType ∨ (s.dev d).type = p.2)

def RuleVisits (s : ResourceHeap) (root : ℕ) (type : String) (p : ℕ × String) : Prop :=
  ReflTransGen (fun p q => q ∈ s.ruleSub p) (root, type) p

/-- The rule selects the device, with or without a UUID. -/
def Selects (s : ResourceHeap) (root : ℕ) (type : String) (d : ℕ) : Prop :=
  ∃ p, s.RuleVisits root type p ∧ s.RuleTakes p d

end ResourceHeap

namespace SyncState

/-- The name of the device after its virtual call: `updateDB()` leaves it. -/
def nameAfter (calls : DevCalls) (s : SyncState) (d : ℕ) : Option String :=
  if (s.heap.dev d).uuid.isSome then (calls.update d).name else (s.heap.dev d).name

/-- The UUID of the device after its virtual call. -/
def uuidAfter (calls : DevCalls) (s : SyncState) (d : ℕ) : Option String :=
  if (s.heap.dev d).uuid.isSome then some (calls.update d).uuid
  else (calls.updateDB d).map Server.Resource.resource

def busAfter (calls : DevCalls) (s : SyncState) (d : ℕ) : Option String :=
  if (s.heap.dev d).uuid.isSome then (calls.update d).busUUID else s.busUUID d

/-- The device after its virtual call. -/
def devAfter (calls : DevCalls) (s : SyncState) (d : ℕ) : BaseDev :=
  { s.heap.dev d with name := s.nameAfter calls d, uuid := s.uuidAfter calls d }

/-- The row that the virtual call inserts. -/
def inserted (calls : DevCalls) (s : SyncState) (d : ℕ) : Option (Server.Resource String) :=
  if (s.heap.dev d).uuid.isSome then none else calls.updateDB d

/-- A row of a selected type, on the bus of a device that is selected with that type, and no device
has its UUID. -/
def Missing (s : SyncState) (root : ℕ) (type : String) (uuid bus : ℕ → Option String)
    (row : Server.Resource String) : Prop :=
  (∃ p, s.heap.RuleVisits root type p ∧ row.resourceType = p.2 ∧
    ∃ d, s.heap.RuleTakes p d ∧ bus d = some row.bus) ∧
  ∀ c, ReflTransGen (fun x y => y ∈ s.heap.sub x) root c → ∀ d ∈ s.heap.devs c,
    uuid d ≠ some row.resource

/-- `s'` is what the call should make of `s`: one virtual call for each selected device, and the
rows that are missing then are deleted. -/
structure Synchronised (calls : DevCalls) (s : SyncState) (root : ℕ) (type : String)
    (s' : SyncState) : Prop where
  once : s'.called.Nodup
  called : ∀ d, d ∈ s'.called ↔ s.heap.Selects root type d
  selected : ∀ d, s.heap.Selects root type d →
    s'.heap.dev d = s.devAfter calls d ∧ s'.busUUID d = s.busAfter calls d
  others : ∀ d, ¬ s.heap.Selects root type d →
    s'.heap.dev d = s.heap.dev d ∧ s'.busUUID d = s.busUUID d
  rows : ∀ row, row ∈ s'.db.resources ↔
    (row ∈ s.db.resources ∨ ∃ d, s.heap.Selects root type d ∧ s.inserted calls d = some row) ∧
      ¬ s.Missing root type (fun d => (s'.heap.dev d).uuid) s'.busUUID row

/-- The type with which the code comes to a container. -/
def passed (s : SyncState) (root : ℕ) (type : String) (c : ℕ) : String :=
  if c = root then type else (s.heap.res c).mType

/-- The code deletes the row when it is in the container: its devices have had their virtual calls,
those below have not. -/
def Deletes (calls : DevCalls) (s : SyncState) (root : ℕ) (type : String) (c : ℕ)
    (row : Server.Resource String) : Prop :=
  row.resourceType = s.passed root type c ∧
    (∃ d ∈ s.heap.devs c, s.busAfter calls d = some row.bus) ∧
    (∀ d ∈ s.heap.devs c, s.uuidAfter calls d ≠ some row.resource) ∧
    ∀ x, TransGen (fun x y => y ∈ s.heap.sub x) c x → ∀ d ∈ s.heap.devs x,
      (s.heap.dev d).uuid ≠ some row.resource

/-- The rule leaves out no device; a row is in the way of some container exactly if it is missing;
and none that comes with a device is in the way of a container visited later. -/
structure SyncOk (calls : DevCalls) (s : SyncState) (root : ℕ) (type : String) (v : List ℕ) :
    Prop where
  all : ∀ d ∈ v.flatMap s.heap.devs, s.heap.Selects root type d
  old : ∀ row ∈ s.db.resources, (∃ c ∈ v, s.Deletes calls root type c row) ↔
    s.Missing root type (s.uuidAfter calls) (s.busAfter calls) row
  new : ∀ before c after, v = before ++ c :: after → ∀ d ∈ s.heap.devs c, ∀ row,
    s.inserted calls d = some row → ∀ c' ∈ after, ¬ s.Deletes calls root type c' row

/-- `UUID()` gives keys that are new, and each of them once. -/
structure FreshRows (calls : DevCalls) (s : SyncState) : Prop where
  key : Primary Server.Resource.resource s.db.resources
  new : ∀ d row, calls.updateDB d = some row → ∀ r ∈ s.db.resources, r.resource ≠ row.resource
  once : ∀ d e row row', calls.updateDB d = some row → calls.updateDB e = some row' →
    row.resource = row'.resource → d = e

variable {calls : DevCalls} {s₀ s s' s'' : SyncState} {root fuel c : ℕ} {type : String}
variable {ds ds' v as : List ℕ} {p q : Server.Resource String → Prop}

/-! ## The virtual calls -/

theorem updateDev_eq (calls : DevCalls) (s : SyncState) (d : ℕ) : s.updateDev calls d =
    { heap := { s.heap with dev := update s.heap.dev d (s.devAfter calls d) }
      busUUID := update s.busUUID d (s.busAfter calls d)
      db := { s.db with resources := s.db.resources ++ (s.inserted calls d).toList }
      called := s.called ++ [d] } := by
  unfold updateDev devAfter nameAfter uuidAfter busAfter inserted
  cases hdev : (s.heap.dev d).uuid with
  | some uuid => simp [hdev, setParams]
  | none =>
    have hsame : { s.heap.dev d with uuid := none } = s.heap.dev d := by rw [← hdev]
    cases hrow : calls.updateDB d with
    | some row => simp [hdev, setParams]
    | none => simp [hdev, hsame]

theorem mem_addBus {busses : List String} {own : Option String} {bus : String} :
    bus ∈ addBus busses own ↔ bus ∈ busses ∨ own = some bus := by
  cases own with
  | none => simp [addBus]
  | some own =>
    rw [addBus, Option.some.injEq]
    split
    next hmem => exact ⟨.inl, fun hb => hb.elim id fun heq => heq ▸ hmem⟩
    next => rw [List.mem_append, List.mem_singleton, eq_comm (a := bus)]

/-- The devices have been called, each once, since they were as in `s₀`. -/
structure Updates (calls : DevCalls) (s₀ : SyncState) (ds : List ℕ) (s s' : SyncState) : Prop where
  res : s'.heap.res = s.heap.res
  called : s'.called = s.called ++ ds
  inside : ∀ d ∈ ds, s'.heap.dev d = s₀.devAfter calls d ∧ s'.busUUID d = s₀.busAfter calls d
  outside : ∀ d, d ∉ ds → s'.heap.dev d = s.heap.dev d ∧ s'.busUUID d = s.busUUID d

/-- The devices are still as in `s₀`. -/
def Agrees (s₀ : SyncState) (ds : List ℕ) (s : SyncState) : Prop :=
  ∀ d ∈ ds, s.heap.dev d = s₀.heap.dev d ∧ s.busUUID d = s₀.busUUID d

theorem Updates.trans (h : Updates calls s₀ ds s s') (h' : Updates calls s₀ ds' s' s'')
    (hdisj : ds.Disjoint ds') : Updates calls s₀ (ds ++ ds') s s'' where
  res := h'.res.trans h.res
  called := by rw [h'.called, h.called, List.append_assoc]
  inside := by
    intro d hd
    obtain hd | hd := List.mem_append.1 hd
    · obtain ⟨hdev, hbus⟩ := h'.outside d (hdisj hd)
      obtain ⟨hdev', hbus'⟩ := h.inside d hd
      exact ⟨hdev.trans hdev', hbus.trans hbus'⟩
    · exact h'.inside d hd
  outside := by
    intro d hd
    rw [List.mem_append, not_or] at hd
    obtain ⟨hdev, hbus⟩ := h'.outside d hd.2
    obtain ⟨hdev', hbus'⟩ := h.outside d hd.1
    exact ⟨hdev.trans hdev', hbus.trans hbus'⟩

theorem Agrees.after (h : Agrees s₀ ds' s) (hu : Updates calls s₀ ds s s')
    (hdisj : ds.Disjoint ds') : Agrees s₀ ds' s' := by
  intro d hd
  obtain ⟨hdev, hbus⟩ := hu.outside d fun hmem => hdisj hmem hd
  obtain ⟨hdev', hbus'⟩ := h d hd
  exact ⟨hdev.trans hdev', hbus.trans hbus'⟩

/-- One turn of the loop: `type == type` holds. -/
theorem updates_updateNext (calls : DevCalls) (type : String) (busses : List String) {d : ℕ}
    (h : Agrees s₀ [d] s) :
    Updates calls s₀ [d] s (updateNext calls type (s, busses) d).1 ∧
    (updateNext calls type (s, busses) d).1.db.resources =
      s.db.resources ++ (s₀.inserted calls d).toList ∧
    ∀ bus, bus ∈ (updateNext calls type (s, busses) d).2 ↔
      bus ∈ busses ∨ s₀.busAfter calls d = some bus := by
  obtain ⟨hdev, hbus⟩ := h d List.mem_cons_self
  have hdevAfter : s.devAfter calls d = s₀.devAfter calls d := by
    unfold devAfter nameAfter uuidAfter
    rw [hdev]
  have hbusAfter : s.busAfter calls d = s₀.busAfter calls d := by
    rw [busAfter, hdev, hbus, ← busAfter]
  have hrow : s.inserted calls d = s₀.inserted calls d := by rw [inserted, hdev, ← inserted]
  have hnext : updateNext calls type (s, busses) d =
      (s.updateDev calls d, addBus busses ((s.updateDev calls d).busUUID d)) := by
    rw [updateNext, if_pos (Or.inr rfl)]
  rw [hnext, updateDev_eq, hdevAfter, hbusAfter, hrow]
  refine ⟨⟨rfl, rfl, fun e he => ?_, fun e he => ?_⟩, rfl, fun bus => ?_⟩
  · obtain rfl := List.mem_singleton.1 he
    exact ⟨update_self .., update_self ..⟩
  · have hne : e ≠ d := fun heq => he (List.mem_singleton.2 heq)
    exact ⟨update_of_ne hne .., update_of_ne hne ..⟩
  · show bus ∈ addBus busses (update s.busUUID d (s₀.busAfter calls d) d) ↔ _
    rw [update_self, mem_addBus]

/-- The loop over the devices of a container. -/
theorem updates_foldl (calls : DevCalls) (type : String) (busses : List String) (hds : ds.Nodup)
    (h : Agrees s₀ ds s) :
    Updates calls s₀ ds s (ds.foldl (updateNext calls type) (s, busses)).1 ∧
    (ds.foldl (updateNext calls type) (s, busses)).1.db.resources =
      s.db.resources ++ ds.filterMap (s₀.inserted calls) ∧
    ∀ bus, bus ∈ (ds.foldl (updateNext calls type) (s, busses)).2 ↔
      bus ∈ busses ∨ ∃ d ∈ ds, s₀.busAfter calls d = some bus := by
  induction ds generalizing s busses with
  | nil => exact ⟨⟨rfl, (List.append_nil _).symm, nofun, fun _ _ => ⟨rfl, rfl⟩⟩, by simp, by simp⟩
  | cons d ds ih =>
    obtain ⟨hd, hds⟩ := List.nodup_cons.1 hds
    obtain ⟨hfirst, hrest⟩ := List.forall_mem_cons.1 h
    obtain ⟨hu, hrows, hbus⟩ := updates_updateNext calls type busses
      (List.forall_mem_singleton.2 hfirst)
    have hdisj : [d].Disjoint ds := List.singleton_disjoint.2 hd
    obtain ⟨hu', hrows', hbus'⟩ := ih (updateNext calls type (s, busses) d).2 hds
      (Agrees.after hrest hu hdisj)
    rw [List.foldl_cons]
    refine ⟨hu.trans hu' hdisj, ?_, fun bus => ?_⟩
    · rw [hrows', hrows, List.append_assoc]
      congr 1
      cases hrow : s₀.inserted calls d <;> simp [hrow]
    · rw [hbus', hbus, or_assoc, List.exists_mem_cons_iff]

/-! ## The rows that go -/

/-- Rows have been deleted, those with `p`, and nothing else has happened. -/
structure Sweeps (p : Server.Resource String → Prop) (s s' : SyncState) : Prop where
  heap : s'.heap = s.heap
  busUUID : s'.busUUID = s.busUUID
  called : s'.called = s.called
  sublist : s'.db.resources.Sublist s.db.resources
  rows : ∀ row, row ∈ s'.db.resources ↔ row ∈ s.db.resources ∧ ¬ p row

theorem Sweeps.key (h : Sweeps p s s') (hkey : Primary Server.Resource.resource s.db.resources) :
    Primary Server.Resource.resource s'.db.resources :=
  List.Nodup.sublist (h.sublist.map _) hkey

theorem Sweeps.trans (h : Sweeps p s s') (h' : Sweeps q s' s'') :
    Sweeps (fun row => p row ∨ q row) s s'' where
  heap := h'.heap.trans h.heap
  busUUID := h'.busUUID.trans h.busUUID
  called := h'.called.trans h.called
  sublist := h'.sublist.trans h.sublist
  rows := by
    intro row
    rw [h'.rows, h.rows, not_or, and_assoc]

/-- The same for the rows that are there. -/
theorem Sweeps.congr (h : Sweeps p s s') (hpq : ∀ row ∈ s.db.resources, p row ↔ q row) :
    Sweeps q s s' where
  heap := h.heap
  busUUID := h.busUUID
  called := h.called
  sublist := h.sublist
  rows := by
    intro row
    rw [h.rows]
    exact and_congr_right fun hrow => not_congr (hpq row hrow)

/-- A loop of deletions. -/
theorem exists_sweeps_foldlM {ι : Type} {f : SyncState → ι → Option SyncState}
    {p : ι → Server.Resource String → Prop} {xs : List ι} (t : SyncState)
    (hf : ∀ x ∈ xs, ∀ s, s.heap = t.heap → Primary Server.Resource.resource s.db.resources →
      ∃ s', f s x = some s' ∧ Sweeps (p x) s s')
    (hheap : s.heap = t.heap) (hkey : Primary Server.Resource.resource s.db.resources) :
    ∃ s', xs.foldlM f s = some s' ∧ Sweeps (fun row => ∃ x ∈ xs, p x row) s s' := by
  induction xs generalizing s with
  | nil => exact ⟨s, rfl, rfl, rfl, rfl, List.Sublist.refl _, by simp⟩
  | cons x xs ih =>
    obtain ⟨hx, hxs⟩ := List.forall_mem_cons.1 hf
    obtain ⟨s', hs', hsweep⟩ := hx s hheap hkey
    obtain ⟨s'', hs'', hsweep'⟩ := ih hxs (hsweep.heap.trans hheap) (hsweep.key hkey)
    refine ⟨s'', ?_, ?_⟩
    · rw [List.foldlM_cons, hs']
      exact hs''
    · apply (hsweep.trans hsweep').congr
      intro row _
      rw [List.exists_mem_cons_iff]

/-- The look-up in a container returns, and finds nothing if none of the devices below has the
UUID. -/
theorem getResourceByUUID_eq_none_iff {h : ResourceHeap} (uuid : String)
    (hv : Unfolds h.sub [c] v) (hle : v.length ≤ fuel) :
    ∃ dev, h.getResourceByUUID fuel uuid c = some dev ∧
      (dev = none ↔ ∀ d ∈ v.flatMap h.devs, (h.dev d).uuid ≠ some uuid) := by
  obtain ⟨all, hall⟩ :=
    ResourceHeap.exists_getResourceByType hv hle List.mem_cons_self (h.res c).mType
  obtain ⟨v', hv', -, heq⟩ := ResourceHeap.unfolds_of_getResourceByType hall
  obtain rfl := hv.unique hv'
  refine ⟨_, by rw [ResourceHeap.getResourceByUUID, hall, Option.map_some], ?_⟩
  rw [heq rfl, List.find?_eq_none]
  constructor
  · intro hnone d hd huuid
    obtain ⟨x, hx, hd⟩ := List.mem_flatMap.1 hd
    have hvisible : d ∈ h.visible x := List.mem_filter.2 ⟨hd, by simp [huuid]⟩
    exact absurd (decide_eq_true huuid) (hnone d (List.mem_flatMap.2 ⟨x, hx, hvisible⟩))
  · intro hnone d hd
    obtain ⟨x, hx, hd⟩ := List.mem_flatMap.1 hd
    have hne := hnone d (List.mem_flatMap.2 ⟨x, hx, List.mem_of_mem_filter hd⟩)
    rw [decide_eq_true_eq]
    exact hne

/-- The rows of the type on the bus go that no device below the container knows. -/
theorem exists_sweeps_removeMissing (hv : Unfolds s.heap.sub [c] v) (hle : v.length ≤ fuel)
    (hkey : Primary Server.Resource.resource s.db.resources) (bus : String) :
    ∃ s', removeMissing fuel c type s bus = some s' ∧
      Sweeps (fun row => row.bus = bus ∧ row.resourceType = type ∧
        ∀ d ∈ v.flatMap s.heap.devs, (s.heap.dev d).uuid ≠ some row.resource) s s' := by
  have hrow : ∀ row ∈ s.db.resources.filter fun row => row.bus = bus, ∀ t : SyncState,
      t.heap = s.heap → Primary Server.Resource.resource t.db.resources →
      ∃ t', removeRow fuel c type t row = some t' ∧
        Sweeps (fun r => r.resource = row.resource ∧ row.resourceType = type ∧
          ∀ d ∈ v.flatMap s.heap.devs, (s.heap.dev d).uuid ≠ some row.resource) t t' := by
    intro row _ t ht _
    obtain ⟨dev, hdev, hnone⟩ := getResourceByUUID_eq_none_iff row.resource hv hle
    rw [← ht] at hdev
    rw [removeRow, hdev]
    by_cases htype : type = row.resourceType
    · rw [if_neg (not_not.2 htype)]
      cases dev with
      | some dev =>
        refine ⟨t, rfl, rfl, rfl, rfl, List.Sublist.refl _, fun r => ?_⟩
        rw [← hnone]
        simp
      | none =>
        refine ⟨_, rfl, rfl, rfl, rfl, ?_, fun r => ?_⟩
        · show List.Sublist (t.db.resourceDelete row.resource).2.resources t.db.resources
          rw [Server.Db.resources_resourceDelete]
          exact List.filter_sublist
        · show r ∈ (t.db.resourceDelete row.resource).2.resources ↔ _
          rw [Server.Db.resources_resourceDelete, mem_delete, ← hnone]
          simp [htype]
    · rw [if_pos htype]
      refine ⟨t, rfl, rfl, rfl, rfl, List.Sublist.refl _, fun r => ?_⟩
      simp [Ne.symm htype]
  obtain ⟨s', hs', hsweep⟩ := exists_sweeps_foldlM s hrow rfl hkey
  refine ⟨s', hs', hsweep.congr fun row hmem => ?_⟩
  constructor
  · rintro ⟨row', hrow', heq, htype, hnone⟩
    obtain ⟨hmem', hbus⟩ := List.mem_filter.1 hrow'
    -- the key tells the rows apart
    obtain rfl := eq_of_key_eq hkey hmem hmem' heq
    exact ⟨of_decide_eq_true hbus, htype, hnone⟩
  · rintro ⟨hbus, htype, hnone⟩
    exact ⟨row, List.mem_filter.2 ⟨hmem, decide_eq_true hbus⟩, rfl, htype, hnone⟩

/-! ## The visits of the containers -/

theorem uuidAfter_of_inserted {d : ℕ} {row : Server.Resource String}
    (h : s.inserted calls d = some row) : s.uuidAfter calls d = some row.resource := by
  unfold inserted at h
  unfold uuidAfter
  split at h
  · cases h
  next hdev => rw [if_neg hdev, h, Option.map_some]

/-- Which rows are there after the visit of a container, from those before. -/
def rowsAfter (calls : DevCalls) (s₀ : SyncState) (root : ℕ) (type : String)
    (p : Server.Resource String → Prop) (c : ℕ) (row : Server.Resource String) : Prop :=
  (p row ∨ ∃ d ∈ s₀.heap.devs c, s₀.inserted calls d = some row) ∧
    ¬ s₀.Deletes calls root type c row

/-- The containers have been visited since the devices in them were as in `s₀`. -/
structure Visits (calls : DevCalls) (s₀ : SyncState) (root : ℕ) (type : String) (v : List ℕ)
    (s s' : SyncState) : Prop extends Updates calls s₀ (v.flatMap s₀.heap.devs) s s' where
  key : Primary Server.Resource.resource s'.db.resources
  rows : ∀ row, row ∈ s'.db.resources ↔
    v.foldl (rowsAfter calls s₀ root type) (· ∈ s.db.resources) row

theorem Visits.trans {w : List ℕ} (h : Visits calls s₀ root type v s s')
    (h' : Visits calls s₀ root type w s' s'')
    (hdisj : (v.flatMap s₀.heap.devs).Disjoint (w.flatMap s₀.heap.devs)) :
    Visits calls s₀ root type (v ++ w) s s'' where
  toUpdates := List.flatMap_append ▸ h.toUpdates.trans h'.toUpdates hdisj
  key := h'.key
  rows := by
    intro row
    have hrows : (· ∈ s'.db.resources) =
        v.foldl (rowsAfter calls s₀ root type) (· ∈ s.db.resources) :=
      funext fun r => propext (h.rows r)
    rw [h'.rows, hrows, List.foldl_append]

/-- A row is there in the end if it was there, or came with a device, and was in the way of no
container from then on. -/
theorem foldl_rowsAfter_iff {row : Server.Resource String} :
    v.foldl (rowsAfter calls s₀ root type) p row ↔
      (p row ∧ ∀ c ∈ v, ¬ s₀.Deletes calls root type c row) ∨
      ∃ before c after, v = before ++ c :: after ∧
        (∃ d ∈ s₀.heap.devs c, s₀.inserted calls d = some row) ∧
        ∀ c' ∈ after, ¬ s₀.Deletes calls root type c' row := by
  induction v generalizing p with
  | nil => simp
  | cons c v ih =>
    rw [List.foldl_cons, ih, rowsAfter, List.forall_mem_cons]
    constructor
    · rintro (⟨⟨hrow | hnew, hc⟩, hv⟩ | ⟨before, c', after, rfl, hnew, hafter⟩)
      · exact .inl ⟨hrow, hc, hv⟩
      · exact .inr ⟨[], c, v, rfl, hnew, hv⟩
      · exact .inr ⟨c :: before, c', after, rfl, hnew, hafter⟩
    · rintro (⟨hrow, hc, hv⟩ | ⟨before, c', after, heq, hnew, hafter⟩)
      · exact .inl ⟨⟨.inl hrow, hc⟩, hv⟩
      · cases before with
        | nil =>
          obtain ⟨rfl, rfl⟩ := List.cons.inj heq
          refine .inl ⟨⟨.inr hnew, ?_⟩, hafter⟩
          -- the device itself has the key of the row
          obtain ⟨d, hd, hins⟩ := hnew
          intro hdel
          exact hdel.2.2.1 d hd (uuidAfter_of_inserted hins)
        | cons b before =>
          obtain ⟨rfl, rfl⟩ := List.cons.inj heq
          exact .inr ⟨before, c', after, rfl, hnew, hafter⟩

/-- The rows that come with the devices have keys that are not in the table. -/
def NewKeys (calls : DevCalls) (s₀ : SyncState) (ds : List ℕ) (s : SyncState) : Prop :=
  ∀ d ∈ ds, ∀ row, s₀.inserted calls d = some row → ∀ r ∈ s.db.resources, r.resource ≠ row.resource

theorem updateDB_of_inserted {d : ℕ} {row : Server.Resource String}
    (h : s₀.inserted calls d = some row) : calls.updateDB d = some row := by
  unfold inserted at h
  split at h
  · cases h
  · exact h

theorem Visits.newKeys (h : Visits calls s₀ root type v s s') (hfresh : FreshRows calls s₀)
    (hnew : NewKeys calls s₀ ds s) (hdisj : (v.flatMap s₀.heap.devs).Disjoint ds) :
    NewKeys calls s₀ ds s' := by
  intro d hd row hrow r hr heq
  obtain ⟨hr, -⟩ | ⟨before, c, after, rfl, ⟨e, he, hins⟩, -⟩ :=
    foldl_rowsAfter_iff.1 ((h.rows r).1 hr)
  · exact hnew d hd row hrow r hr heq
  · have hsame := hfresh.once e d r row (updateDB_of_inserted hins) (updateDB_of_inserted hrow) heq
    have hmem : e ∈ (before ++ c :: after).flatMap s₀.heap.devs :=
      List.mem_flatMap.2 ⟨c, by simp, he⟩
    exact hdisj hmem (hsame ▸ hd)

theorem primary_append (hfresh : FreshRows calls s₀) (hds : ds.Nodup)
    (hkey : Primary Server.Resource.resource s.db.resources) (hnew : NewKeys calls s₀ ds s) :
    Primary Server.Resource.resource (s.db.resources ++ ds.filterMap (s₀.inserted calls)) := by
  rw [Primary, List.map_append, List.map_filterMap]
  apply List.Nodup.append hkey
  · apply hds.filterMap
    intro d e key hd he
    obtain ⟨row, hrow, rfl⟩ := Option.map_eq_some_iff.1 hd
    obtain ⟨row', hrow', heq⟩ := Option.map_eq_some_iff.1 he
    exact hfresh.once d e row row' (updateDB_of_inserted hrow) (updateDB_of_inserted hrow') heq.symm
  · intro key hold hins
    obtain ⟨r, hr, rfl⟩ := List.mem_map.1 hold
    obtain ⟨d, hd, hkey'⟩ := List.mem_filterMap.1 hins
    obtain ⟨row, hrow, heq⟩ := Option.map_eq_some_iff.1 hkey'
    exact hnew d hd row hrow r hr heq.symm

/-- What `updateDB` does with the container itself. -/
def visit (calls : DevCalls) (fuel : ℕ) (type : String) (s : SyncState) (c : ℕ) :
    Option SyncState :=
  let (s, busses) := (s.heap.devs c).foldl (updateNext calls type) (s, [])
  busses.foldlM (removeMissing fuel c type) s

theorem updateDB_succ : updateDB calls (fuel + 1) type s c =
    (visit calls (fuel + 1) type s c).bind fun s => (s.heap.sub c).foldlM (fun s' r =>
      updateDB calls fuel (if type = type then (s.heap.res r).mType else type) s' r) s := rfl

theorem foldlM_congr_mem {σ ι : Type} {f g : σ → ι → Option σ} {xs : List ι}
    (h : ∀ x ∈ xs, ∀ s, f s x = g s x) (s : σ) : xs.foldlM f s = xs.foldlM g s := by
  rw [List.foldlM_eq_foldl, List.foldlM_eq_foldl]
  apply List.foldl_ext
  intro s x hx
  rw [funext fun s => h x hx s]

/-- The devices of the container as they are when rows are deleted: its own have had their calls. -/
theorem forall_below_iff {below : List ℕ} {uuid : String} (hbelow : Unfolds s₀.heap.sub
      (s₀.heap.sub c) below) (htree : ((c :: below).flatMap s₀.heap.devs).Nodup)
    (hu : Updates calls s₀ (s₀.heap.devs c) s s')
    (hagree : Agrees s₀ ((c :: below).flatMap s₀.heap.devs) s) :
    (∀ d ∈ (c :: below).flatMap s₀.heap.devs, (s'.heap.dev d).uuid ≠ some uuid) ↔
      (∀ d ∈ s₀.heap.devs c, s₀.uuidAfter calls d ≠ some uuid) ∧
      ∀ x, TransGen (fun x y => y ∈ s₀.heap.sub x) c x → ∀ d ∈ s₀.heap.devs x,
        (s₀.heap.dev d).uuid ≠ some uuid := by
  rw [List.flatMap_cons] at htree hagree ⊢
  rw [List.forall_mem_append]
  apply and_congr
  · apply forall₂_congr
    intro d hd
    rw [(hu.inside d hd).1, devAfter]
  · have hreach : ∀ x, TransGen (fun x y => y ∈ s₀.heap.sub x) c x ↔ x ∈ below := by
      intro x
      rw [TransGen.head'_iff, hbelow.mem_iff]
    have hsame : ∀ d ∈ below.flatMap s₀.heap.devs, s'.heap.dev d = s₀.heap.dev d := by
      intro d hd
      have hout := (hu.outside d fun hown => (List.disjoint_of_nodup_append htree) hown hd).1
      exact hout.trans (hagree d (List.mem_append_right _ hd)).1
    constructor
    · intro h x hx d hd
      have hmem := List.mem_flatMap.2 ⟨x, (hreach x).1 hx, hd⟩
      rw [← hsame d hmem]
      exact h d hmem
    · intro h d hd
      obtain ⟨x, hx, hdx⟩ := List.mem_flatMap.1 hd
      rw [hsame d hd]
      exact h x ((hreach x).2 hx) d hdx

theorem sub_of_res_eq {h h' : ResourceHeap} (hres : h'.res = h.res) : h'.sub = h.sub := by
  unfold ResourceHeap.sub
  rw [hres]

theorem devs_of_res_eq {h h' : ResourceHeap} (hres : h'.res = h.res) : h'.devs = h.devs := by
  unfold ResourceHeap.devs
  rw [hres]

theorem exists_visit (root : ℕ) (type : String) {below : List ℕ} (hfresh : FreshRows calls s₀)
    (hbelow : Unfolds s₀.heap.sub (s₀.heap.sub c) below) (hle : (c :: below).length ≤ fuel)
    (htree : ((c :: below).flatMap s₀.heap.devs).Nodup) (hres : s.heap.res = s₀.heap.res)
    (hagree : Agrees s₀ ((c :: below).flatMap s₀.heap.devs) s)
    (hkey : Primary Server.Resource.resource s.db.resources)
    (hnew : NewKeys calls s₀ ((c :: below).flatMap s₀.heap.devs) s) :
    ∃ s', visit calls fuel (s₀.passed root type c) s c = some s' ∧
      Visits calls s₀ root type [c] s s' := by
  have hown : ∀ d ∈ s₀.heap.devs c, d ∈ (c :: below).flatMap s₀.heap.devs := by
    intro d hd
    exact List.mem_flatMap.2 ⟨c, List.mem_cons_self, hd⟩
  have hds : (s₀.heap.devs c).Nodup := by
    rw [List.flatMap_cons] at htree
    exact htree.of_append_left
  have hdevs : s.heap.devs = s₀.heap.devs := devs_of_res_eq hres
  obtain ⟨hu, hrows, hbus⟩ := updates_foldl calls (s₀.passed root type c) [] hds
    fun d hd => hagree d (hown d hd)
  rw [visit, hdevs]
  generalize (s₀.heap.devs c).foldl (updateNext calls (s₀.passed root type c)) (s, []) = sb
    at hu hrows hbus
  obtain ⟨s₁, busses⟩ := sb
  have hres₁ : s₁.heap.res = s₀.heap.res := hu.res.trans hres
  have hsub₁ : s₁.heap.sub = s₀.heap.sub := sub_of_res_eq hres₁
  have hdevs₁ : s₁.heap.devs = s₀.heap.devs := devs_of_res_eq hres₁
  have hkey₁ : Primary Server.Resource.resource s₁.db.resources := by
    rw [hrows]
    exact primary_append hfresh hds hkey fun d hd => hnew d (hown d hd)
  have hvisit : Unfolds s₁.heap.sub [c] (c :: below) :=
    unfolds_singleton_iff.2 ⟨below, hsub₁ ▸ hbelow, rfl⟩
  have hbusses : ∀ bus ∈ busses, ∀ t : SyncState, t.heap = s₁.heap →
      Primary Server.Resource.resource t.db.resources →
      ∃ t', removeMissing fuel c (s₀.passed root type c) t bus = some t' ∧
        Sweeps (fun row => row.bus = bus ∧ row.resourceType = s₀.passed root type c ∧
          ∀ d ∈ (c :: below).flatMap s₀.heap.devs,
            (s₁.heap.dev d).uuid ≠ some row.resource) t t' := by
    intro bus _ t ht hkeyt
    have hdevs : t.heap.devs = s₀.heap.devs := by rw [ht, hdevs₁]
    rw [← ht] at hvisit ⊢
    rw [← hdevs]
    exact exists_sweeps_removeMissing hvisit hle hkeyt bus
  obtain ⟨s₂, hs₂, hsweep⟩ := exists_sweeps_foldlM s₁ hbusses rfl hkey₁
  refine ⟨s₂, hs₂, ?_, hsweep.key hkey₁, fun row => ?_⟩
  · rw [List.flatMap_singleton]
    constructor
    · rw [hsweep.heap]; exact hu.res
    · rw [hsweep.called]; exact hu.called
    · rw [hsweep.heap, hsweep.busUUID]; exact hu.inside
    · rw [hsweep.heap, hsweep.busUUID]; exact hu.outside
  · rw [hsweep.rows, hrows, List.foldl_cons, List.foldl_nil, rowsAfter, List.mem_append,
      List.mem_filterMap]
    apply and_congr_right
    intro _
    apply not_congr
    rw [Deletes, ← forall_below_iff hbelow htree hu hagree]
    constructor
    · rintro ⟨bus, hmem, rfl, htype, hnone⟩
      exact ⟨htype, ((hbus row.bus).1 hmem).resolve_left List.not_mem_nil, hnone⟩
    · rintro ⟨htype, hmem, hnone⟩
      exact ⟨row.bus, (hbus row.bus).2 (.inr hmem), rfl, htype, hnone⟩

/-- The containers in a list and all below them are visited one after the other. -/
theorem exists_visits (hfresh : FreshRows calls s₀) (h : Unfolds s₀.heap.sub as v)
    (hle : v.length ≤ fuel) (htree : (v.flatMap s₀.heap.devs).Nodup)
    (hpassed : ∀ c ∈ v, ∀ r ∈ s₀.heap.sub c, s₀.passed root type r = (s₀.heap.res r).mType)
    (hres : s.heap.res = s₀.heap.res) (hagree : Agrees s₀ (v.flatMap s₀.heap.devs) s)
    (hkey : Primary Server.Resource.resource s.db.resources)
    (hnew : NewKeys calls s₀ (v.flatMap s₀.heap.devs) s) :
    ∃ s', as.foldlM (fun s r => updateDB calls fuel (s₀.passed root type r) s r) s = some s' ∧
      Visits calls s₀ root type v s s' := by
  induction h generalizing fuel s with
  | nil =>
    refine ⟨s, rfl, ⟨rfl, (List.append_nil _).symm, nofun, fun _ _ => ⟨rfl, rfl⟩⟩, hkey, ?_⟩
    exact fun row => Iff.rfl
  | @cons c as below rest hbelow _ ihbelow ihrest =>
    have hall : (c :: (below ++ rest)).flatMap s₀.heap.devs =
        s₀.heap.devs c ++ (below.flatMap s₀.heap.devs ++ rest.flatMap s₀.heap.devs) := by
      rw [List.flatMap_cons, List.flatMap_append]
    have hown : (c :: below).flatMap s₀.heap.devs =
        s₀.heap.devs c ++ below.flatMap s₀.heap.devs := List.flatMap_cons
    rw [hall] at htree hagree hnew
    rw [List.length_cons, List.length_append] at hle
    obtain ⟨-, hbr, hdisj⟩ := List.nodup_append'.1 htree
    obtain ⟨hb, hr, hdisj'⟩ := List.nodup_append'.1 hbr
    rw [List.disjoint_append_right] at hdisj
    obtain ⟨fuel, rfl⟩ := Nat.exists_eq_add_one_of_ne_zero (by omega : fuel ≠ 0)
    -- the container itself
    have hsub : ∀ d ∈ (c :: below).flatMap s₀.heap.devs, d ∈ s₀.heap.devs c ++
        (below.flatMap s₀.heap.devs ++ rest.flatMap s₀.heap.devs) := by
      intro d hd
      rw [hown] at hd
      rw [← List.append_assoc]
      exact List.mem_append_left _ hd
    have htree' : ((c :: below).flatMap s₀.heap.devs).Nodup := by
      rw [← List.append_assoc] at htree
      rw [hown]
      exact htree.of_append_left
    have hfuel : (c :: below).length ≤ fuel + 1 := by
      rw [List.length_cons]
      omega
    obtain ⟨s₁, hs₁, hv₁⟩ := exists_visit root type hfresh hbelow
      hfuel htree' hres (fun d hd => hagree d (hsub d hd)) hkey (fun d hd => hnew d (hsub d hd))
    have hdevs : [c].flatMap s₀.heap.devs = s₀.heap.devs c := List.flatMap_singleton ..
    -- those below
    have hdisj₁ : ([c].flatMap s₀.heap.devs).Disjoint (below.flatMap s₀.heap.devs) :=
      hdevs ▸ hdisj.1
    have hagree₁ : Agrees s₀ (below.flatMap s₀.heap.devs) s := fun d hd =>
      hagree d (List.mem_append_right _ (List.mem_append_left _ hd))
    have hnew₁ : NewKeys calls s₀ (below.flatMap s₀.heap.devs) s := fun d hd =>
      hnew d (List.mem_append_right _ (List.mem_append_left _ hd))
    obtain ⟨s₂, hs₂, hv₂⟩ := ihbelow (show below.length ≤ fuel by omega) hb
      (fun x hx => hpassed x (List.mem_cons_of_mem _ (List.mem_append_left _ hx)))
      (hv₁.res.trans hres) (hagree₁.after hv₁.toUpdates hdisj₁) hv₁.key
      (hv₁.newKeys hfresh hnew₁ hdisj₁)
    have hv₁₂ := hv₁.trans hv₂ hdisj₁
    -- the rest of the list
    have hdisj₂ : (([c] ++ below).flatMap s₀.heap.devs).Disjoint (rest.flatMap s₀.heap.devs) := by
      rw [List.flatMap_append, hdevs]
      exact List.disjoint_append_left.2 ⟨hdisj.2, hdisj'⟩
    have hagree₂ : Agrees s₀ (rest.flatMap s₀.heap.devs) s := fun d hd =>
      hagree d (List.mem_append_right _ (List.mem_append_right _ hd))
    have hnew₂ : NewKeys calls s₀ (rest.flatMap s₀.heap.devs) s := fun d hd =>
      hnew d (List.mem_append_right _ (List.mem_append_right _ hd))
    obtain ⟨s₃, hs₃, hv₃⟩ := ihrest (show rest.length ≤ fuel + 1 by omega) hr
      (fun x hx => hpassed x (List.mem_cons_of_mem _ (List.mem_append_right _ hx)))
      (hv₁₂.res.trans hres) (hagree₂.after hv₁₂.toUpdates hdisj₂) hv₁₂.key
      (hv₁₂.newKeys hfresh hnew₂ hdisj₂)
    refine ⟨s₃, ?_, hv₁₂.trans hv₃ hdisj₂⟩
    have hres₁ : s₁.heap.res = s₀.heap.res := hv₁.res.trans hres
    have hsub₁ : s₁.heap.sub = s₀.heap.sub := sub_of_res_eq hres₁
    have hcalls : (s₁.heap.sub c).foldlM (fun s' r => updateDB calls fuel
        (if s₀.passed root type c = s₀.passed root type c then (s₁.heap.res r).mType
          else s₀.passed root type c) s' r) s₁ = some s₂ := by
      rw [hsub₁, ← hs₂]
      apply foldlM_congr_mem
      intro r hr s
      rw [if_pos rfl, hres₁, hpassed c List.mem_cons_self r hr]
    rw [List.foldlM_cons, updateDB_succ, hs₁, Option.bind_some, hcalls]
    exact hs₃

/-! ## When the table is right -/

theorem reaches_of_ruleVisits {x : ℕ × String} (h : s.heap.RuleVisits root type x) :
    ReflTransGen (fun x y => y ∈ s.heap.sub x) root x.1 := by
  induction h with
  | refl => exact .refl
  | tail _ hy ih =>
    obtain ⟨r, hr, rfl⟩ := List.mem_map.1 hy
    exact ih.tail hr

theorem mem_of_reaches (hv : Unfolds s.heap.sub [root] v)
    (h : ReflTransGen (fun x y => y ∈ s.heap.sub x) root c) : c ∈ v :=
  hv.mem_iff.2 ⟨root, List.mem_cons_self, h⟩

theorem mem_of_selects (hv : Unfolds s.heap.sub [root] v) {d : ℕ}
    (h : s.heap.Selects root type d) : d ∈ v.flatMap s.heap.devs := by
  obtain ⟨x, hx, hd, -⟩ := h
  exact List.mem_flatMap.2 ⟨x.1, mem_of_reaches hv (reaches_of_ruleVisits hx), hd⟩

/-- What is missing depends on the devices in the tree. -/
theorem missing_congr (hv : Unfolds s.heap.sub [root] v) {uuid uuid' bus bus' : ℕ → Option String}
    (h : ∀ d ∈ v.flatMap s.heap.devs, uuid d = uuid' d ∧ bus d = bus' d)
    (row : Server.Resource String) :
    s.Missing root type uuid bus row ↔ s.Missing root type uuid' bus' row := by
  have hrow : ∀ uuid uuid' bus bus' : ℕ → Option String,
      (∀ d ∈ v.flatMap s.heap.devs, uuid d = uuid' d ∧ bus d = bus' d) →
      s.Missing root type uuid bus row → s.Missing root type uuid' bus' row := by
    rintro uuid uuid' bus bus' h ⟨⟨x, hx, htype, d, hd, hbus⟩, hnone⟩
    refine ⟨⟨x, hx, htype, d, hd, ?_⟩, fun c hc d hd => ?_⟩
    · rw [← (h d (mem_of_selects hv ⟨x, hx, hd⟩)).2]
      exact hbus
    · rw [← (h d (List.mem_flatMap.2 ⟨c, mem_of_reaches hv hc, hd⟩)).1]
      exact hnone c hc d hd
  constructor
  · exact hrow uuid uuid' bus bus' h
  · apply hrow uuid' uuid bus' bus
    intro d hd
    exact ⟨(h d hd).1.symm, (h d hd).2.symm⟩

/-- A device is in one of the containers, at one place. -/
theorem after_eq {before before' after after' : List ℕ} {c' d : ℕ}
    (htree : ((before ++ c :: after).flatMap s.heap.devs).Nodup)
    (heq : before ++ c :: after = before' ++ c' :: after') (hd : d ∈ s.heap.devs c)
    (hd' : d ∈ s.heap.devs c') : after = after' := by
  induction before generalizing before' with
  | nil =>
    cases before' with
    | nil => exact (List.cons.inj heq).2
    | cons b before' =>
      obtain ⟨rfl, rfl⟩ := List.cons.inj heq
      rw [List.nil_append, List.flatMap_cons] at htree
      have hmem : d ∈ (before' ++ c' :: after').flatMap s.heap.devs :=
        List.mem_flatMap.2 ⟨c', by simp, hd'⟩
      exact absurd hmem fun hmem => List.disjoint_of_nodup_append htree hd hmem
  | cons b before ih =>
    rw [List.cons_append, List.flatMap_cons] at htree
    cases before' with
    | nil =>
      obtain ⟨rfl, rfl⟩ := List.cons.inj heq
      have hmem : d ∈ (before ++ c :: after).flatMap s.heap.devs :=
        List.mem_flatMap.2 ⟨c, by simp, hd⟩
      exact absurd hmem fun hmem => List.disjoint_of_nodup_append htree hd' hmem
    | cons b' before' => exact ih htree.of_append_right (List.cons.inj heq).2

/-- The root is in none of the containers below it. -/
theorem passed_eq (hv : Unfolds s.heap.sub [root] v) {r : ℕ} (hc : c ∈ v) (hr : r ∈ s.heap.sub c) :
    s.passed root type r = (s.heap.res r).mType := by
  apply if_neg
  rintro rfl
  obtain ⟨w, hw, -⟩ := hv.exists_sublist hc
  exact not_unfolds_of_mem_below hr hv hc hw

theorem mem_resources_iff (hfresh : FreshRows calls s) (h : Visits calls s root type v s s')
    {row : Server.Resource String} (hrow : row ∈ s.db.resources) :
    row ∈ s'.db.resources ↔ ¬ ∃ c ∈ v, s.Deletes calls root type c row := by
  rw [h.rows, foldl_rowsAfter_iff]
  constructor
  · rintro (⟨-, hkeep⟩ | ⟨-, c, -, -, ⟨d, -, hins⟩, -⟩)
    · rintro ⟨c, hc, hdel⟩
      exact hkeep c hc hdel
    · exact absurd rfl (hfresh.new d row (updateDB_of_inserted hins) row hrow)
  · intro hkeep
    exact .inl ⟨hrow, fun c hc hdel => hkeep ⟨c, hc, hdel⟩⟩

/-- What is missing after the call, in terms of what the virtual calls leave. -/
theorem missing_after_iff (hv : Unfolds s.heap.sub [root] v)
    (h : Visits calls s root type v s s') (row : Server.Resource String) :
    s.Missing root type (fun d => (s'.heap.dev d).uuid) s'.busUUID row ↔
      s.Missing root type (s.uuidAfter calls) (s.busAfter calls) row := by
  apply missing_congr hv
  intro d hd
  obtain ⟨hdev, hbus⟩ := h.inside d hd
  exact ⟨congrArg BaseDev.uuid hdev, hbus⟩

/-- A row that comes with a device is not missing. -/
theorem not_missing_of_inserted (hv : Unfolds s.heap.sub [root] v)
    (h : Visits calls s root type v s s') {d : ℕ} {row : Server.Resource String} (hc : c ∈ v)
    (hd : d ∈ s.heap.devs c) (hins : s.inserted calls d = some row) :
    ¬ s.Missing root type (fun d => (s'.heap.dev d).uuid) s'.busUUID row := by
  intro hmiss
  obtain ⟨_, hroot, hreach⟩ := hv.mem_iff.1 hc
  obtain rfl := List.mem_singleton.1 hroot
  have hdev := congrArg BaseDev.uuid (h.inside d (List.mem_flatMap.2 ⟨c, hc, hd⟩)).1
  exact hmiss.2 c hreach d hd (hdev.trans (uuidAfter_of_inserted hins))

theorem Synchronised.syncOk (hv : Unfolds s.heap.sub [root] v)
    (htree : (v.flatMap s.heap.devs).Nodup) (hfresh : FreshRows calls s)
    (h : Visits calls s root type v s s') (hcalls : s'.called = v.flatMap s.heap.devs)
    (hsync : Synchronised calls s root type s') : SyncOk calls s root type v := by
  have hall : ∀ d ∈ v.flatMap s.heap.devs, s.heap.Selects root type d := by
    intro d hd
    rw [← hcalls] at hd
    exact (hsync.called d).1 hd
  refine ⟨hall, fun row hrow => ?_, ?_⟩
  · rw [← missing_after_iff hv h, ← not_iff_not, ← mem_resources_iff hfresh h hrow, hsync.rows]
    exact and_iff_right (.inl hrow)
  · rintro before c after rfl d hd row hins
    have hc : c ∈ before ++ c :: after := by simp
    have hsel := hall d (List.mem_flatMap.2 ⟨c, hc, hd⟩)
    have hmiss := not_missing_of_inserted hv h hc hd hins
    obtain ⟨hold, -⟩ | ⟨before', c', after', heq, ⟨d', hd', hins'⟩, hkeep⟩ :=
      foldl_rowsAfter_iff.1 ((h.rows row).1 ((hsync.rows row).2 ⟨.inr ⟨d, hsel, hins⟩, hmiss⟩))
    · exact absurd rfl (hfresh.new d row (updateDB_of_inserted hins) row hold)
    · obtain rfl := hfresh.once d d' row row (updateDB_of_inserted hins)
        (updateDB_of_inserted hins') rfl
      rw [after_eq htree heq hd hd']
      exact hkeep

theorem SyncOk.synchronised (hv : Unfolds s.heap.sub [root] v)
    (htree : (v.flatMap s.heap.devs).Nodup) (hfresh : FreshRows calls s)
    (h : Visits calls s root type v s s') (hcalls : s'.called = v.flatMap s.heap.devs)
    (hok : SyncOk calls s root type v) : Synchronised calls s root type s' := by
  refine ⟨hcalls ▸ htree, fun d => ?_, fun d hd => ?_, fun d hd => ?_, fun row => ?_⟩
  · rw [hcalls]
    exact ⟨hok.all d, mem_of_selects hv⟩
  · exact h.inside d (mem_of_selects hv hd)
  · exact h.outside d (mt (hok.all d) hd)
  constructor
  · intro hrow
    obtain ⟨hold, hkeep⟩ | ⟨before, c, after, rfl, ⟨d, hd, hins⟩, -⟩ :=
      foldl_rowsAfter_iff.1 ((h.rows row).1 hrow)
    · refine ⟨.inl hold, ?_⟩
      rw [missing_after_iff hv h, ← hok.old row hold]
      rintro ⟨c, hc, hdel⟩
      exact hkeep c hc hdel
    · have hc : c ∈ before ++ c :: after := by simp
      exact ⟨.inr ⟨d, hok.all d (List.mem_flatMap.2 ⟨c, hc, hd⟩), hins⟩,
        not_missing_of_inserted hv h hc hd hins⟩
  · rintro ⟨hold | ⟨d, hsel, hins⟩, hmiss⟩
    · rw [missing_after_iff hv h, ← hok.old row hold] at hmiss
      exact (mem_resources_iff hfresh h hold).2 hmiss
    · obtain ⟨c, hc, hd⟩ := List.mem_flatMap.1 (mem_of_selects hv hsel)
      obtain ⟨before, after, rfl⟩ := List.append_of_mem hc
      apply (h.rows row).2
      apply foldl_rowsAfter_iff.2
      exact .inr ⟨before, c, after, rfl, ⟨d, hd, hins⟩, hok.new before c after rfl d hd row hins⟩

/-- The call synchronises the devices and the table exactly if the rule for the type leaves out no
device, and the rows that are in the way of the containers are the missing ones. -/
theorem updateDB_synchronised_iff (hv : Unfolds s.heap.sub [root] v)
    (htree : (v.flatMap s.heap.devs).Nodup) (hfresh : FreshRows calls s) (hcalled : s.called = [])
    (hle : v.length ≤ fuel) (type : String) :
    ∃ s', updateDB calls fuel type s root = some s' ∧
      (Synchronised calls s root type s' ↔ SyncOk calls s root type v) := by
  have hpassed : ∀ c ∈ v, ∀ r ∈ s.heap.sub c, s.passed root type r = (s.heap.res r).mType :=
    fun c hc r hr => passed_eq hv hc hr
  obtain ⟨s', hs', h⟩ := exists_visits hfresh hv hle htree hpassed rfl (fun _ _ => ⟨rfl, rfl⟩)
    hfresh.key fun d _ row hrow => hfresh.new d row (updateDB_of_inserted hrow)
  have hroot : s.passed root type root = type := if_pos rfl
  have hcall : updateDB calls fuel type s root = some s' := by
    rw [List.foldlM_cons, hroot] at hs'
    simpa using hs'
  have hcalls : s'.called = v.flatMap s.heap.devs := by rw [h.called, hcalled, List.nil_append]
  refine ⟨s', hcall, ?_⟩
  constructor
  · exact Synchronised.syncOk hv htree hfresh h hcalls
  · exact SyncOk.synchronised hv htree hfresh h hcalls

/-- The bus, a network card and a DVB-T card; the row of another DVB-T card, which is not in. -/
def twoModules : SyncState where
  heap := {
    dev := fun d =>
      if d = 0 then { cls := .pciBus, type := devTypePCIBus, uuid := some "bus" }
      else if d = 1 then { cls := .net, type := "net", uuid := some "eth0" }
      else { cls := .dvb 0 0, type := "DVB_T", uuid := some "tuner" }
    res := fun c =>
      if c = 0 then { mType := "base", mDevlist := [0], mReslist := [1, 2] }
      else if c = 1 then { mType := "net", mDevlist := [1] }
      else { mType := "DVB_T", mDevlist := [2] } }
  busUUID := fun _ => some "bus"
  db := { resources := [⟨"eth0", "bus", "net", 0, 1, "eth0"⟩, ⟨"tuner", "bus", "DVB_T", 0, 1, "t"⟩,
    ⟨"absent", "bus", "DVB_T", 0, 1, "a"⟩] }

/-- The database knows all devices. -/
def knownDevs : DevCalls where
  update d := if d = 0 then ⟨none, "bus", some "bus"⟩ else if d = 1 then ⟨none, "eth0", some "bus"⟩
    else ⟨some "t", "tuner", some "bus"⟩
  updateDB _ := none

theorem updateDB_net : ∃ s', updateDB knownDevs 3 "net" twoModules 0 = some s' ∧
    (Synchronised knownDevs twoModules 0 "net" s' ↔
      SyncOk knownDevs twoModules 0 "net" [0, 1, 2]) := by
  have hleaf : ∀ c ≠ 0, Unfolds twoModules.heap.sub [c] [c] := by
    intro c hc
    have hnil : twoModules.heap.sub c = [] := by
      by_cases h1 : c = 1 <;> simp [twoModules, ResourceHeap.sub, hc, h1]
    refine unfolds_singleton_iff.2 ⟨[], ?_, rfl⟩
    rw [hnil]
    exact .nil
  have hsub : Unfolds twoModules.heap.sub ([1] ++ [2]) ([1] ++ [2]) :=
    unfolds_append_iff.2 ⟨[1], [2], hleaf 1 (by decide), hleaf 2 (by decide), rfl⟩
  have hv : Unfolds twoModules.heap.sub [0] [0, 1, 2] :=
    unfolds_singleton_iff.2 ⟨[1, 2], hsub, rfl⟩
  apply updateDB_synchronised_iff hv
  · decide
  · have hnone : ∀ d row, knownDevs.updateDB d ≠ some row := by
      intro d row h
      cases h
    refine ⟨?_, fun d row h => absurd h (hnone d row), fun d e row row' h => absurd h (hnone d row)⟩
    show List.Nodup _
    decide
  · rfl
  · decide

/-- To synchronise the network cards deletes the DVB-T card that is not in. -/
theorem not_synchronised_net : ∃ s', updateDB knownDevs 3 "net" twoModules 0 = some s' ∧
    ¬ Synchronised knownDevs twoModules 0 "net" s' := by
  have hkeys : ∃ s', updateDB knownDevs 3 "net" twoModules 0 = some s' ∧
      s'.db.resources.map Server.Resource.resource = ["eth0", "tuner"] := ⟨_, rfl, rfl⟩
  obtain ⟨s', hs', hkeys⟩ := hkeys
  refine ⟨s', hs', fun hsync => ?_⟩
  have hnet : ∀ x, twoModules.heap.RuleVisits 0 "net" x → x.2 = "net" := by
    intro x hx
    induction hx with
    | refl => rfl
    | @tail x y _ hy ih =>
      obtain ⟨r, hr, rfl⟩ := List.mem_map.1 hy
      by_cases hx : x.1 = 0
      · simp [twoModules, hx, ih]
      · by_cases hx1 : x.1 = 1 <;> simp [twoModules, ResourceHeap.sub, hx, hx1] at hr
  have habsent : ⟨"absent", "bus", "DVB_T", 0, 1, "a"⟩ ∈ s'.db.resources := by
    apply (hsync.rows _).2
    refine ⟨.inl (by simp [twoModules]), ?_⟩
    rintro ⟨⟨x, hx, htype, -⟩, -⟩
    rw [hnet x hx] at htype
    exact absurd htype (by decide)
  have hmem : "absent" ∈ s'.db.resources.map Server.Resource.resource :=
    List.mem_map_of_mem habsent
  rw [hkeys] at hmem
  exact absurd hmem (by decide)

end SyncState

end Kalinka
