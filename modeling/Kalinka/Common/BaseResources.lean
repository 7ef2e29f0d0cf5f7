import Mathlib.Data.List.Dedup
import Mathlib.Data.List.Forall2
import Mathlib.Data.String.Basic
import Mathlib.Tactic.SplitIfs
import Kalinka.Lib.Run
import Kalinka.Lib.Unfolding

/-!
# Resource containers

`dev::BaseResources` keeps a list of devices and a list of other containers, those of the modules.
A query visits a container, then those in it, in order.  `addDev` rejects a device that is in the
container already, and `add` a second container of one type; the same container is put into the list
again, and that is what happens when a module is started again.

`throughout_sound_iff` says which additions keep all queries right.
-/

namespace Kalinka

open Run Function

/-- The classes of devices, as far as `equal_to` tells them apart. -/
inductive DevClass
  | pciBus
  | ieee1394Bus
  | net
  | dvb (adapter frontend : ℤ)
  deriving DecidableEq, Repr

/-- `dev::Base`.  A parameter that is not there is `none`. -/
structure BaseDev where
  cls : DevClass
  /-- `TYPE` -/
  type : String
  /-- `NAME` -/
  name : Option String := none
  /-- `UUID` -/
  uuid : Option String := none
  deriving DecidableEq, Repr

namespace BaseDev

def equalTo (dev1 dev2 : BaseDev) : Bool :=
  match dev1.cls, dev2.cls with
  | .pciBus, .pciBus => true
  | .ieee1394Bus, .ieee1394Bus => true
  | .net, .net => dev1.name.isSome && dev1.name = dev2.name
  | .dvb adapter frontend, .dvb adapter' frontend' =>
    dev1.type = dev2.type && adapter = adapter' && frontend = frontend'
  | _, _ => false

/-- `FindDev` -/
def findDev (dev1 dev2 : BaseDev) : Bool :=
  dev1.name.isSome && dev1.name = dev2.name || dev1.uuid.isSome && dev1.uuid = dev2.uuid ||
    dev1.equalTo dev2

end BaseDev

/-- What a call of the virtual `update()` did: the name and the UUID of the device afterwards, and
whether it threw. -/
structure DevUpdate where
  name : Option String
  uuid : Option String
  throws : Bool := false
  deriving DecidableEq, Repr

structure BaseResources where
  mType : String
  mDevlist : List ℕ := []
  mReslist : List ℕ := []
  deriving DecidableEq, Repr

/-- All devices and all containers, by their addresses. -/
structure ResourceHeap where
  dev : ℕ → BaseDev
  res : ℕ → BaseResources

/-- `DEV_TYPE_PCIBUS` -/
def devTypePCIBus : String := "DEV_TYPE_PCIBUS"

inductive ResourceAction
  | addDev (c d : ℕ) (upd : DevUpdate)
  | add (c r : ℕ)
  deriving DecidableEq, Repr

namespace ResourceHeap

/-- The devices of the container itself that a query returns. -/
def own (s : ResourceHeap) (type : String) (c : ℕ) : List ℕ :=
  if type = (s.res c).mType then (s.res c).mDevlist.filter fun d => (s.dev d).uuid.isSome
  else (s.res c).mDevlist.filter fun d => (s.dev d).type = type && (s.dev d).uuid.isSome

/-- `none` when the fuel does not suffice: the query calls itself on the containers in the list. -/
def getResourceByType (s : ResourceHeap) : ℕ → String → ℕ → Option (List ℕ)
  | 0, _, _ => none
  | fuel + 1, type, c => do
    let add ← (s.res c).mReslist.mapM fun r =>
      getResourceByType s fuel (if type = (s.res c).mType then (s.res r).mType else type) r
    return s.own type c ++ add.flatten

/-- `some none` when it throws. -/
def getResourceByUUID (s : ResourceHeap) (fuel : ℕ) (uuid : String) (c : ℕ) :
    Option (Option ℕ) :=
  (s.getResourceByType fuel (s.res c).mType c).map fun list =>
    list.find? fun d => (s.dev d).uuid = some uuid

/-- `getBusUUID` of the devices, with the main container `c`; `some none` when the assertion that
there is one bus throws. -/
def getBusUUID (s : ResourceHeap) (fuel : ℕ) (c : ℕ) : Option (Option String) :=
  (s.getResourceByType fuel devTypePCIBus c).map fun list =>
    match list with
    | [pci] => (s.dev pci).uuid
    | _ => none

def addDev (s : ResourceHeap) (c d : ℕ) (upd : DevUpdate) : ResourceHeap :=
  if (s.res c).mDevlist.any fun e => (s.dev e).findDev (s.dev d) then s
  else
    let dev := update s.dev d { s.dev d with name := upd.name, uuid := upd.uuid }
    if upd.throws then { s with dev }
    else
      let devlist := (s.res c).mDevlist ++ [d]
      { dev, res := update s.res c { s.res c with mDevlist := devlist } }

/-- The first container of the type is another one, so that `add` throws. -/
def taken (s : ResourceHeap) (c r : ℕ) : Bool :=
  match (s.res c).mReslist.find? fun i => (s.res r).mType = (s.res i).mType with
  | some i => i ≠ r
  | none => false

def add (s : ResourceHeap) (c r : ℕ) : ResourceHeap :=
  if s.taken c r then s
  else
    { s with res := update s.res c { s.res c with mReslist := (s.res c).mReslist ++ [r] } }

def step (s : ResourceHeap) : ResourceAction → Option ResourceHeap
  | .addDev c d upd => some (s.addDev c d upd)
  | .add c r => some (s.add c r)

/-- `ModuleFactory::startModuleThread` for a module that is not running: the devices are found
again, and its container is added to the main one. -/
def startModuleThread (main sub : ℕ) (devs : List (ℕ × DevUpdate)) : List ResourceAction :=
  devs.map (fun dev => .addDev sub dev.1 dev.2) ++ [.add main sub]

/-- Empty containers of the given types. -/
def init (dev : ℕ → BaseDev) (mType : ℕ → String) : ResourceHeap where
  dev
  res c := { mType := mType c }

/-- All queries on all containers are right: they return, with no device twice; a device is found by
its UUID exactly if some query by type returns it; and the look-up of the bus does not throw because
one bus is there twice. -/
structure Sound (s : ResourceHeap) : Prop where
  returns : ∀ c type, ∃ fuel list, s.getResourceByType fuel type c = some list
  nodup : ∀ c type fuel list, s.getResourceByType fuel type c = some list →
    (list.map fun d => (s.dev d).uuid).Nodup
  found : ∀ {c uuid d}, (∃ fuel, s.getResourceByUUID fuel uuid c = some (some d)) ↔
    ∃ type fuel list, s.getResourceByType fuel type c = some list ∧ d ∈ list ∧
      (s.dev d).uuid = some uuid
  bus : ∀ {c fuel list}, s.getResourceByType fuel devTypePCIBus c = some list →
    (list.map fun d => (s.dev d).uuid).dedup.length = 1 → s.getBusUUID fuel c ≠ some none

/-- The containers in a container. -/
def sub (s : ResourceHeap) (c : ℕ) : List ℕ := (s.res c).mReslist

def devs (s : ResourceHeap) (c : ℕ) : List ℕ := (s.res c).mDevlist

def hasUUID (s : ResourceHeap) (uuid : String) (d : ℕ) : Bool := (s.dev d).uuid = some uuid

/-- The container is put where it and what is in it were not: it does not contain `c`, and every
container that shows `c` shows it once and none of the devices that come with `r`. -/
def AddOk (s : ResourceHeap) (c r : ℕ) : Prop :=
  s.taken c r = false → ∀ vr, Unfolds s.sub [r] vr → c ∉ vr ∧
    ∀ a va, Unfolds s.sub [a] va → c ∈ va → ∀ uuid,
      (∃ d ∈ vr.flatMap s.devs, s.hasUUID uuid d = true) →
        va.count c = 1 ∧ ∀ d ∈ va.flatMap s.devs, s.hasUUID uuid d = false

/-- How often a container with the visits `va` shows the device after the call. -/
def shows (s : ResourceHeap) (c d : ℕ) (upd : DevUpdate) (va : List ℕ) : ℕ :=
  (va.flatMap s.devs).count d + if upd.throws then 0 else va.count c

/-- The device is new, or gets a UUID that is new, in every container that shows it afterwards. -/
def AddDevOk (s : ResourceHeap) (c d : ℕ) (upd : DevUpdate) : Prop :=
  ((s.devs c).any fun e => (s.dev e).findDev (s.dev d)) = false →
    ∀ uuid, upd.uuid = some uuid → ∀ a va, Unfolds s.sub [a] va → s.shows c d upd va ≠ 0 →
      s.shows c d upd va = 1 ∧ ∀ e ∈ va.flatMap s.devs, e ≠ d → s.hasUUID uuid e = false

def Ok (s : ResourceHeap) : ResourceAction → Prop
  | .addDev c d upd => s.AddDevOk c d upd
  | .add c r => s.AddOk c r

/-! ## What a query returns -/

variable {s s' : ResourceHeap} {fuel c d r : ℕ} {type uuid : String}
variable {as v va rs list : List ℕ} {ls : List (List ℕ)} {upd : DevUpdate} {f : ℕ → Option (List ℕ)}

/-- The devices that the database knows. -/
def visible (s : ResourceHeap) (c : ℕ) : List ℕ := (s.devs c).filter fun d => (s.dev d).uuid.isSome

theorem own_mType : s.own (s.res c).mType c = s.visible c := if_pos rfl

theorem own_sublist : (s.own type c).Sublist (s.visible c) := by
  unfold own
  split
  · exact List.Sublist.refl _
  · apply List.monotone_filter_right _
    intro d hd
    exact (Bool.and_eq_true_iff.1 hd).2

theorem mapM_eq_some_iff : rs.mapM f = some ls ↔ List.Forall₂ (fun r l => f r = some l) rs ls := by
  induction rs generalizing ls with
  | nil => simp [eq_comm]
  | cons r rs ih =>
    rw [List.mapM_cons]
    constructor
    · intro h
      obtain ⟨l, hl, h⟩ := Option.bind_eq_some_iff.1 h
      obtain ⟨ls', hls', h⟩ := Option.bind_eq_some_iff.1 h
      obtain rfl := Option.some.inj h
      exact .cons hl (ih.1 hls')
    · intro h
      cases h with
      | cons hl hls => simp [hl, ih.2 hls]

theorem getResourceByType_succ : s.getResourceByType (fuel + 1) type c = some list ↔
    ∃ ls, List.Forall₂ (fun r l => s.getResourceByType fuel
      (if type = (s.res c).mType then (s.res r).mType else type) r = some l) (s.sub c) ls ∧
      list = s.own type c ++ ls.flatten := by
  simp only [getResourceByType, Option.pure_def, Option.bind_eq_bind, Option.bind_eq_some_iff,
    mapM_eq_some_iff, Option.some.injEq, eq_comm (a := list), sub]

/-- The queries on the containers in a list, put together. -/
theorem unfolds_of_forall₂ {t : ℕ → String} (h : List.Forall₂ (fun r l => ∃ v,
      Unfolds s.sub [r] v ∧ l.Sublist (v.flatMap s.visible) ∧
        (t r = (s.res r).mType → l = v.flatMap s.visible)) rs ls) :
    ∃ w, Unfolds s.sub rs w ∧ ls.flatten.Sublist (w.flatMap s.visible) ∧
      ((∀ r ∈ rs, t r = (s.res r).mType) → ls.flatten = w.flatMap s.visible) := by
  induction h with
  | nil => exact ⟨[], .nil, List.Sublist.refl _, fun _ => rfl⟩
  | @cons r l rs ls hr _ ih =>
    obtain ⟨v, hv, hsub, heq⟩ := hr
    obtain ⟨w, hw, hsub', heq'⟩ := ih
    refine ⟨v ++ w, unfolds_append_iff.2 ⟨v, w, hv, hw, rfl⟩, ?_, fun ht => ?_⟩
    · rw [List.flatten_cons, List.flatMap_append]
      exact hsub.append hsub'
    · obtain ⟨htr, htrs⟩ := List.forall_mem_cons.1 ht
      rw [List.flatten_cons, List.flatMap_append, heq htr, heq' htrs]

/-- A query visits what is in the container, and returns the devices there of its type; all that the
database knows if it asks for the type of the container. -/
theorem unfolds_of_getResourceByType (h : s.getResourceByType fuel type c = some list) :
    ∃ v, Unfolds s.sub [c] v ∧ list.Sublist (v.flatMap s.visible) ∧
      (type = (s.res c).mType → list = v.flatMap s.visible) := by
  induction fuel generalizing type c list with
  | zero => nomatch h
  | succ fuel ih =>
    obtain ⟨ls, hls, rfl⟩ := getResourceByType_succ.1 h
    obtain ⟨w, hw, hsub, heq⟩ := unfolds_of_forall₂ (hls.imp fun r l hl => ih hl)
    refine ⟨c :: w, unfolds_singleton_iff.2 ⟨w, hw, rfl⟩, own_sublist.append hsub, fun ht => ?_⟩
    rw [heq fun r _ => if_pos ht, ht, own_mType, List.flatMap_cons]

/-- A query returns if the visit of the container ends: it goes no deeper than there are visits. -/
theorem exists_getResourceByType (h : Unfolds s.sub as v) (hle : v.length ≤ fuel) {a : ℕ}
    (ha : a ∈ as) (type : String) : ∃ list, s.getResourceByType fuel type a = some list := by
  induction h generalizing fuel a type with
  | nil => cases ha
  | @cons b as va w _ _ ihbelow ihrest =>
    rw [List.length_cons, List.length_append] at hle
    obtain rfl | ha := List.mem_cons.1 ha
    · obtain ⟨fuel, rfl⟩ := Nat.exists_eq_add_one_of_ne_zero (by omega : fuel ≠ 0)
      have hls : ∃ ls, List.Forall₂ (fun r l => s.getResourceByType fuel
          (if type = (s.res a).mType then (s.res r).mType else type) r = some l) (s.sub a) ls := by
        have hbelow : ∀ r ∈ s.sub a, ∀ t, ∃ l, s.getResourceByType fuel t r = some l := by
          intro r hr t
          exact ihbelow (by omega) hr t
        generalize s.sub a = rs at hbelow
        induction rs with
        | nil => exact ⟨[], .nil⟩
        | cons r rs ih =>
          obtain ⟨hr, hrs⟩ := List.forall_mem_cons.1 hbelow
          obtain ⟨l, hl⟩ := hr _
          obtain ⟨ls, hls⟩ := ih hrs
          exact ⟨l :: ls, .cons hl hls⟩
      obtain ⟨ls, hls⟩ := hls
      exact ⟨_, getResourceByType_succ.2 ⟨ls, hls, rfl⟩⟩
    · exact ihrest (by omega) ha type

/-! ## The queries by what is visited -/

/-- The visit of every container ends and shows no UUID twice. -/
def Distinct (s : ResourceHeap) : Prop :=
  ∀ c, ∃ v, Unfolds s.sub [c] v ∧ ∀ uuid, (v.flatMap s.devs).countP (s.hasUUID uuid) ≤ 1

theorem countP_visible (v : List ℕ) : (v.flatMap s.devs).countP (s.hasUUID uuid) =
    ((v.flatMap s.visible).map fun d => (s.dev d).uuid).count (some uuid) := by
  have hvisible : v.flatMap s.visible =
      (v.flatMap s.devs).filter fun d => (s.dev d).uuid.isSome := List.filter_flatMap.symm
  rw [hvisible, List.count, List.countP_map, List.countP_filter]
  apply List.countP_congr
  intro d _
  by_cases h : (s.dev d).uuid = some uuid <;> simp [hasUUID, h]

theorem nodup_visible_iff (v : List ℕ) : ((v.flatMap s.visible).map fun d => (s.dev d).uuid).Nodup ↔
    ∀ uuid, (v.flatMap s.devs).countP (s.hasUUID uuid) ≤ 1 := by
  rw [List.nodup_iff_count_le_one]
  constructor
  · exact fun h uuid => countP_visible v ▸ h (some uuid)
  · rintro h (- | uuid)
    · refine (List.count_eq_zero.2 fun hmem => ?_).trans_le (Nat.zero_le 1)
      obtain ⟨d, hd, hnone⟩ := List.mem_map.1 hmem
      obtain ⟨c, -, hd⟩ := List.mem_flatMap.1 hd
      have hsome := (List.mem_filter.1 hd).2
      rw [hnone] at hsome
      exact absurd hsome (by decide)
    · exact countP_visible v ▸ h uuid

theorem Distinct.nodup (h : s.Distinct) (hlist : s.getResourceByType fuel type c = some list) :
    (list.map fun d => (s.dev d).uuid).Nodup := by
  obtain ⟨v, hv, hsub, -⟩ := unfolds_of_getResourceByType hlist
  obtain ⟨v', hv', hcount⟩ := h c
  obtain rfl := hv.unique hv'
  exact ((nodup_visible_iff v).2 hcount).sublist (hsub.map _)

theorem Distinct.found (h : s.Distinct) :
    (∃ fuel, s.getResourceByUUID fuel uuid c = some (some d)) ↔
      ∃ type fuel list, s.getResourceByType fuel type c = some list ∧ d ∈ list ∧
        (s.dev d).uuid = some uuid := by
  constructor
  · rintro ⟨fuel, hfind⟩
    obtain ⟨list, hlist, hd⟩ := Option.map_eq_some_iff.1 hfind
    exact ⟨_, fuel, list, hlist, List.mem_of_find?_eq_some hd, by simpa using List.find?_some hd⟩
  · rintro ⟨type, fuel, list, hlist, hd, huuid⟩
    obtain ⟨v, hv, hsub, -⟩ := unfolds_of_getResourceByType hlist
    obtain ⟨all, hall⟩ := exists_getResourceByType hv le_rfl List.mem_cons_self (s.res c).mType
    obtain ⟨v', hv', -, heq⟩ := unfolds_of_getResourceByType hall
    obtain rfl := hv.unique hv'
    have hmem : d ∈ all := heq rfl ▸ hsub.subset hd
    refine ⟨v.length, Option.map_eq_some_iff.2 ⟨all, hall, ?_⟩⟩
    cases hfind : all.find? fun e => (s.dev e).uuid = some uuid with
    | none => exact absurd huuid (by simpa using List.find?_eq_none.1 hfind d hmem)
    | some e =>
      have he : (s.dev e).uuid = some uuid := by simpa using List.find?_some hfind
      have hinj := List.inj_on_of_nodup_map (h.nodup hall)
      rw [hinj (List.mem_of_find?_eq_some hfind) hmem (he.trans huuid.symm)]

theorem Distinct.bus (h : s.Distinct)
    (hlist : s.getResourceByType fuel devTypePCIBus c = some list)
    (hone : (list.map fun d => (s.dev d).uuid).dedup.length = 1) :
    s.getBusUUID fuel c ≠ some none := by
  obtain ⟨v, -, hsub, -⟩ := unfolds_of_getResourceByType hlist
  rw [(h.nodup hlist).dedup, List.length_map] at hone
  obtain ⟨pci, rfl⟩ := List.length_eq_one_iff.1 hone
  obtain ⟨x, -, hpci⟩ := List.mem_flatMap.1 (hsub.subset List.mem_cons_self)
  obtain ⟨bus, hbus⟩ := Option.isSome_iff_exists.1 (List.mem_filter.1 hpci).2
  rw [getBusUUID, hlist, Option.map_some]
  show some (s.dev pci).uuid ≠ some none
  rw [hbus]
  exact nofun

theorem sound_iff_distinct : s.Sound ↔ s.Distinct := by
  constructor
  · intro h c
    obtain ⟨fuel, list, hlist⟩ := h.returns c (s.res c).mType
    obtain ⟨v, hv, -, heq⟩ := unfolds_of_getResourceByType hlist
    exact ⟨v, hv, (nodup_visible_iff v).1 (heq rfl ▸ h.nodup c _ fuel list hlist)⟩
  · intro h
    refine ⟨fun c type => ?_, fun _ _ _ _ => h.nodup, h.found, h.bus⟩
    obtain ⟨v, hv, -⟩ := h c
    exact ⟨v.length, exists_getResourceByType hv le_rfl List.mem_cons_self type⟩

/-! ## Adding a container -/

theorem sub_add (ht : s.taken c r = false) : (s.add c r).sub = attached s.sub c r := by
  funext x
  by_cases hx : x = c
  · subst hx
    simp [sub, add, ht, attached_self]
  · simp [sub, add, ht, hx, attached_of_ne]

theorem devs_add : (s.add c r).devs = s.devs := by
  funext x
  unfold add
  split
  · rfl
  · by_cases hx : x = c
    · subst hx
      simp [devs]
    · simp [devs, hx]

theorem hasUUID_add : (s.add c r).hasUUID = s.hasUUID := by
  unfold add
  split <;> rfl

theorem distinct_add_iff (h : s.Distinct) : (s.add c r).Distinct ↔ s.AddOk c r := by
  by_cases ht : s.taken c r = true
  · have hsame : s.add c r = s := if_pos ht
    rw [hsame]
    exact iff_of_true h fun hfree => absurd (ht.symm.trans hfree) (by decide)
  have ht : s.taken c r = false := by simpa using ht
  obtain ⟨vr, hvr, hone⟩ := h r
  constructor
  · intro h' _ vr' hvr'
    obtain rfl := hvr.unique hvr'
    have hc : c ∉ vr := by
      intro hc
      obtain ⟨w, hw, -⟩ := h' r
      obtain ⟨v, hv, -⟩ := h' c
      rw [sub_add ht] at hw hv
      have hr : r ∈ attached s.sub c r c := by
        rw [attached_self]
        exact List.mem_append_right _ List.mem_cons_self
      exact not_unfolds_of_mem_below hr hw (hvr.subset_of_extend hw attached_extends hc) hv
    refine ⟨hc, fun a va hva hca uuid hshown => ?_⟩
    obtain ⟨v', hv', hcount⟩ := hva.attach hvr hc
    obtain ⟨w, hw, hle⟩ := h' a
    rw [sub_add ht] at hw
    obtain rfl := hv'.unique hw
    have hle := hle uuid
    rw [devs_add, hasUUID_add, hcount] at hle
    have hpos : 0 < va.count c := List.count_pos_iff.2 hca
    have hposr : 0 < (vr.flatMap s.devs).countP (s.hasUUID uuid) := List.countP_pos_iff.2 hshown
    have hmul := Nat.mul_le_mul_left (va.count c) hposr
    refine ⟨by omega, fun d hd => ?_⟩
    have hzero : (va.flatMap s.devs).countP (s.hasUUID uuid) = 0 := by omega
    simpa using List.countP_eq_zero.1 hzero d hd
  · intro hok a
    obtain ⟨hc, hok⟩ := hok ht vr hvr
    obtain ⟨va, hva, hle⟩ := h a
    obtain ⟨v', hv', hcount⟩ := hva.attach hvr hc
    refine ⟨v', sub_add ht ▸ hv', fun uuid => ?_⟩
    rw [devs_add, hasUUID_add, hcount]
    by_cases hshown : ∃ d ∈ vr.flatMap s.devs, s.hasUUID uuid d = true
    · by_cases hca : c ∈ va
      · obtain ⟨honce, hnone⟩ := hok a va hva hca uuid hshown
        have hzero : (va.flatMap s.devs).countP (s.hasUUID uuid) = 0 :=
          List.countP_eq_zero.2 fun d hd => by simp [hnone d hd]
        rw [honce, hzero, Nat.one_mul, Nat.zero_add]
        exact hone uuid
      · rw [List.count_eq_zero.2 hca, Nat.zero_mul]
        exact hle uuid
    · have hzero : (vr.flatMap s.devs).countP (s.hasUUID uuid) = 0 :=
        List.countP_eq_zero.2 fun d hd hu => hshown ⟨d, hd, hu⟩
      rw [hzero, Nat.mul_zero]
      exact hle uuid

/-! ## Adding a device -/

theorem sub_addDev : (s.addDev c d upd).sub = s.sub := by
  funext x
  unfold addDev
  split_ifs
  · rfl
  · rfl
  · by_cases hx : x = c
    · subst hx
      simp [sub]
    · simp [sub, hx]

variable (hnew : ((s.devs c).any fun e => (s.dev e).findDev (s.dev d)) = false)
include hnew

theorem devs_addDev (x : ℕ) : (s.addDev c d upd).devs x =
    if upd.throws = false ∧ x = c then s.devs x ++ [d] else s.devs x := by
  rw [addDev, if_neg (by rw [← devs, hnew]; decide)]
  by_cases ht : upd.throws = true
  · simp [ht, devs]
  · by_cases hx : x = c
    · subst hx
      simp [ht, devs]
    · simp [ht, hx, devs]

theorem hasUUID_addDev (e : ℕ) : (s.addDev c d upd).hasUUID uuid e =
    if e = d then decide (upd.uuid = some uuid) else s.hasUUID uuid e := by
  rw [addDev, if_neg (by rw [← devs, hnew]; decide)]
  by_cases he : e = d
  · subst he
    split <;> simp [hasUUID]
  · split <;> simp [hasUUID, he]

/-- The device is in every list of devices once more for each visit of `c`. -/
theorem countP_devs_addDev (p : ℕ → Bool) (v : List ℕ) :
    (v.flatMap (s.addDev c d upd).devs).countP p =
      (v.flatMap s.devs).countP p +
        if p d = true ∧ upd.throws = false then v.count c else 0 := by
  induction v with
  | nil => simp
  | cons x v ih =>
    rw [List.flatMap_cons, List.flatMap_cons, List.countP_append, List.countP_append, ih,
      devs_addDev hnew]
    by_cases hpt : p d = true ∧ upd.throws = false
    · by_cases hx : x = c
      · subst hx
        simp only [hpt, and_self, if_true, List.countP_append, List.countP_singleton,
          List.count_cons_self]
        omega
      · simp only [hpt, hx, and_self, and_false, if_true, if_false, List.count_cons_of_ne hx]
        omega
    · rw [if_neg hpt, if_neg hpt]
      by_cases ht : upd.throws = false ∧ x = c
      · have hp : p d = false := by simpa [ht.1] using hpt
        simp [ht, hp]
      · simp [if_neg ht]

/-- The device counts as often as it is shown, the others as before. -/
theorem countP_addDev (v : List ℕ) :
    (v.flatMap (s.addDev c d upd).devs).countP ((s.addDev c d upd).hasUUID uuid) =
      ((v.flatMap s.devs).countP fun e => e ≠ d && s.hasUUID uuid e) +
        if upd.uuid = some uuid then s.shows c d upd v else 0 := by
  have hsplit (l : List ℕ) : l.countP ((s.addDev c d upd).hasUUID uuid) =
      (l.countP fun e => e ≠ d && s.hasUUID uuid e) +
        if upd.uuid = some uuid then l.count d else 0 := by
    induction l with
    | nil => simp
    | cons e l ih =>
      rw [List.countP_cons, List.countP_cons, ih, hasUUID_addDev hnew]
      by_cases he : e = d
      · subst he
        by_cases hu : upd.uuid = some uuid <;> simp [hu, Nat.add_assoc]
      · simp only [he, List.count_cons_of_ne he, if_false, ne_eq, not_false_eq_true, decide_true,
          Bool.true_and]
        omega
  have hcount : (v.flatMap (s.addDev c d upd).devs).count d = s.shows c d upd v := by
    refine (countP_devs_addDev hnew (· == d) v).trans (congrArg₂ (· + ·) rfl ?_)
    by_cases ht : upd.throws = true <;> simp [ht]
  rw [hsplit, hcount, countP_devs_addDev hnew]
  simp

theorem distinct_addDev_iff_of_new (h : s.Distinct) :
    (s.addDev c d upd).Distinct ↔ s.AddDevOk c d upd := by
  have hothers (v : List ℕ) (uuid : String) :
      ((v.flatMap s.devs).countP fun e => e ≠ d && s.hasUUID uuid e) ≤
        (v.flatMap s.devs).countP (s.hasUUID uuid) :=
    List.countP_mono_left fun e _ he => (Bool.and_eq_true_iff.1 he).2
  constructor
  · intro h' _ uuid huuid a va hva hshows
    obtain ⟨v', hv', hle⟩ := h' a
    rw [sub_addDev] at hv'
    obtain rfl := hva.unique hv'
    have hle := hle uuid
    rw [countP_addDev hnew, if_pos huuid] at hle
    refine ⟨by omega, fun e he hed => ?_⟩
    have hzero : ((va.flatMap s.devs).countP fun e => e ≠ d && s.hasUUID uuid e) = 0 := by omega
    simpa [hed] using List.countP_eq_zero.1 hzero e he
  · intro hok a
    obtain ⟨va, hva, hle⟩ := h a
    refine ⟨va, by rwa [sub_addDev], fun uuid => ?_⟩
    have hle := (hothers va uuid).trans (hle uuid)
    rw [countP_addDev hnew]
    by_cases huuid : upd.uuid = some uuid
    · rw [if_pos huuid]
      by_cases hshows : s.shows c d upd va = 0
      · omega
      · obtain ⟨honce, hnone⟩ := hok hnew uuid huuid a va hva hshows
        have hzero : ((va.flatMap s.devs).countP fun e => e ≠ d && s.hasUUID uuid e) = 0 :=
          List.countP_eq_zero.2 fun e he => by
            by_cases hed : e = d
            · simp [hed]
            · simp [hnone e he hed]
        omega
    · rw [if_neg huuid]
      exact hle

omit hnew

theorem distinct_addDev_iff (h : s.Distinct) :
    (s.addDev c d upd).Distinct ↔ s.AddDevOk c d upd := by
  cases hnew : (s.devs c).any fun e => (s.dev e).findDev (s.dev d) with
  | false => exact distinct_addDev_iff_of_new hnew h
  | true =>
    have hsame : s.addDev c d upd = s := if_pos hnew
    rw [hsame]
    exact iff_of_true h fun hfree => absurd (hnew.symm.trans hfree) (by decide)

/-! ## Sequences of additions -/

theorem distinct_init (dev : ℕ → BaseDev) (mType : ℕ → String) : (init dev mType).Distinct :=
  fun c => ⟨[c], unfolds_singleton_iff.2 ⟨[], .nil, rfl⟩, fun _ => Nat.zero_le 1⟩

theorem distinct_step_iff {a : ResourceAction} (h : s.Distinct) (hs : s.step a = some s') :
    s'.Distinct ↔ s.Ok a := by
  cases a with
  | addDev c d upd =>
    obtain rfl := Option.some.inj hs
    exact distinct_addDev_iff h
  | add c r =>
    obtain rfl := Option.some.inj hs
    exact distinct_add_iff h

/-- The queries stay right along a sequence of additions exactly if each of them adds something that
is new where it is shown. -/
theorem throughout_sound_iff (dev : ℕ → BaseDev) (mType : ℕ → String)
    (as : List ResourceAction) :
    Throughout step Sound (init dev mType) as ↔ EachStep step Ok (init dev mType) as :=
  throughout_iff_eachStep (I := fun _ => True) (fun _ _ => trivial)
    (fun _ h hs => sound_iff_distinct.trans (distinct_step_iff (sound_iff_distinct.1 h) hs))
    trivial (sound_iff_distinct.2 (distinct_init dev mType))

/-- The network module is started, stopped and started again: its device is found anew and rejected,
but its container is put into the main one a second time. -/
theorem restart_doubles_devices :
    let dev : ℕ → BaseDev := fun d =>
      if d = 0 then { cls := .pciBus, type := devTypePCIBus, name := some "pci" }
      else { cls := .net, type := "net", name := some "eth0@host" }
    let mType : ℕ → String := fun c => if c = 0 then "base" else "net"
    let start (d : ℕ) := startModuleThread 0 1 [(d, ⟨some "eth0@host", some "uuid", false⟩)]
    ∃ s, exec step (init dev mType)
        (.addDev 0 0 ⟨some "pci", some "bus", false⟩ :: (start 1 ++ start 2)) = some s ∧
      s.getResourceByType 2 "net" 0 = some [1, 1] ∧ ¬ s.Sound :=
  ⟨_, rfl, rfl, fun h => absurd (h.nodup 0 "net" 2 [1, 1] rfl) (by decide)⟩

end ResourceHeap

end Kalinka
