import Mathlib.Algebra.Order.BigOperators.Group.List
import Mathlib.Algebra.Order.Group.Int
import Kalinka.Lib.Keyed

/-!
# Bandwidth of the busses

The server keeps in `klk_busses.bandwidth` how much of a bus its enabled resources take.  Nothing
computes that sum: `klk_resource_enable` adds and subtracts the bandwidth of one resource, and
`klk_resource_delete` disables the resource first.

`balanced_run` says that the totals are right after any calls, and within the bus type's maximum.
They stay between 0 and that maximum or their first value, so no column leaves the range of INTEGER.
-/

namespace Kalinka.Server

open Keyed

/-- `Text` are the values of a VARCHAR, equal if the collation says so. -/
structure BusType (Text : Type) where
  busType : Text
  bandwidth : Option ℤ

structure Bus (Text : Type) where
  bus : Text
  host : Text
  description : Option Text
  busType : Text
  bandwidth : Option ℤ

structure ResourceType (Text : Type) where
  resourceType : Text
  bandwidth : ℤ

structure Resource (Text : Type) where
  resource : Text
  bus : Text
  resourceType : Text
  bandwidth : ℤ
  enabled : ℤ
  resourceName : Text

/-- The tables of `server.sql.in` that the procedures read and write. -/
structure Db (Text : Type) where
  /-- the keys of `klk_hosts` -/
  hosts : List Text := []
  busTypes : List (BusType Text) := []
  busses : List (Bus Text) := []
  resourceTypes : List (ResourceType Text) := []
  resources : List (Resource Text) := []

/-- How a call ends: with its `return_value`, or with an error of the server. -/
inductive Answer
  | value (returnValue : ℤ)
  | error
  deriving DecidableEq, Repr

variable {Text : Type} [DecidableEq Text]

namespace Db

/-! ## The procedures -/

/-- `klk_bus_add`; `uuid` is what `UUID()` gives.  Keys, foreign keys and the unique description are
checked by the server. -/
def busAdd (db : Db Text) (uuid host : Text) (description : Option Text) (busType : Text) :
    Answer × Db Text :=
  if (∀ b ∈ db.busses, b.bus ≠ uuid ∧ (description ≠ none → b.description ≠ description)) ∧
      host ∈ db.hosts ∧ (∃ t ∈ db.busTypes, t.busType = busType) then
    (.value 0, { db with busses := db.busses ++ [⟨uuid, host, description, busType, some 0⟩] })
  else (.error, db)

/-- `klk_resource_add` -/
def resourceAdd (db : Db Text) (uuid bus resourceType resourceName : Text) : Answer × Db Text :=
  if (∀ r ∈ db.resources, r.resource ≠ uuid ∧ ¬(r.resourceName = resourceName ∧ r.bus = bus)) ∧
      (∃ b ∈ db.busses, b.bus = bus) ∧ (∃ t ∈ db.resourceTypes, t.resourceType = resourceType) then
    (.value 0,
      { db with resources := db.resources ++ [⟨uuid, bus, resourceType, 0, 0, resourceName⟩] })
  else (.error, db)

/-- The two updates of `klk_resource_enable`. -/
def setEnabled (db : Db Text) (r : Resource Text) (enabled : ℤ) (bandwidth : Option ℤ) : Db Text :=
  { db with
    busses := update Bus.bus r.bus (fun b => { b with bandwidth := bandwidth }) db.busses
    resources :=
      update Resource.resource r.resource (fun r => { r with enabled := enabled }) db.resources }

/-- `max >= x`; with a NULL it is not true. -/
def atMost (x max : Option ℤ) : Bool :=
  match x, max with
  | some x, some max => x ≤ max
  | _, _ => false

/-- `klk_resource_enable`: the handler for NOT FOUND returns -1. -/
def resourceEnable (db : Db Text) (resource : Text) (enabled : ℤ) : ℤ × Db Text :=
  match select Resource.resource resource db.resources with
  | none => (-1, db)
  | some r =>
    match select ResourceType.resourceType r.resourceType db.resourceTypes with
    | none => (-1, db)
    | some rt =>
      if r.enabled ≠ enabled then
        match select Bus.bus r.bus db.busses with
        | none => (-1, db)
        | some b =>
          if enabled ≠ 0 then
            match select BusType.busType b.busType db.busTypes with
            | none => (-1, db)
            | some t =>
              if atMost (b.bandwidth.map (· + r.bandwidth)) t.bandwidth ∧
                  r.bandwidth ≤ rt.bandwidth then
                (0, db.setEnabled r 1 (b.bandwidth.map (· + r.bandwidth)))
              else (-2, db)
          else (0, db.setEnabled r 0 (b.bandwidth.map (· - r.bandwidth)))
      else (0, db)

/-- `klk_resource_delete`: it does not look at what `klk_resource_enable` returns. -/
def resourceDelete (db : Db Text) (resource : Text) : ℤ × Db Text :=
  let db := (db.resourceEnable resource 0).2
  (0, { db with resources := delete Resource.resource resource db.resources })

inductive Call (Text : Type)
  | busAdd (uuid host : Text) (description : Option Text) (busType : Text)
  | resourceAdd (uuid bus resourceType resourceName : Text)
  | resourceEnable (resource : Text) (enabled : Bool)
  | resourceDelete (resource : Text)

def call (db : Db Text) : Call Text → Answer × Db Text
  | .busAdd uuid host description busType => db.busAdd uuid host description busType
  | .resourceAdd uuid bus resourceType resourceName =>
    db.resourceAdd uuid bus resourceType resourceName
  | .resourceEnable resource enabled =>
    (db.resourceEnable resource (if enabled then 1 else 0)).map .value id
  | .resourceDelete resource => (db.resourceDelete resource).map .value id

/-- One call after another. -/
def run (db : Db Text) (calls : List (Call Text)) : Db Text :=
  calls.foldl (fun db c => (db.call c).2) db

/-- Nothing but the row goes, whatever becomes of the bus. -/
theorem resources_resourceDelete (db : Db Text) (resource : Text) :
    (db.resourceDelete resource).2.resources =
      delete Resource.resource resource db.resources := by
  have hdisable : delete Resource.resource resource (db.resourceEnable resource 0).2.resources =
      delete Resource.resource resource db.resources := by
    unfold resourceEnable
    split
    · rfl
    next r hsel =>
      obtain ⟨-, rfl⟩ := of_select_eq_some hsel
      split
      · rfl
      split
      · split
        · rfl
        · rw [if_neg (not_not.2 rfl)]
          exact delete_update fun _ => rfl
      · rfl
  exact hdisable

/-! ## Consistent databases -/

/-- What a resource takes of a bus. -/
def share (bus : Text) (r : Resource Text) : ℤ :=
  if r.bus = bus ∧ r.enabled ≠ 0 then r.bandwidth else 0

/-- What the enabled resources of a bus take. -/
def total (db : Db Text) (bus : Text) : ℤ := (db.resources.map (share bus)).sum

/-- The bandwidth of each bus is the total of its enabled resources, and at most the maximum of its
type, if that has one. -/
def Balanced (db : Db Text) : Prop :=
  ∀ b ∈ db.busses, b.bandwidth = some (db.total b.bus) ∧
    ∀ t ∈ db.busTypes, t.busType = b.busType → ∀ max, t.bandwidth = some max → db.total b.bus ≤ max

/-- The constraints of the schema hold, flags are flags, no bandwidth is negative, and the busses
are balanced. -/
structure Consistent (db : Db Text) : Prop where
  busTypeKey : Primary BusType.busType db.busTypes
  busKey : Primary Bus.bus db.busses
  resourceKey : Primary Resource.resource db.resources
  busType : ∀ b ∈ db.busses, ∃ t ∈ db.busTypes, t.busType = b.busType
  bus : ∀ r ∈ db.resources, ∃ b ∈ db.busses, b.bus = r.bus
  resourceType : ∀ r ∈ db.resources, ∃ t ∈ db.resourceTypes, t.resourceType = r.resourceType
  enabled : ∀ r ∈ db.resources, r.enabled = 0 ∨ r.enabled = 1
  bandwidth : ∀ r ∈ db.resources, 0 ≤ r.bandwidth
  maximum : ∀ t ∈ db.busTypes, ∀ max, t.bandwidth = some max → 0 ≤ max
  balanced : db.Balanced

variable {db : Db Text} {r : Resource Text} {b : Bus Text} {k : Text} {e x : ℤ}

theorem share_of_ne (h : r.bus ≠ k) : share k r = 0 := if_neg fun h' => h h'.1

theorem share_of_disabled (h : r.enabled = 0) : share k r = 0 := if_neg fun h' => h'.2 h

theorem share_of_enabled (h : r.enabled = 1) : share r.bus r = r.bandwidth :=
  if_pos ⟨rfl, h ▸ one_ne_zero⟩

/-! ## Enabling and disabling -/

theorem total_setEnabled (h : db.Consistent) (hr : r ∈ db.resources) {y : Option ℤ} :
    (db.setEnabled r e y).total k = db.total k - share k r + share k { r with enabled := e } :=
  sum_update h.resourceKey hr rfl

/-- The updates keep the database consistent if they write the new total, and that is within the
maximum. -/
theorem consistent_setEnabled (h : db.Consistent) (hr : r ∈ db.resources) (hb : b ∈ db.busses)
    (hbus : b.bus = r.bus) (he : e = 0 ∨ e = 1)
    (hx : x = db.total r.bus - share r.bus r + share r.bus { r with enabled := e })
    (hmax : ∀ t ∈ db.busTypes, t.busType = b.busType → ∀ max, t.bandwidth = some max → x ≤ max) :
    (db.setEnabled r e (some x)).Consistent where
  busTypeKey := h.busTypeKey
  busKey := h.busKey.update fun _ => rfl
  resourceKey := h.resourceKey.update fun _ => rfl
  busType := by
    refine forall_mem_update.2 fun b hb => ?_
    rw [apply_ite Bus.busType, ite_self]
    exact h.busType b hb
  bus := by
    refine forall_mem_update.2 fun r' hr' => ?_
    obtain ⟨b, hb, hbus⟩ := h.bus r' hr'
    refine ⟨_, List.mem_map_of_mem hb, ?_⟩
    rw [apply_ite Bus.bus, ite_self, apply_ite Resource.bus, ite_self]
    exact hbus
  resourceType := by
    refine forall_mem_update.2 fun r' hr' => ?_
    rw [apply_ite Resource.resourceType, ite_self]
    exact h.resourceType r' hr'
  enabled := by
    refine forall_mem_update.2 fun r' hr' => ?_
    split
    · exact he
    · exact h.enabled r' hr'
  bandwidth := by
    refine forall_mem_update.2 fun r' hr' => ?_
    rw [apply_ite Resource.bandwidth, ite_self]
    exact h.bandwidth r' hr'
  maximum := h.maximum
  balanced := by
    refine forall_mem_update.2 fun b' hb' => ?_
    by_cases hbus' : b'.bus = r.bus
    · obtain rfl : b' = b := eq_of_key_eq h.busKey hb' hb (hbus'.trans hbus.symm)
      have htotal : (db.setEnabled r e (some x)).total b'.bus = x := by
        rw [total_setEnabled h hr, hbus, hx]
      rw [if_pos hbus, htotal]
      exact ⟨rfl, hmax⟩
    · have htotal : (db.setEnabled r e (some x)).total b'.bus = db.total b'.bus := by
        rw [total_setEnabled h hr, share_of_ne (Ne.symm hbus'),
          share_of_ne (r := { r with enabled := e }) (Ne.symm hbus'), sub_zero, add_zero]
      rw [if_neg hbus', htotal]
      exact h.balanced b' hb'

/-- What `klk_resource_enable` can do. -/
inductive Enables (db : Db Text) (resource : Text) (enabled : ℤ) : ℤ × Db Text → Prop
  | unknown (h : ∀ r ∈ db.resources, r.resource ≠ resource) : Enables db resource enabled (-1, db)
  | same {r : Resource Text} (hr : r ∈ db.resources) (hkey : r.resource = resource)
      (h : r.enabled = enabled) : Enables db resource enabled (0, db)
  | exceeds (h : enabled ≠ 0) : Enables db resource enabled (-2, db)
  | enables {r : Resource Text} {b : Bus Text} {t : BusType Text} (hr : r ∈ db.resources)
      (hkey : r.resource = resource) (h : r.enabled ≠ enabled) (hne : enabled ≠ 0)
      (hb : b ∈ db.busses) (hbus : b.bus = r.bus) (ht : t ∈ db.busTypes)
      (htype : t.busType = b.busType)
      (hmax : atMost (b.bandwidth.map (· + r.bandwidth)) t.bandwidth) :
      Enables db resource enabled (0, db.setEnabled r 1 (b.bandwidth.map (· + r.bandwidth)))
  | disables {r : Resource Text} {b : Bus Text} (hr : r ∈ db.resources)
      (hkey : r.resource = resource) (h : r.enabled ≠ enabled) (hzero : enabled = 0)
      (hb : b ∈ db.busses) (hbus : b.bus = r.bus) :
      Enables db resource enabled (0, db.setEnabled r 0 (b.bandwidth.map (· - r.bandwidth)))

theorem resourceEnable_cases (h : db.Consistent) :
    Enables db k e (db.resourceEnable k e) := by
  unfold resourceEnable
  split
  next hsel => exact .unknown (select_eq_none_iff.1 hsel)
  next r hsel =>
    obtain ⟨hr, hkey⟩ := of_select_eq_some hsel
    split
    next hsel =>
      obtain ⟨t, ht, htype⟩ := h.resourceType r hr
      exact absurd htype (select_eq_none_iff.1 hsel t ht)
    next =>
      split
      next hne =>
        split
        next hsel =>
          obtain ⟨b, hb, hbus⟩ := h.bus r hr
          exact absurd hbus (select_eq_none_iff.1 hsel b hb)
        next b hsel =>
          obtain ⟨hb, hbus⟩ := of_select_eq_some hsel
          split
          next he =>
            split
            next hsel =>
              obtain ⟨t, ht, htype⟩ := h.busType b hb
              exact absurd htype (select_eq_none_iff.1 hsel t ht)
            next t hsel =>
              obtain ⟨ht, htype⟩ := of_select_eq_some hsel
              split
              next hmax => exact .enables hr hkey hne he hb hbus ht htype hmax.1
              next => exact .exceeds he
          next he => exact .disables hr hkey hne (not_not.1 he) hb hbus
      next heq => exact .same hr hkey (not_not.1 heq)

theorem consistent_resourceEnable (h : db.Consistent) (he : e = 0 ∨ e = 1) :
    (db.resourceEnable k e).2.Consistent := by
  have hcases := resourceEnable_cases (k := k) (e := e) h
  generalize db.resourceEnable k e = p at hcases ⊢
  cases hcases with
  | unknown | same | exceeds => exact h
  | @enables r b t hr hkey hne hnz hb hbus ht htype hmax =>
    have hold : r.enabled = 0 := by
      have := h.enabled r hr
      omega
    obtain ⟨hsome, -⟩ := h.balanced b hb
    rw [hsome, hbus, Option.map_some] at hmax ⊢
    apply consistent_setEnabled h hr hb hbus (.inr rfl)
    · rw [share_of_disabled hold, share_of_enabled (r := { r with enabled := 1 }) rfl, sub_zero]
    · intro t' ht' htype' max hm
      obtain rfl : t' = t := eq_of_key_eq h.busTypeKey ht' ht (htype'.trans htype.symm)
      rw [hm] at hmax
      exact of_decide_eq_true hmax
  | @disables r b hr hkey hne hzero hb hbus =>
    have hold : r.enabled = 1 := by
      have := h.enabled r hr
      omega
    obtain ⟨hsome, hle⟩ := h.balanced b hb
    rw [hsome, hbus, Option.map_some]
    apply consistent_setEnabled h hr hb hbus (.inl rfl)
    · rw [share_of_enabled hold, share_of_disabled (r := { r with enabled := 0 }) rfl, add_zero]
    · intro t ht htype max hm
      have hmax := hle t ht htype max hm
      have hnonneg := h.bandwidth r hr
      rw [hbus] at hmax
      exact Int.le_trans (Int.sub_le_self _ hnonneg) hmax

/-- A resource that has been disabled has the flag 0. -/
theorem enabled_resourceEnable (h : db.Consistent) :
    ∀ r ∈ (db.resourceEnable k 0).2.resources, r.resource = k → r.enabled = 0 := by
  have hcases := resourceEnable_cases (k := k) (e := 0) h
  generalize db.resourceEnable k 0 = p at hcases ⊢
  cases hcases with
  | unknown hne => exact fun r hr hk => absurd hk (hne r hr)
  | same hr hkey hzero =>
    intro r' hr' hk
    rw [eq_of_key_eq h.resourceKey hr' hr (hk.trans hkey.symm)]
    exact hzero
  | exceeds hne => exact absurd rfl hne
  | enables _ _ _ hne => exact absurd rfl hne
  | @disables r b hr hkey =>
    refine forall_mem_update.2 fun r' hr' hk => ?_
    split at hk
    next heq => rw [if_pos heq]
    next hne => exact absurd (hk.trans hkey.symm) hne

/-! ## Adding and deleting -/

theorem consistent_busAdd (h : db.Consistent) (uuid host : Text) (description : Option Text)
    (busType : Text) : (db.busAdd uuid host description busType).2.Consistent := by
  unfold busAdd
  split
  next hok =>
    obtain ⟨hfresh, -, htype⟩ := hok
    -- no resource refers to the new bus
    have htotal : db.total uuid = 0 := by
      apply List.sum_eq_zero
      intro x hx
      obtain ⟨r, hr, rfl⟩ := List.mem_map.1 hx
      obtain ⟨b, hb, hbus⟩ := h.bus r hr
      exact share_of_ne fun heq => (hfresh b hb).1 (hbus.trans heq)
    exact { h with
      busKey := h.busKey.append fun b hb => (hfresh b hb).1
      busType := List.forall_mem_append.2 ⟨h.busType, List.forall_mem_singleton.2 htype⟩
      bus := fun r hr => (h.bus r hr).imp fun b hb => hb.imp_left (List.mem_append_left _)
      balanced := List.forall_mem_append.2 ⟨h.balanced, List.forall_mem_singleton.2
        ⟨congrArg some htotal.symm, fun t ht _ max hm => htotal.trans_le (h.maximum t ht max hm)⟩⟩ }
  next => exact h

/-- The totals are all that the busses have to do with the resources. -/
theorem Consistent.of_total (h : db.Consistent) {resources : List (Resource Text)}
    (hkey : Primary Resource.resource resources)
    (hrows : ∀ r ∈ resources, r ∈ db.resources ∨ (∃ b ∈ db.busses, b.bus = r.bus) ∧
      (∃ t ∈ db.resourceTypes, t.resourceType = r.resourceType) ∧ r.enabled = 0 ∧ r.bandwidth = 0)
    (htotal : ∀ bus, total { db with resources := resources } bus = db.total bus) :
    Consistent { db with resources := resources } :=
  { h with
    resourceKey := hkey
    bus := fun r hr => (hrows r hr).elim (h.bus r) fun hnew => hnew.1
    resourceType := fun r hr => (hrows r hr).elim (h.resourceType r) fun hnew => hnew.2.1
    enabled := fun r hr => (hrows r hr).elim (h.enabled r) fun hnew => .inl hnew.2.2.1
    bandwidth := fun r hr => (hrows r hr).elim (h.bandwidth r) fun hnew => hnew.2.2.2.ge
    balanced := fun b hb => (htotal b.bus).symm ▸ h.balanced b hb }

theorem consistent_resourceAdd (h : db.Consistent) (uuid bus resourceType resourceName : Text) :
    (db.resourceAdd uuid bus resourceType resourceName).2.Consistent := by
  unfold resourceAdd
  split
  next hok =>
    obtain ⟨hfresh, hbus, htype⟩ := hok
    refine h.of_total (h.resourceKey.append fun r hr => (hfresh r hr).1) ?_ fun k => ?_
    · exact List.forall_mem_append.2
        ⟨fun r hr => .inl hr, List.forall_mem_singleton.2 (.inr ⟨hbus, htype, rfl, rfl⟩)⟩
    · rw [total, List.map_append, List.sum_append, List.map_singleton, List.sum_singleton,
        share_of_disabled rfl, add_zero]
      rfl
  next => exact h

theorem consistent_resourceDelete (h : db.Consistent) : (db.resourceDelete k).2.Consistent := by
  have hdisabled := enabled_resourceEnable (k := k) h
  have h' := consistent_resourceEnable (k := k) h (.inl rfl)
  unfold resourceDelete
  generalize (db.resourceEnable k 0).2 = db' at hdisabled h' ⊢
  apply h'.of_total h'.resourceKey.delete (fun r hr => .inl (mem_delete.1 hr).1)
  intro bus
  by_cases hmem : ∃ r ∈ db'.resources, r.resource = k
  · obtain ⟨r, hr, hkey⟩ := hmem
    rw [total, sum_delete h'.resourceKey hr hkey, share_of_disabled (hdisabled r hr hkey), sub_zero]
    rfl
  · rw [total, delete_eq_self fun r hr heq => hmem ⟨r, hr, heq⟩]
    rfl

/-! ## Runs -/

variable {c : Call Text}

theorem consistent_call (h : db.Consistent) (c : Call Text) : (db.call c).2.Consistent := by
  cases c with
  | busAdd uuid host description busType => exact consistent_busAdd h uuid host description busType
  | resourceAdd uuid bus resourceType resourceName =>
    exact consistent_resourceAdd h uuid bus resourceType resourceName
  | resourceEnable resource enabled =>
    apply consistent_resourceEnable h
    cases enabled with
    | false => exact .inl rfl
    | true => exact .inr rfl
  | resourceDelete resource => exact consistent_resourceDelete h

/-- A call that fails changes nothing. -/
theorem call_eq_of_ne (h : db.Consistent) (hne : (db.call c).1 ≠ .value 0) :
    (db.call c).2 = db := by
  cases c with
  | busAdd uuid host description busType =>
    simp only [call, busAdd] at hne ⊢
    split at hne
    · exact absurd rfl hne
    next hbad => rw [if_neg hbad]
  | resourceAdd uuid bus resourceType resourceName =>
    simp only [call, resourceAdd] at hne ⊢
    split at hne
    · exact absurd rfl hne
    next hbad => rw [if_neg hbad]
  | resourceEnable resource enabled =>
    simp only [call] at hne ⊢
    have hcases := resourceEnable_cases (k := resource) (e := if enabled then 1 else 0) h
    generalize db.resourceEnable resource (if enabled then 1 else 0) = p at hcases hne ⊢
    cases hcases with
    | unknown | exceeds => rfl
    | same | enables | disables => exact absurd rfl hne
  | resourceDelete resource => exact absurd rfl hne

theorem consistent_run (h : db.Consistent) (calls : List (Call Text)) :
    (db.run calls).Consistent := by
  induction calls generalizing db with
  | nil => exact h
  | cons c calls ih => exact ih (consistent_call h c)

/-- After any calls on a consistent database the busses are balanced, and a call that does not
return 0 leaves it as it is. -/
theorem balanced_run (h : db.Consistent) (calls : List (Call Text)) :
    (db.run calls).Balanced ∧
      ∀ c, ((db.run calls).call c).1 ≠ .value 0 → ((db.run calls).call c).2 = db.run calls :=
  ⟨(consistent_run h calls).balanced, fun _ => call_eq_of_ne (consistent_run h calls)⟩

/-- A bus of 10 with an enabled resource that takes 7 and a disabled one that would take 5. -/
def twoResources : Db String where
  hosts := ["host"]
  busTypes := [⟨"pci", some 10⟩]
  busses := [⟨"bus", "host", none, "pci", some 7⟩]
  resourceTypes := [⟨"dvb", 8⟩]
  resources := [⟨"r", "bus", "dvb", 7, 1, "tuner 1"⟩, ⟨"r'", "bus", "dvb", 5, 0, "tuner 2"⟩]

theorem twoResources_consistent : twoResources.Consistent := by
  constructor <;> simp [twoResources, Primary, Balanced, total, share]

theorem balanced_run_twoResources :
    (twoResources.run [.resourceEnable "r'" true, .resourceDelete "r"]).Balanced ∧
      ∀ c, ((twoResources.run [.resourceEnable "r'" true, .resourceDelete "r"]).call c).1 ≠
          .value 0 →
        ((twoResources.run [.resourceEnable "r'" true, .resourceDelete "r"]).call c).2 =
          twoResources.run [.resourceEnable "r'" true, .resourceDelete "r"] :=
  balanced_run twoResources_consistent _

end Db

end Kalinka.Server
