import Mathlib.Data.Nat.Notation
import Mathlib.Data.String.Basic
import Mathlib.Logic.Function.Basic
import Kalinka.Lib.SortedSet

/-!
# Containers of module infos

A module keeps its infos in a set of pointers, ordered by the UUIDs of the infos.  When the database
has changed, `ModuleWithInfo::processDB` reads a new set from it, deletes the infos that are missing
there, except those in use, and adds the new set: an info whose UUID is in the container already is
not replaced, but updated in place.
-/

namespace Kalinka.Mod

open Function

/-- `boost::shared_ptr<T>` -/
abbrev Ptr := ℕ

/-- The virtual functions of a class of infos that the container calls. -/
structure InfoClass (T : Type) where
  isInUse : T → Bool
  updateInfo : T → T → T

/-- `mod::Info`; its UUID never changes, and is a property of the pointer. -/
structure Info where
  name : String
  inUse : Bool := false
  deriving DecidableEq, Repr

def Info.updateInfo (info value : Info) : Info := { info with name := value.name }

def Info.infoClass : InfoClass Info := ⟨Info.inUse, Info.updateInfo⟩

/-- `InfoSet`, ordered by `InfoLess`. -/
abbrev InfoSet (uuid : Ptr → String) := SortedSet uuid

/-- `InfoContainer`, with the objects behind all pointers. -/
structure InfoContainer (T : Type) (uuid : Ptr → String) where
  mContainer : InfoSet uuid := {}
  value : Ptr → T

namespace InfoContainer

variable {T : Type} {uuid : Ptr → String}

/-- The elements of the container that are missing in the set. -/
def getDel (c : InfoContainer T uuid) (set : InfoSet uuid) : InfoSet uuid :=
  c.mContainer.difference set

/-- The elements of the set that are missing in the container. -/
def getAdd (c : InfoContainer T uuid) (set : InfoSet uuid) : InfoSet uuid :=
  set.difference c.mContainer

def delElem (cls : InfoClass T) (ignoreNotUsed : Bool) (c : InfoContainer T uuid) (elem : Ptr) :
    InfoContainer T uuid :=
  if ignoreNotUsed = true ∧ cls.isInUse (c.value elem) = true then c
  else { c with mContainer := c.mContainer.erase (uuid elem) }

def del (cls : InfoClass T) (c : InfoContainer T uuid) (set : InfoSet uuid)
    (ignoreNotUsed : Bool) : InfoContainer T uuid :=
  set.elems.foldl (delElem cls ignoreNotUsed) c

def addElem (cls : InfoClass T) (updating : Bool) (c : InfoContainer T uuid) (elem : Ptr) :
    InfoContainer T uuid :=
  match c.mContainer.find (uuid elem) with
  | none => { c with mContainer := c.mContainer.insert elem }
  | some p =>
    if updating = true then
      { c with value := update c.value p (cls.updateInfo (c.value p) (c.value elem)) }
    else c

def add (cls : InfoClass T) (c : InfoContainer T uuid) (set : InfoSet uuid) (updating : Bool) :
    InfoContainer T uuid :=
  set.elems.foldl (addElem cls updating) c

/-- `ModuleWithInfo::processDB`, with the result of `getInfoFromDB`. -/
def processDB (cls : InfoClass T) (c : InfoContainer T uuid) (dbSet : InfoSet uuid) :
    InfoContainer T uuid :=
  let delSet := c.getDel dbSet
  add cls (del cls c delSet true) dbSet true

variable {cls : InfoClass T} {c : InfoContainer T uuid} {set : InfoSet uuid} {elem p : Ptr}
variable {updating : Bool} {l : List Ptr}

/-! ## Deleting -/

theorem value_delElem : (delElem cls true c elem).value = c.value := by
  unfold delElem
  split <;> rfl

theorem mem_delElem : p ∈ (delElem cls true c elem).mContainer ↔
    p ∈ c.mContainer ∧ (uuid elem = uuid p → cls.isInUse (c.value elem) = true) := by
  unfold delElem
  split_ifs with huse
  · simp [huse.2]
  · have hfree : cls.isInUse (c.value elem) = false := by simpa using huse
    rw [SortedSet.mem_erase, hfree]
    simp [ne_comm]

theorem mem_foldl_delElem : p ∈ (l.foldl (delElem cls true) c).mContainer ↔
    p ∈ c.mContainer ∧ ∀ e ∈ l, uuid e = uuid p → cls.isInUse (c.value e) = true := by
  induction l generalizing c with
  | nil => simp
  | cons e l ih =>
    rw [List.foldl_cons, ih, mem_delElem, value_delElem, List.forall_mem_cons, and_assoc]

/-- After the deletion, the elements of the set and those in use are left. -/
theorem mem_del_getDel : p ∈ (del cls c (c.getDel set) true).mContainer ↔
    p ∈ c.mContainer ∧ (uuid p ∉ set.keys → cls.isInUse (c.value p) = true) := by
  refine mem_foldl_delElem.trans (and_congr_right fun hp => ?_)
  constructor
  · intro h hset
    exact h p (SortedSet.mem_difference.2 ⟨hp, hset⟩) rfl
  · intro h e he heq
    obtain ⟨hec, heset⟩ := SortedSet.mem_difference.1 he
    obtain rfl := SortedSet.eq_of_key_eq hec hp heq
    exact h heset

/-! ## Adding -/

theorem mem_addElem : p ∈ (addElem cls updating c elem).mContainer ↔
    p ∈ c.mContainer ∨ p = elem ∧ uuid elem ∉ c.mContainer.keys := by
  unfold addElem
  cases hfind : c.mContainer.find (uuid elem) with
  | none =>
    have hnew := SortedSet.find_eq_none_iff.1 hfind
    apply (SortedSet.mem_insert hnew).trans
    simp [hnew, or_comm]
  | some q =>
    obtain ⟨hq, hkey⟩ := SortedSet.find_eq_some_iff.1 hfind
    have hold : uuid elem ∈ c.mContainer.keys := SortedSet.mem_keys.2 ⟨q, hq, hkey⟩
    dsimp only
    split_ifs <;> simp [hold]

/-- Elements with different UUIDs are added one after the other: an element of the container stays,
and a new one is added if its UUID is not there. -/
theorem mem_foldl_addElem (hl : l.Pairwise fun a b => uuid a < uuid b) :
    p ∈ (l.foldl (addElem cls updating) c).mContainer ↔
      p ∈ c.mContainer ∨ p ∈ l ∧ uuid p ∉ c.mContainer.keys := by
  induction l generalizing c with
  | nil => simp
  | cons e l ih =>
    obtain ⟨he, hl⟩ := List.pairwise_cons.1 hl
    have hkeys : ∀ q ∈ l, uuid q ∉ (addElem cls updating c e).mContainer.keys ↔
        uuid q ∉ c.mContainer.keys := by
      intro q hq
      rw [SortedSet.mem_keys, SortedSet.mem_keys, not_iff_not]
      constructor
      · rintro ⟨r, hr, hkey⟩
        obtain hr | ⟨rfl, -⟩ := mem_addElem.1 hr
        · exact ⟨r, hr, hkey⟩
        · exact absurd hkey (he q hq).ne
      · rintro ⟨r, hr, hkey⟩
        exact ⟨r, mem_addElem.2 (.inl hr), hkey⟩
    rw [List.foldl_cons, ih hl, mem_addElem, List.mem_cons, or_assoc]
    apply or_congr_right
    constructor
    · rintro (⟨rfl, hnew⟩ | ⟨hmem, hnew⟩)
      · exact ⟨.inl rfl, hnew⟩
      · exact ⟨.inr hmem, (hkeys p hmem).1 hnew⟩
    · rintro ⟨rfl | hmem, hnew⟩
      · exact .inl ⟨rfl, hnew⟩
      · exact .inr ⟨hmem, (hkeys p hmem).2 hnew⟩

/-- `add` inserts what `getAdd` finds. -/
theorem mem_add : p ∈ (add cls c set updating).mContainer ↔
    p ∈ c.mContainer ∨ p ∈ c.getAdd set :=
  (mem_foldl_addElem set.sorted).trans (or_congr_right SortedSet.mem_difference.symm)

/-! ## Reconciliation -/

/-- An element of the container stays if the database has it or it is in use; one of the database
is added if the container has none of its UUID. -/
theorem mem_processDB : p ∈ (processDB cls c set).mContainer ↔
    p ∈ c.mContainer ∧ (uuid p ∉ set.keys → cls.isInUse (c.value p) = true) ∨
      p ∈ set ∧ uuid p ∉ c.mContainer.keys := by
  unfold processDB
  rw [mem_add, mem_del_getDel, getAdd, SortedSet.mem_difference]
  refine or_congr_right (and_congr_right fun hp => not_congr ?_)
  have hset : uuid p ∈ set.keys := SortedSet.mem_keys.2 ⟨p, hp, rfl⟩
  rw [SortedSet.mem_keys, SortedSet.mem_keys]
  apply exists_congr
  intro q
  rw [mem_del_getDel, and_assoc]
  apply and_congr_right
  intro _
  constructor
  · exact fun h => h.2
  · exact fun hkey => ⟨fun hnot => absurd (hkey ▸ hset) hnot, hkey⟩

/-- The UUIDs after the update. -/
theorem mem_keys_processDB {u : String} : u ∈ (processDB cls c set).mContainer.keys ↔
    u ∈ set.keys ∨ ∃ p ∈ c.mContainer, uuid p = u ∧ u ∉ set.keys ∧
      cls.isInUse (c.value p) = true := by
  constructor
  · intro h
    obtain ⟨p, hp, rfl⟩ := SortedSet.mem_keys.1 h
    by_cases hset : uuid p ∈ set.keys
    · exact .inl hset
    · obtain ⟨hpc, huse⟩ | ⟨hpset, -⟩ := mem_processDB.1 hp
      · exact .inr ⟨p, hpc, rfl, hset, huse hset⟩
      · exact absurd (SortedSet.mem_keys.2 ⟨p, hpset, rfl⟩) hset
  · rintro (hset | ⟨p, hp, rfl, -, huse⟩)
    · by_cases hc : u ∈ c.mContainer.keys
      · obtain ⟨p, hp, rfl⟩ := SortedSet.mem_keys.1 hc
        exact SortedSet.mem_keys.2 ⟨p, mem_processDB.2 (.inl ⟨hp, absurd hset⟩), rfl⟩
      · obtain ⟨p, hp, rfl⟩ := SortedSet.mem_keys.1 hset
        exact SortedSet.mem_keys.2 ⟨p, mem_processDB.2 (.inr ⟨hp, hc⟩), rfl⟩
    · exact SortedSet.mem_keys.2 ⟨p, mem_processDB.2 (.inl ⟨hp, fun _ => huse⟩), rfl⟩

/-- An info whose UUID is in the container after the update is the same object as before. -/
theorem mem_processDB_of_mem (hp : p ∈ c.mContainer)
    (hkey : uuid p ∈ (processDB cls c set).mContainer.keys) :
    p ∈ (processDB cls c set).mContainer := by
  obtain hset | ⟨q, hq, hqp, -, huse⟩ := mem_keys_processDB.1 hkey
  · exact mem_processDB.2 (.inl ⟨hp, absurd hset⟩)
  · obtain rfl := SortedSet.eq_of_key_eq hq hp hqp
    exact mem_processDB.2 (.inl ⟨hp, fun _ => huse⟩)

/-- The update of a module by the infos that the database returns: the UUIDs are those of the
database and of the other infos in use, in order and none twice, and every info that stays is the
same object. -/
theorem processDB_reconciles (cls : InfoClass T) (c : InfoContainer T uuid) (infos : List Ptr) :
    let c' := processDB cls c (.ofList uuid infos)
    (∀ u, u ∈ c'.mContainer.keys ↔ u ∈ infos.map uuid ∨
      ∃ p ∈ c.mContainer, uuid p = u ∧ u ∉ infos.map uuid ∧ cls.isInUse (c.value p) = true) ∧
    c'.mContainer.keys.Pairwise (· < ·) ∧ c'.mContainer.keys.Nodup ∧
    ∀ p ∈ c.mContainer, uuid p ∈ c'.mContainer.keys → p ∈ c'.mContainer := by
  refine ⟨fun u => ?_, SortedSet.sorted_keys _, SortedSet.nodup_keys _, ?_⟩
  · rw [mem_keys_processDB]
    simp only [SortedSet.mem_keys_ofList]
  · exact fun p hp hkey => mem_processDB_of_mem hp hkey

/-- The database has `a` (another object, with a new name) and `c`; of `a` and `b` in the container,
`b` is in use. -/
example :
    let uuid : Ptr → String := fun p => ["a", "b", "a", "c"].getD p ""
    let value : Ptr → Info := fun p => ⟨["one", "two", "new", "three"].getD p "", p = 1⟩
    let c' := processDB Info.infoClass { mContainer := .ofList uuid [0, 1], value }
      (.ofList uuid [3, 2])
    c'.mContainer.elems = [0, 1, 3] ∧ (c'.value 0).name = "new" := by decide

end InfoContainer

end Kalinka.Mod
