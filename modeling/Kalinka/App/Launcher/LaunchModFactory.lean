import Mathlib.Data.List.Nodup

/-!
# Messages for modules of two applications

The module factory of a launched application hands an asynchronous message to its own message core
if some receiver is local, and to the mediaserver over the wire if some receiver is not, each time
with the whole list of receivers.  Either message core goes through the list up to the first id it
does not know.  `delivered_iff_reaches` says exactly which lists get through.
-/

namespace Kalinka.Launcher

/-- What happens to a message in the turn of a receiver. -/
inductive Turn
  /-- `getModule` does not find the module -/
  | unknown
  /-- `addMessage` throws -/
  | throws
  /-- the module has been stopped -/
  | ignored
  | accepted
  deriving DecidableEq, Repr

/-- An application: its message core, and the modules by id. -/
structure Application where
  core : Turn := .accepted
  modules : String → Turn

/-! The modules that every application loads itself, and the module of the mediaserver. -/

def adapter.MODID : String := "09f85de0-faf3-102b-8b1c-001d093d7c53"
def msgcore.MODID : String := "d1523fb0-faf2-102b-8b1c-001d093d7c53"
def db.MODID : String := "7a1f443e-6840-437c-9bf6-69f813c45282"
def MODULE_COMMON_ID : String := "911AF3B7-45E4-4290-BB20-117596BFC5A7"

/-- `launcher::Base` -/
structure Base where
  mMainModuleId : String

def Base.localLoadList (b : Base) : List String :=
  [b.mMainModuleId, adapter.MODID, msgcore.MODID, db.MODID]

def Base.isLocal (b : Base) (id : String) : Bool :=
  decide (b.mMainModuleId = MODULE_COMMON_ID) || decide (id ∈ b.localLoadList)

/-- The receivers of a message: `addReceiver` takes none twice. -/
structure ReceiverList where
  ids : List String
  nodup : ids.Nodup

/-- The loop of `MessageCore::process`: the receivers that get the message. -/
def process (modules : String → Turn) : List String → List String
  | [] => []
  | id :: rest =>
    match modules id with
    | .unknown | .throws => []
    | .ignored => process modules rest
    | .accepted => id :: process modules rest

/-- The turn of a receiver in the core, which does not take itself for one: `KLKASSERT(0)`. -/
def Application.turn (app : Application) (id : String) : Turn :=
  if id = msgcore.MODID then .throws else app.modules id

/-- `klk::ModuleFactory::sendMessage` for an asynchronous message, and what the core makes of it, or
`none` for an exception. -/
def Application.sendMessage (app : Application) (receivers : List String) : Option (List String) :=
  if receivers = [] then none
  else
    match app.core with
    | .unknown | .throws => none
    | .ignored => some []
    | .accepted => some (process app.turn receivers)

/-- The launched application with the mediaserver behind `m_msgproto`; `load` sends a module that is
not local there. -/
structure ModuleFactory where
  base : Base
  app : Application
  mediaserver : Application
  foreign : ∀ id, base.isLocal id = false → app.modules id = .unknown

/-- `launcher::ModuleFactory::sendMessage`: who gets the message in the application and in the
mediaserver. -/
def ModuleFactory.sendMessage (f : ModuleFactory) (receivers : List String) :
    List String × List String :=
  let remote :=
    if receivers.any fun id => !f.base.isLocal id then
      (f.mediaserver.sendMessage receivers).getD []
    else []
  if receivers.any f.base.isLocal then
    match f.app.sendMessage receivers with
    | none => ([], [])
    | some delivered => (delivered, remote)
  else ([], remote)

/-- Every receiver gets the message once, where it lives. -/
def Delivered (f : ModuleFactory) (receivers : ReceiverList) : Prop :=
  ∀ id ∈ receivers.ids,
    ((f.sendMessage receivers.ids).1.count id, (f.sendMessage receivers.ids).2.count id) =
      if f.base.isLocal id = true then (1, 0) else (0, 1)

/-! ## One message core -/

section

variable {modules : String → Turn} {ids ids' : List String} {id : String}

theorem accepted_of_mem_process (h : id ∈ process modules ids) : modules id = .accepted := by
  induction ids with
  | nil => cases h
  | cons id' rest ih =>
    rw [process] at h
    split at h
    · cases h
    · cases h
    · exact ih h
    · rename_i hid
      obtain rfl | hmem := List.mem_cons.1 h
      · exact hid
      · exact ih hmem

theorem process_eq_self (h : ∀ id ∈ ids, modules id = .accepted) : process modules ids = ids := by
  induction ids with
  | nil => rfl
  | cons id rest ih =>
    obtain ⟨hid, hrest⟩ := List.forall_mem_cons.1 h
    rw [process, hid]
    exact congrArg (id :: ·) (ih hrest)

theorem process_append_of_accepted (h : ∀ id ∈ ids, modules id = .accepted) :
    process modules (ids ++ ids') = ids ++ process modules ids' := by
  induction ids with
  | nil => rfl
  | cons id rest ih =>
    obtain ⟨hid, hrest⟩ := List.forall_mem_cons.1 h
    rw [List.cons_append, process, hid]
    exact congrArg (id :: ·) (ih hrest)

theorem process_append_of_ignored (h : ∀ id ∈ ids, modules id = .ignored) :
    process modules (ids ++ ids') = process modules ids' := by
  induction ids with
  | nil => rfl
  | cons id rest ih =>
    obtain ⟨hid, hrest⟩ := List.forall_mem_cons.1 h
    rw [List.cons_append, process, hid]
    exact ih hrest

theorem process_eq_nil_of_unknown (h : ∀ id ∈ ids, modules id = .unknown) :
    process modules ids = [] := by
  cases ids with
  | nil => rfl
  | cons id rest => rw [process, h id List.mem_cons_self]

/-- When a receiver of the rest gets the message and none of the first part does, the modules of
the first part have been passed over. -/
theorem ignored_of_mem_process (hmem : id ∈ process modules (ids ++ ids')) (hid : id ∉ ids)
    (hnot : ∀ id ∈ ids, id ∉ process modules (ids ++ ids')) :
    ∀ id ∈ ids, modules id = .ignored := by
  induction ids with
  | nil => exact fun _ h => by cases h
  | cons id' rest ih =>
    rw [List.cons_append, process] at hmem hnot
    cases hturn : modules id' with
    | unknown | throws =>
      rw [hturn] at hmem
      cases hmem
    | accepted =>
      rw [hturn] at hnot
      exact absurd List.mem_cons_self (hnot id' List.mem_cons_self)
    | ignored =>
      rw [hturn] at hmem hnot
      refine List.forall_mem_cons.2 ⟨hturn, ih hmem (fun h => hid (List.mem_cons_of_mem _ h)) ?_⟩
      exact fun id'' hid'' => hnot id'' (List.mem_cons_of_mem _ hid'')

/-- When an application that knows its local modules only serves all the local receivers, these
come first in the list. -/
theorem exists_append_of_served {isLocal : String → Bool} (hn : ids.Nodup)
    (hforeign : ∀ id, isLocal id = false → modules id = .unknown)
    (hserved : ∀ id ∈ ids, isLocal id = true → id ∈ process modules ids) :
    ∃ ls fs, ids = ls ++ fs ∧ (∀ id ∈ ls, isLocal id = true ∧ modules id = .accepted) ∧
      ∀ id ∈ fs, isLocal id = false := by
  induction ids with
  | nil => exact ⟨[], [], rfl, by simp, by simp⟩
  | cons id rest ih =>
    obtain ⟨hid, hn'⟩ := List.nodup_cons.1 hn
    cases hlocal : isLocal id with
    | false =>
      refine ⟨[], id :: rest, rfl, fun _ h => (by cases h), ?_⟩
      refine List.forall_mem_cons.2 ⟨hlocal, fun id' hid' => ?_⟩
      by_contra hlocal'
      have hmem := hserved id' (List.mem_cons_of_mem id hid') (by simpa using hlocal')
      rw [process, hforeign id hlocal] at hmem
      cases hmem
    | true =>
      have haccepted := accepted_of_mem_process (hserved id List.mem_cons_self hlocal)
      rw [process, haccepted] at hserved
      obtain ⟨ls, fs, rfl, hls, hfs⟩ := ih hn' fun id' hid' hlocal' => by
        obtain rfl | hmem := List.mem_cons.1 (hserved id' (List.mem_cons_of_mem id hid') hlocal')
        · exact absurd hid' hid
        · exact hmem
      exact ⟨id :: ls, fs, rfl, List.forall_mem_cons.2 ⟨⟨hlocal, haccepted⟩, hls⟩, hfs⟩

end

/-! ## Both applications -/

/-- The local receivers `ls` get the message and the others, `fs`, too: the mediaserver has every
local receiver as well, and passes over it. -/
structure Reaches (f : ModuleFactory) (ls fs : List String) : Prop where
  locals : ∀ id ∈ ls, f.base.isLocal id = true ∧ f.app.turn id = .accepted
  remotes : ∀ id ∈ fs, f.base.isLocal id = false ∧ f.mediaserver.turn id = .accepted
  core : ls ≠ [] → f.app.core = .accepted
  proxy : fs ≠ [] → f.mediaserver.core = .accepted ∧
    ∀ id ∈ ls, f.mediaserver.turn id = .ignored

variable {f : ModuleFactory} {ls fs : List String} {app : Application} {ids : List String}

theorem ModuleFactory.turn_foreign (f : ModuleFactory) {id : String}
    (hid : f.base.isLocal id = false) : f.app.turn id = .unknown := by
  have hne : id ≠ msgcore.MODID := by
    rintro rfl
    simp [Base.isLocal, Base.localLoadList] at hid
  rw [Application.turn, if_neg hne, f.foreign id hid]

theorem sendMessage_of_accepted (hcore : app.core = .accepted) (hids : ids ≠ []) :
    app.sendMessage ids = some (process app.turn ids) := by
  simp [Application.sendMessage, hcore, hids]

theorem getD_sendMessage_eq_nil_or (app : Application) (ids : List String) :
    (app.sendMessage ids).getD [] = [] ∨
      app.core = .accepted ∧ (app.sendMessage ids).getD [] = process app.turn ids := by
  unfold Application.sendMessage
  split
  · exact .inl rfl
  · split
    · exact .inl rfl
    · exact .inl rfl
    · exact .inl rfl
    · rename_i hcore
      exact .inr ⟨hcore, rfl⟩

theorem fst_sendMessage_eq (f : ModuleFactory) (ids : List String) :
    (f.sendMessage ids).1 =
      if ids.any f.base.isLocal = true then (f.app.sendMessage ids).getD [] else [] := by
  unfold ModuleFactory.sendMessage
  dsimp only
  split_ifs
  · cases f.app.sendMessage ids <;> rfl
  · cases f.app.sendMessage ids <;> rfl
  · rfl
  · rfl

/-- An exception of the application's own core keeps the message from the mediaserver. -/
theorem snd_sendMessage_eq (f : ModuleFactory) (ids : List String) : (f.sendMessage ids).2 =
    if (ids.any fun id => !f.base.isLocal id) = true ∧
      (ids.any f.base.isLocal = true → f.app.sendMessage ids ≠ none) then
      (f.mediaserver.sendMessage ids).getD []
    else [] := by
  unfold ModuleFactory.sendMessage
  dsimp only
  by_cases hlocals : ids.any f.base.isLocal = true
  · rw [if_pos hlocals]
    cases f.app.sendMessage ids <;> simp [hlocals]
  · rw [if_neg hlocals]
    simp [hlocals]

/-- Whoever gets the message in one of the applications gets it from its message core. -/
theorem fst_sendMessage (h : (f.sendMessage ids).1 ≠ []) :
    f.app.core = .accepted ∧ (f.sendMessage ids).1 = process f.app.turn ids := by
  rw [fst_sendMessage_eq] at h ⊢
  split_ifs at h ⊢
  · exact (getD_sendMessage_eq_nil_or f.app ids).resolve_left h
  · exact absurd rfl h

theorem snd_sendMessage (h : (f.sendMessage ids).2 ≠ []) :
    f.mediaserver.core = .accepted ∧ (f.sendMessage ids).2 = process f.mediaserver.turn ids := by
  rw [snd_sendMessage_eq] at h ⊢
  split_ifs at h ⊢
  · exact (getD_sendMessage_eq_nil_or f.mediaserver ids).resolve_left h
  · exact absurd rfl h

theorem any_iff_ne_nil {q : String → Bool} (h : ∀ id ∈ ids, q id = true) :
    ids.any q = true ↔ ids ≠ [] := by
  cases ids with
  | nil => simp
  | cons id rest => simp [h id List.mem_cons_self]

/-- Then each application delivers its own receivers, and no others. -/
theorem Reaches.sendMessage_eq (h : Reaches f ls fs) : f.sendMessage (ls ++ fs) = (ls, fs) := by
  have hlocals : (ls ++ fs).any f.base.isLocal = true ↔ ls ≠ [] := by
    have hfs : ¬ fs.any f.base.isLocal = true := by
      simpa using fun id hid => (h.remotes id hid).1
    rw [List.any_append, Bool.or_eq_true, or_iff_left hfs]
    exact any_iff_ne_nil fun id hid => (h.locals id hid).1
  have hremotes : ((ls ++ fs).any fun id => !f.base.isLocal id) = true ↔ fs ≠ [] := by
    have hls : ¬ (ls.any fun id => !f.base.isLocal id) = true := by
      simpa using fun id hid => (h.locals id hid).1
    rw [List.any_append, Bool.or_eq_true, or_iff_right hls]
    exact any_iff_ne_nil fun id hid => by simp [(h.remotes id hid).1]
  have happ : process f.app.turn (ls ++ fs) = ls := by
    rw [process_append_of_accepted fun id hid => (h.locals id hid).2,
      process_eq_nil_of_unknown fun id hid => f.turn_foreign (h.remotes id hid).1, List.append_nil]
  have hsent : ls ≠ [] → f.app.sendMessage (ls ++ fs) = some ls := fun hne => by
    rw [sendMessage_of_accepted (h.core hne) (List.append_ne_nil_of_left_ne_nil hne fs), happ]
  ext1
  · rw [fst_sendMessage_eq]
    by_cases hne : ls = []
    · rw [if_neg fun hpos => hlocals.1 hpos hne]
      exact hne.symm
    · rw [if_pos (hlocals.2 hne), hsent hne]
      rfl
  · rw [snd_sendMessage_eq]
    by_cases hne : fs = []
    · rw [if_neg (fun hpos => hremotes.1 hpos.1 hne)]
      exact hne.symm
    · obtain ⟨hcore, hignored⟩ := h.proxy hne
      rw [if_pos ⟨hremotes.2 hne, fun hpos => by simp [hsent (hlocals.1 hpos)]⟩,
        sendMessage_of_accepted hcore (List.append_ne_nil_of_right_ne_nil ls hne),
        process_append_of_ignored hignored, process_eq_self fun id hid => (h.remotes id hid).2]
      rfl

/-- The receivers all get the message once, each where it lives, if and only if the local ones come
first, take it, and have stopped doubles in the mediaserver if there are others, which take it
there. -/
theorem delivered_iff_reaches (f : ModuleFactory) (receivers : ReceiverList) :
    Delivered f receivers ↔ ∃ ls fs, receivers.ids = ls ++ fs ∧ Reaches f ls fs := by
  constructor
  · intro h
    have hlocal : ∀ id ∈ receivers.ids, f.base.isLocal id = true →
        id ∈ (f.sendMessage receivers.ids).1 ∧ id ∉ (f.sendMessage receivers.ids).2 := by
      intro id hid hlocal
      have hcount := h id hid
      rw [if_pos hlocal, Prod.mk.injEq] at hcount
      exact ⟨List.count_pos_iff.1 (by omega), List.count_eq_zero.1 hcount.2⟩
    have hremote : ∀ id ∈ receivers.ids, f.base.isLocal id = false →
        id ∈ (f.sendMessage receivers.ids).2 := by
      intro id hid hlocal
      have hcount := h id hid
      rw [if_neg (by simp [hlocal]), Prod.mk.injEq] at hcount
      exact List.count_pos_iff.1 (by omega)
    obtain ⟨ls, fs, hids, hls, hfs⟩ := exists_append_of_served receivers.nodup
      (fun _ => f.turn_foreign)
      fun id hid hid' => by
        have hmem := (hlocal id hid hid').1
        rwa [(fst_sendMessage (List.ne_nil_of_mem hmem)).2] at hmem
    refine ⟨ls, fs, hids, hls, fun id hid => ⟨hfs id hid, ?_⟩, fun hne => ?_, fun hne => ?_⟩
    · have hmem := hremote id (hids ▸ List.mem_append_right ls hid) (hfs id hid)
      rw [(snd_sendMessage (List.ne_nil_of_mem hmem)).2] at hmem
      exact accepted_of_mem_process hmem
    · obtain ⟨id, hid⟩ := List.exists_mem_of_ne_nil ls hne
      have hmem := (hlocal id (hids ▸ List.mem_append_left fs hid) (hls id hid).1).1
      exact (fst_sendMessage (List.ne_nil_of_mem hmem)).1
    · obtain ⟨id, hid⟩ := List.exists_mem_of_ne_nil fs hne
      have hmem := hremote id (hids ▸ List.mem_append_right ls hid) (hfs id hid)
      obtain ⟨hcore, heq⟩ := snd_sendMessage (List.ne_nil_of_mem hmem)
      refine ⟨hcore, ?_⟩
      rw [heq, hids] at hmem
      refine ignored_of_mem_process hmem (fun hid' => ?_) fun id' hid' => ?_
      · exact absurd (hls id hid').1 (by simp [hfs id hid])
      · rw [← hids, ← heq]
        exact (hlocal id' (hids ▸ List.mem_append_left fs hid') (hls id' hid').1).2
  · rintro ⟨ls, fs, hids, h⟩ id hid
    have hn := receivers.nodup
    rw [hids] at hid hn ⊢
    rw [h.sendMessage_eq]
    obtain ⟨hnls, hnfs, hdisjoint⟩ := List.nodup_append.1 hn
    obtain hid | hid := List.mem_append.1 hid
    · rw [if_pos (h.locals id hid).1, List.count_eq_one_of_mem hnls hid,
        List.count_eq_zero.2 fun hid' => hdisjoint id hid id hid' rfl]
    · rw [if_neg (by simp [(h.remotes id hid).1]), List.count_eq_one_of_mem hnfs hid,
        List.count_eq_zero.2 fun hid' => hdisjoint id hid' id hid rfl]

/-- An application that runs the module `launcher`, and a mediaserver that runs `file`. -/
def twoModules : ModuleFactory where
  base := { mMainModuleId := "launcher" }
  app := { modules := fun id => if id = "launcher" then .accepted else .unknown }
  mediaserver := { modules := fun id => if id = "file" then .accepted else .unknown }
  foreign := by
    intro id hid
    apply if_neg
    rintro rfl
    exact absurd hid (by decide)

/-- With receivers of both applications, the core of the one that comes second in the list stops at
the first. -/
theorem mixed_list_cut :
    twoModules.base.isLocal "launcher" = true ∧ twoModules.base.isLocal "file" = false ∧
      twoModules.sendMessage ["file", "launcher"] = ([], ["file"]) ∧
      twoModules.sendMessage ["launcher", "file"] = (["launcher"], []) ∧
      ¬ Delivered twoModules ⟨["file", "launcher"], by decide⟩ ∧
      ¬ Delivered twoModules ⟨["launcher", "file"], by decide⟩ := by
  refine ⟨by decide, by decide, by decide, by decide, ?_, ?_⟩
  · exact fun h => absurd (h "launcher" (by decide)) (by decide)
  · exact fun h => absurd (h "file" (by decide)) (by decide)

end Kalinka.Launcher
