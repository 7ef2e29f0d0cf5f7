import Kalinka.Common.Mod.Dep

/-!
# Loading modules

`ModuleFactory::load` creates a module, whose `registerProcessors` enters the module's dependencies
in the graph, then loads the modules it depends on, and then starts its thread and waits for it.
The graph grows during the recursion.

What a module declares, and which modules the libraries know, is given.  Everything else that can
go wrong (another exception in `registerProcessors`, the devices, `pthread_create`, `waitStart`) is
decided anew each time from what has happened so far.  `load` has a fuel argument; `load_spec` says
how much is enough.
-/

namespace Kalinka

open Relation DirectedGraph DependencyGraph

/-- What happens while modules are loaded. -/
inductive LoadEvent
  | registered (id : String) (ok : Bool)
  | notStarted (id : String)
  | started (id : String)
  | waited (id : String) (ok : Bool)
  deriving DecidableEq, Repr

/-- The modules, and what they do depending on the events so far, last one first. -/
structure Modules where
  /-- the ids that `LibFactory::getModule` knows -/
  lib : List String
  /-- the arguments of the `Module::addDependency` calls in `registerProcessors` -/
  declares : String → List String
  /-- `some n`: something else in `registerProcessors` throws after `n` of these calls -/
  registers : List LoadEvent → String → Option ℕ := fun _ _ => none
  initDevs : List LoadEvent → String → Bool := fun _ _ => true
  createThread : List LoadEvent → String → Bool := fun _ _ => true
  waitStart : List LoadEvent → String → Bool := fun _ _ => true

/-- `ModuleFactory`, with the ids for the modules and their threads. -/
structure ModuleFactory where
  mModules : List String := []
  mDependency : Dependency := {}
  /-- the threads that `isStarted` finds in the scheduler -/
  threads : List String := []
  /-- `Scheduler::stop` was called -/
  stopped : Bool := false
  /-- last one first -/
  events : List LoadEvent := []

inductive LoadResult
  | done
  | thrown
  | noFuel
  deriving DecidableEq, Repr

/-- `Module::addDependency` of the module `id`; `false` when `BOOST_ASSERT` throws. -/
def Module.addDependency (backEdge : DependencyGraph → Bool) (id : String) (d : Dependency)
    (modid : String) : Bool × Dependency :=
  if modid = id then (true, d)
  else match d.addDependency backEdge id modid with
    | (.ok, d) => (true, d)
    | (.error, d) => (false, d)

/-- The `addDependency` calls of `registerProcessors`. -/
def Module.registerProcessors (backEdge : DependencyGraph → Bool) (id : String) (d : Dependency) :
    List String → Bool × Dependency
  | [] => (true, d)
  | modid :: rest =>
    match Module.addDependency backEdge id d modid with
    | (true, d) => Module.registerProcessors backEdge id d rest
    | (false, d) => (false, d)

namespace ModuleFactory

variable (backEdge : DependencyGraph → Bool) (env : Modules)

/-- `addModule`, `false` for an exception.  The dependencies declared before it stay. -/
def addModule (f : ModuleFactory) (id : String) : Bool × ModuleFactory :=
  let throws := env.registers f.events id
  let calls := match throws with
    | none => env.declares id
    | some n => (env.declares id).take n
  match Module.registerProcessors backEdge id f.mDependency calls with
  | (ok, d) =>
    if ok ∧ throws = none then
      (true, { f with
        mDependency := d
        mModules := f.mModules ++ [id]
        events := .registered id true :: f.events })
    else (false, { f with mDependency := d, events := .registered id false :: f.events })

/-- `getModule4Start`. -/
def getModule4Start (f : ModuleFactory) (id : String) : Bool × ModuleFactory :=
  if id = "" then (false, f)
  else if id ∈ f.mModules then (true, f)
  else if id ∈ env.lib then f.addModule backEdge env id
  else (false, f)

/-- `startModuleThread`.  A stopped scheduler ignores `startThread`, and then the assertion on
`isStarted` throws. -/
def startModuleThread (f : ModuleFactory) (id : String) : Bool × ModuleFactory :=
  if id ∈ f.threads then (true, f)
  else if env.initDevs f.events id ∧ f.stopped = false ∧ env.createThread f.events id then
    (true, { f with threads := id :: f.threads, events := .started id :: f.events })
  else (false, { f with events := .notStarted id :: f.events })

/-- `waitStart`. -/
def waitStart (f : ModuleFactory) (id : String) : LoadResult × ModuleFactory :=
  let ok := env.waitStart f.events id
  (if ok then .done else .thrown, { f with events := .waited id ok :: f.events })

/-- The loop over the dependencies, left by an exception. -/
def forDeps (load : ModuleFactory → String → LoadResult × ModuleFactory) (f : ModuleFactory) :
    List String → LoadResult × ModuleFactory
  | [] => (.done, f)
  | id :: rest =>
    match load f id with
    | (.done, f) => forDeps load f rest
    | out => out

/-- `load`. -/
def load : ℕ → ModuleFactory → String → LoadResult × ModuleFactory
  | 0, f, _ => (.noFuel, f)
  | fuel + 1, f, id =>
    match f.getModule4Start backEdge env id with
    | (false, f) => (.thrown, f)
    | (true, f) =>
      match f.forDeps (load fuel) (f.mDependency.getDependency id) with
      | (.done, f) =>
        match f.startModuleThread env id with
        | (true, f) => f.waitStart env id
        | (false, f) => (.thrown, f)
      | out => out

end ModuleFactory

/-- The dependencies that count: a module's declaration that it depends on itself does not. -/
def Modules.Declares (env : Modules) (id modid : String) : Prop :=
  modid ∈ env.declares id ∧ modid ≠ id

namespace ModuleFactory

variable {backEdge : DependencyGraph → Bool} {env : Modules}
variable {f f' : ModuleFactory} {id x y : String} {fuel : ℕ} {rc : LoadResult}

/-- A module was started once, and after all of its transitive dependencies had been started and
had passed `waitStart`. -/
def Good (env : Modules) : List LoadEvent → Prop
  | [] => True
  | .started id :: before =>
    .started id ∉ before ∧
      (∀ y, TransGen env.Declares id y → .started y ∈ before ∧ .waited y true ∈ before) ∧
      Good env before
  | _ :: before => Good env before

/-- What holds between the calls of `load`, whichever way they end. -/
structure Inv (env : Modules) (f : ModuleFactory) : Prop where
  wellFormed : f.mDependency.mGraph.WellFormed
  known : ∀ x ∈ f.mModules, x ∈ env.lib
  declared : ∀ x ∈ f.mModules, ∀ y, env.Declares x y → f.mDependency.mGraph.Edge x y
  threads : ∀ x, x ∈ f.threads ↔ .started x ∈ f.events
  good : Good env f.events

/-- The factory only ever gets more modules, dependencies and events. -/
structure Grows (f f' : ModuleFactory) : Prop where
  modules : ∀ x ∈ f.mModules, x ∈ f'.mModules
  edges : ∀ x y, f.mDependency.mGraph.Edge x y → f'.mDependency.mGraph.Edge x y
  events : ∀ e ∈ f.events, e ∈ f'.events

theorem Grows.refl (f : ModuleFactory) : Grows f f := ⟨fun _ => id, fun _ _ => id, fun _ => id⟩

theorem Grows.trans {f'' : ModuleFactory} (h : Grows f f') (h' : Grows f' f'') : Grows f f'' :=
  ⟨fun x hx => h'.modules x (h.modules x hx), fun x y hxy => h'.edges x y (h.edges x y hxy),
    fun e he => h'.events e (h.events e he)⟩

/-! ## Registration -/

/-- What a sequence of `Module::addDependency` calls of `id` does to the graph. -/
structure Registered (d : Dependency) (id : String) (calls : List String) (ok : Bool)
    (d' : Dependency) : Prop where
  wellFormed : d'.mGraph.WellFormed
  grows : ∀ x y, d.mGraph.Edge x y → d'.mGraph.Edge x y
  all : ok = true → ∀ y ∈ calls, y ≠ id → d'.mGraph.Edge id y

theorem registered_addDependency (hback : FindsCycles backEdge) {d : Dependency}
    (hw : d.mGraph.WellFormed) (id modid : String) :
    Registered d id [modid] (Module.addDependency backEdge id d modid).1
      (Module.addDependency backEdge id d modid).2 := by
  unfold Module.addDependency
  by_cases hid : modid = id
  · rw [if_pos hid]
    refine ⟨hw, fun _ _ h => h, fun _ y hy hne => absurd hid ?_⟩
    rwa [List.mem_singleton.1 hy] at hne
  · rw [if_neg hid]
    have hspec := Dependency.addSpec_addDependency hback hw (Ne.symm hid)
    split
    · rename_i d' heq
      rw [heq] at hspec
      have hadd := hspec.added rfl
      refine ⟨hspec.wellFormed, fun x y h => (hadd x y).2 (.inl h), fun _ y hy _ => ?_⟩
      rw [List.mem_singleton.1 hy]
      exact (hadd id modid).2 (.inr ⟨rfl, rfl⟩)
    · rename_i d' heq
      rw [heq] at hspec
      obtain rfl := hspec.unchanged rfl
      exact ⟨hw, fun _ _ h => h, fun h => by cases h⟩

theorem registered_registerProcessors (hback : FindsCycles backEdge) {d : Dependency}
    (hw : d.mGraph.WellFormed) (id : String) (calls : List String) :
    Registered d id calls (Module.registerProcessors backEdge id d calls).1
      (Module.registerProcessors backEdge id d calls).2 := by
  induction calls generalizing d with
  | nil => exact ⟨hw, fun _ _ h => h, fun _ _ hy => by cases hy⟩
  | cons modid rest ih =>
    have hone := registered_addDependency hback hw id modid
    unfold Module.registerProcessors
    split
    · rename_i d' heq
      rw [heq] at hone
      have hrest := ih hone.wellFormed
      refine ⟨hrest.wellFormed, fun x y h => hrest.grows x y (hone.grows x y h),
        fun hok y hy hne => ?_⟩
      rcases List.mem_cons.1 hy with rfl | hy
      · exact hrest.grows _ _ (hone.all rfl _ List.mem_cons_self hne)
      · exact hrest.all hok y hy hne
    · rename_i d' heq
      rw [heq] at hone
      exact ⟨hone.wellFormed, hone.grows, fun h => by cases h⟩

/-! ## The parts of `load` -/

/-- Each part keeps the invariant and only adds, whichever way it ends. -/
structure Keeps (env : Modules) (f f' : ModuleFactory) : Prop where
  inv : Inv env f'
  grows : Grows f f'

theorem Keeps.refl (h : Inv env f) : Keeps env f f := ⟨h, .refl f⟩

/-- An event that is no start leaves everything else as it is. -/
theorem Keeps.event (h : Inv env f) {e : LoadEvent} (he : ∀ x, e ≠ .started x) :
    Keeps env f { f with events := e :: f.events } := by
  refine ⟨⟨h.wellFormed, h.known, h.declared, fun x => ?_, ?_⟩,
    fun _ hx => hx, fun _ _ hxy => hxy, fun _ => List.mem_cons_of_mem _⟩
  · rw [h.threads x, List.mem_cons, or_iff_right (he x).symm]
  · cases e with
    | started x => exact absurd rfl (he x)
    | registered | notStarted | waited => exact h.good

theorem Keeps.trans {f'' : ModuleFactory} (h : Keeps env f f') (h' : Keeps env f' f'') :
    Keeps env f f'' := ⟨h'.inv, h.grows.trans h'.grows⟩

/-- The module was started, and it passed `waitStart` at some time. -/
def Up (f : ModuleFactory) (id : String) : Prop :=
  .started id ∈ f.events ∧ .waited id true ∈ f.events

theorem Up.grows (h : Up f id) (hg : Grows f f') : Up f' id :=
  ⟨hg.events _ h.1, hg.events _ h.2⟩

theorem keeps_addModule (hback : FindsCycles backEdge) (h : Inv env f) (hlib : id ∈ env.lib) :
    Keeps env f (f.addModule backEdge env id).2 ∧
      ((f.addModule backEdge env id).1 = true → id ∈ (f.addModule backEdge env id).2.mModules) := by
  unfold addModule
  extract_lets throws calls
  have hreg := registered_registerProcessors hback h.wellFormed id calls
  split
  rename_i ok d heq
  rw [heq] at hreg
  have hold : ∀ x ∈ f.mModules, ∀ y, env.Declares x y → d.mGraph.Edge x y := fun x hx y hxy =>
    hreg.grows x y (h.declared x hx y hxy)
  split
  · rename_i hok
    obtain ⟨rfl, hthrows⟩ := hok
    have hcalls : calls = env.declares id := by simp [calls, hthrows]
    have hnew : ∀ y, env.Declares id y → d.mGraph.Edge id y := fun y hy =>
      hreg.all rfl y (hcalls ▸ hy.1) hy.2
    have hinv : Inv env { f with mDependency := d, mModules := f.mModules ++ [id] } :=
      ⟨hreg.wellFormed, fun x hx => ?_, fun x hx => ?_, h.threads, h.good⟩
    · have hgrows : Grows f { f with mDependency := d, mModules := f.mModules ++ [id] } :=
        ⟨fun x hx => List.mem_append_left _ hx, hreg.grows, fun _ he => he⟩
      exact ⟨.trans ⟨hinv, hgrows⟩ (.event hinv (by simp)),
        fun _ => List.mem_append_right _ List.mem_cons_self⟩
    · rcases List.mem_append.1 hx with hx | hx
      · exact h.known x hx
      · exact List.mem_singleton.1 hx ▸ hlib
    · rcases List.mem_append.1 hx with hx | hx
      · exact hold x hx
      · exact List.mem_singleton.1 hx ▸ hnew
  · have hinv : Inv env { f with mDependency := d } :=
      ⟨hreg.wellFormed, h.known, hold, h.threads, h.good⟩
    have hgrows : Grows f { f with mDependency := d } :=
      ⟨fun _ hx => hx, hreg.grows, fun _ he => he⟩
    exact ⟨.trans ⟨hinv, hgrows⟩ (.event hinv (by simp)), fun hx => by cases hx⟩

theorem keeps_getModule4Start (hback : FindsCycles backEdge) (h : Inv env f) (id : String) :
    Keeps env f (f.getModule4Start backEdge env id).2 ∧
      ((f.getModule4Start backEdge env id).1 = true →
        id ∈ (f.getModule4Start backEdge env id).2.mModules) := by
  unfold getModule4Start
  split
  · exact ⟨.refl h, fun hx => by cases hx⟩
  split
  · exact ⟨.refl h, fun _ => ‹_›⟩
  split
  · exact keeps_addModule hback h ‹_›
  · exact ⟨.refl h, fun hx => by cases hx⟩

/-- What was started has its dependencies started and waited for, and so have these. -/
theorem Good.transitive {events : List LoadEvent} (h : Good env events)
    (hx : .started x ∈ events) (hxy : TransGen env.Declares x y) :
    .started y ∈ events ∧ .waited y true ∈ events := by
  induction events with
  | nil => cases hx
  | cons e before ih =>
    have hcons : .started y ∈ before ∧ .waited y true ∈ before →
        .started y ∈ e :: before ∧ .waited y true ∈ e :: before :=
      And.imp (List.mem_cons_of_mem _) (List.mem_cons_of_mem _)
    cases e with
    | started id =>
      obtain ⟨-, hdeps, hbefore⟩ := h
      rcases List.mem_cons.1 hx with heq | hx
      · obtain rfl := LoadEvent.started.inj heq
        exact hcons (hdeps y hxy)
      · exact hcons (ih hbefore hx)
    | registered id ok | notStarted id | waited id ok =>
      exact hcons (ih h (by simpa using hx))

theorem keeps_startModuleThread (h : Inv env f) (hdeps : ∀ y, env.Declares id y → Up f y) :
    Keeps env f (f.startModuleThread env id).2 ∧
      ((f.startModuleThread env id).1 = true →
        .started id ∈ (f.startModuleThread env id).2.events) := by
  unfold startModuleThread
  split
  · exact ⟨.refl h, fun _ => (h.threads id).1 ‹_›⟩
  rename_i hnot
  split
  · have hall : ∀ y, TransGen env.Declares id y → Up f y := by
      intro y hy
      obtain ⟨z, hz, hzy⟩ := TransGen.head'_iff.1 hy
      rcases reflTransGen_iff_eq_or_transGen.1 hzy with rfl | hzy
      · exact hdeps _ hz
      · exact h.good.transitive (hdeps z hz).1 hzy
    refine ⟨⟨⟨h.wellFormed, h.known, h.declared, fun x => ?_,
      fun hin => hnot ((h.threads id).2 hin), hall, h.good⟩,
      fun _ hx => hx, fun _ _ hxy => hxy, fun _ => List.mem_cons_of_mem _⟩,
      fun _ => List.mem_cons_self⟩
    rw [List.mem_cons, List.mem_cons, h.threads x]
    simp
  · exact ⟨.event h (by simp), fun hx => by cases hx⟩

theorem keeps_waitStart (h : Inv env f) (id : String) :
    Keeps env f (f.waitStart env id).2 ∧
      ((f.waitStart env id).1 = .done → .waited id true ∈ (f.waitStart env id).2.events) ∧
      (f.waitStart env id).1 ≠ .noFuel := by
  unfold waitStart
  extract_lets ok
  refine ⟨.event h (by simp), fun hx => ?_, ?_⟩
  · cases hok : ok
    · simp [hok] at hx
    · exact List.mem_cons_self
  · cases ok <;> simp

/-! ## `load` keeps the order -/

theorem keeps_forDeps {g : ModuleFactory → String → LoadResult × ModuleFactory}
    (hg : ∀ f id, Inv env f → Keeps env f (g f id).2 ∧ ((g f id).1 = .done → Up (g f id).2 id))
    (h : Inv env f) (deps : List String) :
    Keeps env f (f.forDeps g deps).2 ∧
      ((f.forDeps g deps).1 = .done → ∀ y ∈ deps, Up (f.forDeps g deps).2 y) := by
  induction deps generalizing f with
  | nil => exact ⟨.refl h, fun _ _ hy => by cases hy⟩
  | cons id rest ih =>
    obtain ⟨hkeeps, hup⟩ := hg f id h
    unfold forDeps
    split
    · rename_i f' heq
      rw [heq] at hkeeps hup
      obtain ⟨hkeeps', hup'⟩ := ih hkeeps.inv
      refine ⟨hkeeps.trans hkeeps', fun hdone y hy => ?_⟩
      rcases List.mem_cons.1 hy with rfl | hy
      · exact (hup rfl).grows hkeeps'.grows
      · exact hup' hdone y hy
    · rename_i hnot
      exact ⟨hkeeps, fun hdone => (hnot _ (Prod.ext hdone rfl)).elim⟩

/-- `load` keeps the invariant, and when it returns normally the module is up. -/
theorem keeps_load (hback : FindsCycles backEdge) (h : Inv env f) (fuel : Nat) (id : String) :
    Keeps env f (load backEdge env fuel f id).2 ∧
      ((load backEdge env fuel f id).1 = .done → Up (load backEdge env fuel f id).2 id) := by
  induction fuel generalizing f id with
  | zero => exact ⟨.refl h, fun hx => by cases hx⟩
  | succ fuel ih =>
    obtain ⟨hmod, hknown⟩ := keeps_getModule4Start hback h id
    unfold load
    split
    · rename_i f₁ heq
      rw [heq] at hmod
      exact ⟨hmod, fun hx => by cases hx⟩
    rename_i f₁ heq
    rw [heq] at hmod hknown
    obtain ⟨hdeps, hup⟩ := keeps_forDeps (fun f id hf => ih hf id) hmod.inv
      (f₁.mDependency.getDependency id)
    split
    · rename_i f₂ heq₂
      rw [heq₂] at hdeps hup
      have hall : ∀ y, env.Declares id y → Up f₂ y := fun y hy =>
        hup rfl y ((Dependency.mem_getDependency_iff hmod.inv.wellFormed).2
          (hmod.inv.declared id (hknown rfl) y hy))
      obtain ⟨hstart, hstarted⟩ := keeps_startModuleThread hdeps.inv hall
      split
      · rename_i f₃ heq₃
        rw [heq₃] at hstart hstarted
        obtain ⟨hwait, hwaited, -⟩ := keeps_waitStart hstart.inv id
        exact ⟨((hmod.trans hdeps).trans hstart).trans hwait, fun hdone =>
          ⟨hwait.grows.events _ (hstarted rfl), hwaited hdone⟩⟩
      · rename_i f₃ heq₃
        rw [heq₃] at hstart
        exact ⟨(hmod.trans hdeps).trans hstart, fun hx => by cases hx⟩
    · rename_i hnot
      exact ⟨hmod.trans hdeps, fun hdone => (hnot _ (Prod.ext hdone rfl)).elim⟩

/-! ## `load` terminates

The modules whose `load` is in progress form a path in the graph.  It has no cycle, so their number
is bounded by the number of modules in the libraries. -/

/-- The modules being loaded lead to the one that is loaded next. -/
structure Loading (f : ModuleFactory) (stack : List String) (id : String) : Prop where
  nodup : stack.Nodup
  known : ∀ x ∈ stack, x ∈ f.mModules
  path : ∀ x ∈ stack, TransGen f.mDependency.mGraph.Edge x id

theorem Loading.grows {stack : List String} (h : Loading f stack id) (hg : Grows f f') :
    Loading f' stack id :=
  ⟨h.nodup, fun x hx => hg.modules x (h.known x hx),
    fun x hx => TransGen.mono hg.edges _ _ (h.path x hx)⟩

theorem not_transGen_edge_self {g : DependencyGraph} (hw : g.WellFormed) (x : String) :
    ¬ TransGen g.Edge x x := by
  intro h
  obtain ⟨y, ⟨u, v, hu, hv, huv⟩, hyx⟩ := TransGen.head'_iff.1 h
  rw [hw.reflTransGen_edge_iff hv hu] at hyx
  exact hw.acyclic u (TransGen.head' huv hyx)

/-- A dependency of the module on top is loaded next. -/
theorem Loading.push {stack : List String} (h : Loading f stack id) (hinv : Inv env f)
    (hknown : id ∈ f.mModules) (hdep : y ∈ f.mDependency.getDependency id) :
    Loading f (id :: stack) y := by
  have hedge := (Dependency.mem_getDependency_iff hinv.wellFormed).1 hdep
  refine ⟨List.nodup_cons.2 ⟨fun hmem => ?_, h.nodup⟩, fun x hx => ?_, fun x hx => ?_⟩
  · exact not_transGen_edge_self hinv.wellFormed id (h.path id hmem)
  · rcases List.mem_cons.1 hx with rfl | hx
    · exact hknown
    · exact h.known x hx
  · rcases List.mem_cons.1 hx with rfl | hx
    · exact .single hedge
    · exact (h.path x hx).tail hedge

theorem Loading.length_le {stack : List String} (h : Loading f stack id) (hinv : Inv env f) :
    stack.length ≤ env.lib.length :=
  (h.nodup.subperm fun x hx => hinv.known x (h.known x hx)).length_le

theorem forDeps_ne_noFuel {g : ModuleFactory → String → LoadResult × ModuleFactory}
    {stack deps : List String}
    (hg : ∀ f id, Inv env f → Keeps env f (g f id).2)
    (hfuel : ∀ f id, Inv env f → Loading f stack id → (g f id).1 ≠ .noFuel)
    (h : Inv env f) (hload : ∀ y ∈ deps, Loading f stack y) : (f.forDeps g deps).1 ≠ .noFuel := by
  induction deps generalizing f with
  | nil => simp [forDeps]
  | cons id rest ih =>
    have hkeeps := hg f id h
    have hne := hfuel f id h (hload id List.mem_cons_self)
    unfold forDeps
    split
    · rename_i f' heq
      rw [heq] at hkeeps
      exact ih hkeeps.inv fun y hy => (hload y (List.mem_cons_of_mem _ hy)).grows hkeeps.grows
    · exact hne

theorem load_ne_noFuel (hback : FindsCycles backEdge) {stack : List String} (h : Inv env f)
    (hload : Loading f stack id) (hfuel : env.lib.length < fuel + stack.length) :
    (load backEdge env fuel f id).1 ≠ .noFuel := by
  induction fuel generalizing f id stack with
  | zero => exact absurd (hload.length_le h) (by omega)
  | succ fuel ih =>
    obtain ⟨hmod, hknown⟩ := keeps_getModule4Start hback h id
    unfold load
    split
    · simp
    rename_i f₁ heq
    rw [heq] at hmod hknown
    have hdeps := forDeps_ne_noFuel (fun f id hf => (keeps_load hback hf fuel id).1)
      (fun f y hf hy => ih hf hy (by rw [List.length_cons]; omega)) hmod.inv
      (fun y hy => (hload.grows hmod.grows).push hmod.inv (hknown rfl) hy)
    split
    · split
      · unfold waitStart
        extract_lets ok
        cases ok <;> simp
      · simp
    · exact hdeps

theorem forDeps_congr {g g' : ModuleFactory → String → LoadResult × ModuleFactory}
    (hg : ∀ f id, (g f id).1 ≠ .noFuel → g' f id = g f id) {deps : List String}
    (hne : (f.forDeps g deps).1 ≠ .noFuel) : f.forDeps g' deps = f.forDeps g deps := by
  induction deps generalizing f with
  | nil => rfl
  | cons id rest ih =>
    have hfirst : (g f id).1 ≠ .noFuel := by
      intro hno
      apply hne
      unfold forDeps
      split
      · rename_i f' heq
        simp [heq] at hno
      · exact hno
    unfold forDeps at hne ⊢
    rw [hg f id hfirst]
    split
    · rename_i f' heq
      rw [heq] at hne
      exact ih hne
    · rfl

/-- More fuel does not change a result. -/
theorem load_succ (hne : (load backEdge env fuel f id).1 ≠ .noFuel) :
    load backEdge env (fuel + 1) f id = load backEdge env fuel f id := by
  induction fuel generalizing f id with
  | zero => exact absurd rfl hne
  | succ fuel ih =>
    unfold load at hne ⊢
    split
    · rfl
    rename_i f₁ heq
    rw [heq] at hne
    rw [forDeps_congr (fun f id h => ih h)]
    intro hno
    apply hne
    dsimp only
    split
    · rename_i f₂ heq₂
      simp [heq₂] at hno
    · exact hno

/-! ## What `load` does -/

/-- The state in which a factory is after loading some modules one after the other. -/
inductive Reachable (backEdge : DependencyGraph → Bool) (env : Modules) : ModuleFactory → Prop
  | fresh (stopped : Bool) : Reachable backEdge env { stopped }
  | load {f : ModuleFactory} (h : Reachable backEdge env f) (id : String) :
    Reachable backEdge env (load backEdge env (env.lib.length + 1) f id).2

theorem inv_fresh (stopped : Bool) : Inv env { stopped } where
  wellFormed := wellFormed_nil
  known _ hx := by cases hx
  declared _ hx := by cases hx
  threads x := by simp
  good := trivial

theorem Reachable.inv (hback : FindsCycles backEdge) (h : Reachable backEdge env f) :
    Inv env f := by
  induction h with
  | fresh stopped => exact inv_fresh stopped
  | load _ id ih => exact (keeps_load hback ih _ id).1.inv

theorem Good.suffix {after before : List LoadEvent} (h : Good env (after ++ before)) :
    Good env before := by
  induction after with
  | nil => exact h
  | cons e after ih =>
    cases e with
    | started id => exact ih h.2.2
    | registered | notStarted | waited => exact ih h

theorem Good.count_le {events : List LoadEvent} (h : Good env events) (x : String) :
    events.count (.started x) ≤ 1 := by
  induction events with
  | nil => exact Nat.zero_le 1
  | cons e before ih =>
    by_cases he : e = .started x
    · subst he
      have hzero : before.count (.started x) = 0 := List.count_eq_zero_of_not_mem h.1
      have hone : (.started x :: before).count (.started x) = 1 := by
        rw [List.count_cons_self, hzero]
      exact Nat.le_of_eq hone
    · rw [List.count_cons_of_ne he]
      exact ih (show Good env ([e] ++ before) from h).suffix

/-- A started module lies on no cycle, nor does it lead to one. -/
theorem Good.not_cycle {events : List LoadEvent} (h : Good env events) (hx : .started x ∈ events)
    (hxy : ReflTransGen env.Declares x y) : ¬ TransGen env.Declares y y := by
  intro hcycle
  have hy : .started y ∈ events := by
    rcases reflTransGen_iff_eq_or_transGen.1 hxy with rfl | hxy
    · exact hx
    · exact (h.transitive hx hxy).1
  obtain ⟨after, before, rfl⟩ := List.append_of_mem hy
  obtain ⟨hnot, hdeps, -⟩ := h.suffix
  exact hnot (hdeps y hcycle).1

/-- The result `rc` and the factory `f` after `load(id)`.  The events are in reverse order. -/
structure LoadSpec (env : Modules) (id : String) (rc : LoadResult) (f : ModuleFactory) : Prop where
  terminates : rc ≠ .noFuel
  order : rc = .done → ∃ after before, f.events = after ++ .started id :: before ∧
    ∀ y, TransGen env.Declares id y → .started y ∈ before ∧ .waited y true ∈ before
  atMostOnce : ∀ x, f.events.count (.started x) ≤ 1
  once : rc = .done → ∀ y, ReflTransGen env.Declares id y → f.events.count (.started y) = 1
  cycle : (∃ c, ReflTransGen env.Declares id c ∧ TransGen env.Declares c c) →
    rc = .thrown ∧ .started id ∉ f.events

/-- In a factory that has loaded any modules before, `load(id)` terminates, whatever is declared
and whatever fails. -/
theorem load_spec (hback : FindsCycles backEdge) (h : Reachable backEdge env f) (id : String)
    (hfuel : env.lib.length < fuel) :
    load backEdge env fuel f id = load backEdge env (env.lib.length + 1) f id ∧
      LoadSpec env id (load backEdge env fuel f id).1 (load backEdge env fuel f id).2 := by
  have hinv := h.inv hback
  have hload : Loading f [] id :=
    ⟨List.nodup_nil, by simp, by simp⟩
  have hterm : ∀ n, env.lib.length < n → (load backEdge env n f id).1 ≠ .noFuel := fun n hn =>
    load_ne_noFuel hback hinv hload hn
  refine ⟨?_, ?_⟩
  · obtain ⟨n, rfl⟩ := Nat.exists_eq_add_of_le (Nat.succ_le_of_lt hfuel)
    clear hfuel
    induction n with
    | zero => rfl
    | succ n ih => rw [← Nat.add_assoc, load_succ (hterm _ (by omega)), ih]
  obtain ⟨⟨hinv', -⟩, hup⟩ := keeps_load hback hinv fuel id
  refine ⟨hterm fuel hfuel, fun hdone => ?_, hinv'.good.count_le, fun hdone y hy => ?_, ?_⟩
  · obtain ⟨after, before, heq⟩ := List.append_of_mem (hup hdone).1
    refine ⟨after, before, heq, ?_⟩
    have hgood := hinv'.good
    rw [heq] at hgood
    exact hgood.suffix.2.1
  · refine Nat.le_antisymm (hinv'.good.count_le y) (List.one_le_count_iff.2 ?_)
    rcases reflTransGen_iff_eq_or_transGen.1 hy with rfl | hy
    · exact (hup hdone).1
    · exact (hinv'.good.transitive (hup hdone).1 hy).1
  · rintro ⟨c, hc, hcycle⟩
    have hnot := fun hstarted => hinv'.good.not_cycle hstarted hc hcycle
    refine ⟨?_, hnot⟩
    cases hrc : (load backEdge env fuel f id).1 with
    | done => exact absurd (hup hrc).1 hnot
    | thrown => rfl
    | noFuel => exact absurd hrc (hterm fuel hfuel)

/-- `a` over `b` and `c`, and these over `d`. -/
def diamond : Modules where
  lib := ["a", "b", "c", "d"]
  declares
    | "a" => ["b", "c"]
    | "b" | "c" => ["d"]
    | _ => []

theorem load_spec_diamond :
    let out := load Dependency.depthFirstSearch diamond 5 {} "a"
    out.1 = .done ∧ LoadSpec diamond "a" out.1 out.2 :=
  ⟨by decide, (load_spec Dependency.findsCycles_depthFirstSearch (.fresh false) "a" (by decide)).2⟩

/-- A module that declares a dependency on itself is started. -/
theorem load_self_dependency :
    let env : Modules := { lib := ["m"], declares := fun _ => ["m"] }
    let out := load Dependency.depthFirstSearch env 2 {} "m"
    TransGen (fun id modid => modid ∈ env.declares id) "m" "m" ∧
      out.1 = .done ∧ .started "m" ∈ out.2.events :=
  ⟨.single (by simp), by decide, by decide⟩

end ModuleFactory

end Kalinka
