import Kalinka.Common.BaseResources

/-!
# The queries by type

`hasDev` and `getResourceByType` search the same containers, each in its own way: the first stops at
what it finds, takes a container of the type for a find whatever is in it, and otherwise asks for
the `TYPE` of a device.  `getResourceByUUID` looks through all devices below the container.

`queries_agree` says that the answers fit together where every device has a UUID and no container is
empty all the way down.
-/

namespace Kalinka

namespace ResourceHeap

/-- `IsDevHasParam` with `TYPE`. -/
def isDevHasType (s : ResourceHeap) (type : String) (d : ℕ) : Bool :=
  (s.dev d).type = type && (s.dev d).uuid.isSome

/-- `none` when the fuel does not suffice. -/
def hasDev (s : ResourceHeap) : ℕ → String → ℕ → Option Bool
  | 0, _, _ => none
  | fuel + 1, type, c =>
    if type = (s.res c).mType then some true
    else if (s.res c).mDevlist.any (s.isDevHasType type) then some true
    else (s.res c).mReslist.anyM fun r => hasDev s fuel type r

/-- There is a device with a UUID in the container or below it. -/
def HoldsDev (s : ResourceHeap) (c : ℕ) : Prop :=
  ∃ v, Unfolds s.sub [c] v ∧ v.flatMap s.visible ≠ []

variable {s : ResourceHeap} {fuel c root : ℕ} {type : String} {v list : List ℕ}
variable {ls : List (List ℕ)} {rs : List ℕ}

/-- Searches that find something exactly where a list is not empty, one after the other. -/
theorem anyM_eq_of_forall₂ {f : ℕ → Option Bool}
    (h : List.Forall₂ (fun r l => f r = some (decide (l ≠ []))) rs ls) :
    rs.anyM f = some (decide (ls.flatten ≠ [])) := by
  induction h with
  | nil => rfl
  | @cons r l rs ls hr _ ih =>
    rw [List.anyM, hr]
    by_cases hl : l = []
    · subst hl
      simpa using ih
    · simp [hl]

theorem own_ne_nil_iff (hne : type ≠ (s.res c).mType) :
    s.own type c ≠ [] ↔ (s.res c).mDevlist.any (s.isDevHasType type) = true := by
  rw [own, if_neg hne, ne_eq, List.filter_eq_nil_iff, List.any_eq_true]
  simp only [isDevHasType, not_forall, not_not, exists_prop]

/-- Where the query by type returns, `hasDev` tells whether it found something. -/
theorem hasDev_eq (h : s.getResourceByType fuel type c = some list) (hv : Unfolds s.sub [c] v)
    (hholds : ∀ x ∈ v, s.HoldsDev x) : s.hasDev fuel type c = some (decide (list ≠ [])) := by
  induction fuel generalizing c type list v with
  | zero => nomatch h
  | succ fuel ih =>
    rw [hasDev]
    by_cases ht : type = (s.res c).mType
    · obtain ⟨w, hw, -, heq⟩ := unfolds_of_getResourceByType h
      obtain ⟨w', hw', hne⟩ := hholds c (hv.mem_of_mem List.mem_cons_self)
      obtain rfl := hw.unique hw'
      rw [if_pos ht, heq ht, decide_eq_true hne]
    · obtain ⟨ls, hls, rfl⟩ := getResourceByType_succ.1 h
      simp only [if_neg ht] at hls
      have hown := own_ne_nil_iff ht
      by_cases hany : (s.res c).mDevlist.any (s.isDevHasType type) = true
      · have hne := hown.2 hany
        rw [if_neg ht, if_pos hany, decide_eq_true (by simp [hne])]
      · have hnil : s.own type c = [] := not_not.1 (mt hown.1 hany)
        rw [if_neg ht, if_neg hany, hnil, List.nil_append]
        apply anyM_eq_of_forall₂
        obtain ⟨below, hbelow, rfl⟩ := unfolds_singleton_iff.1 hv
        -- each of the containers in `c` is visited, with all that is below it
        have hsub : ∀ r ∈ s.sub c, ∃ w, Unfolds s.sub [r] w ∧ ∀ x ∈ w, s.HoldsDev x := by
          intro r hr
          obtain ⟨w, hw, hsublist⟩ := hbelow.exists_sublist (hbelow.mem_of_mem hr)
          refine ⟨w, hw, fun x hx => hholds x ?_⟩
          exact List.mem_cons_of_mem _ (hsublist.subset hx)
        apply List.forall₂_iff_zip.2
        refine ⟨hls.length_eq, fun {r l} hrl => ?_⟩
        obtain ⟨w, hw, hx⟩ := hsub r (List.of_mem_zip hrl).1
        exact ih ((List.forall₂_iff_zip.1 hls).2 hrl) hw hx

/-- A device that some query returns is found by its UUID, if no other one has it. -/
theorem getResourceByUUID_eq {d : ℕ} {uuid : String}
    (hlist : s.getResourceByType fuel type c = some list) (hd : d ∈ list)
    (huuid : (s.dev d).uuid = some uuid) {all : List ℕ}
    (hall : s.getResourceByType fuel (s.res c).mType c = some all)
    (hown : ∀ e ∈ all, (s.dev e).uuid = (s.dev d).uuid → e = d) :
    s.getResourceByUUID fuel uuid c = some (some d) := by
  obtain ⟨v, hv, hsub, -⟩ := unfolds_of_getResourceByType hlist
  obtain ⟨v', hv', -, heq⟩ := unfolds_of_getResourceByType hall
  obtain rfl := hv.unique hv'
  have hmem : d ∈ all := heq rfl ▸ hsub.subset hd
  rw [getResourceByUUID, hall, Option.map_some]
  cases hfind : all.find? fun e => (s.dev e).uuid = some uuid with
  | none =>
    have hnone := List.find?_eq_none.1 hfind d hmem
    exact absurd (decide_eq_true huuid) hnone
  | some e =>
    have he : (s.dev e).uuid = some uuid := by simpa using List.find?_some hfind
    rw [hown e (List.mem_of_find?_eq_some hfind) (he.trans huuid.symm)]

/-- The containers below `root` are nested finitely, every device there has a UUID of its own, and
every container has a device somewhere: the three queries agree, for every type. -/
theorem queries_agree (hv : Unfolds s.sub [root] v)
    (huuid : ∀ d ∈ v.flatMap s.devs, (s.dev d).uuid ≠ none)
    (hdistinct : ∀ d ∈ v.flatMap s.devs, ∀ e ∈ v.flatMap s.devs,
      (s.dev d).uuid = (s.dev e).uuid → d = e)
    (hholds : ∀ c ∈ v, ∃ w, Unfolds s.sub [c] w ∧ w.flatMap s.devs ≠ []) (type : String) :
    ∃ enough, ∀ fuel, enough ≤ fuel → ∃ list, s.getResourceByType fuel type root = some list ∧
      s.hasDev fuel type root = some (decide (list ≠ [])) ∧
      ∀ d ∈ list, ∃ uuid, (s.dev d).uuid = some uuid ∧
        s.getResourceByUUID fuel uuid root = some (some d) := by
  have hvisible : ∀ x ∈ v, s.visible x = s.devs x := by
    intro x hx
    apply List.filter_eq_self.2
    intro d hd
    exact Option.isSome_iff_ne_none.2 (huuid d (List.mem_flatMap.2 ⟨x, hx, hd⟩))
  have hall : v.flatMap s.visible = v.flatMap s.devs := List.flatMap_congr hvisible
  refine ⟨v.length, fun fuel hfuel => ?_⟩
  have hreturns := exists_getResourceByType hv hfuel List.mem_cons_self
  obtain ⟨list, hlist⟩ := hreturns type
  obtain ⟨all, hquery⟩ := hreturns (s.res root).mType
  refine ⟨list, hlist, hasDev_eq hlist hv fun c hc => ?_, fun d hd => ?_⟩
  · obtain ⟨w, hw, hne⟩ := hholds c hc
    obtain ⟨w', hw', hsub⟩ := hv.exists_sublist hc
    obtain rfl := hw.unique hw'
    refine ⟨w, hw, ?_⟩
    rwa [List.flatMap_congr fun x hx => hvisible x (hsub.subset hx)]
  · obtain ⟨w, hw, hsub, -⟩ := unfolds_of_getResourceByType hlist
    obtain rfl := hv.unique hw
    have hmem : d ∈ v.flatMap s.devs := hall ▸ hsub.subset hd
    obtain ⟨uuid, hd'⟩ := Option.ne_none_iff_exists'.1 (huuid d hmem)
    refine ⟨uuid, hd', getResourceByUUID_eq hlist hd hd' hquery fun e he heq => ?_⟩
    obtain ⟨w, hw, -, heq'⟩ := unfolds_of_getResourceByType hquery
    obtain rfl := hv.unique hw
    exact hdistinct e (hall ▸ heq' rfl ▸ he) d hmem heq

/-- The bus in the main container, and a network card in the one of its module. -/
theorem queries_agree_net :
    let s : ResourceHeap := {
      dev := fun d => if d = 0 then { cls := .pciBus, type := devTypePCIBus, uuid := some "bus" }
        else { cls := .net, type := "net", uuid := some "card" }
      res := fun c => if c = 0 then { mType := "base", mDevlist := [0], mReslist := [1] }
        else { mType := "net", mDevlist := [1] } }
    ∃ enough, ∀ fuel, enough ≤ fuel → ∃ list, s.getResourceByType fuel "net" 0 = some list ∧
      s.hasDev fuel "net" 0 = some (decide (list ≠ [])) ∧
      ∀ d ∈ list, ∃ uuid, (s.dev d).uuid = some uuid ∧
        s.getResourceByUUID fuel uuid 0 = some (some d) := by
  intro s
  have hnet : Unfolds s.sub [1] [1] := unfolds_singleton_iff.2 ⟨[], .nil, rfl⟩
  have hall : Unfolds s.sub [0] [0, 1] := unfolds_singleton_iff.2 ⟨[1], hnet, rfl⟩
  apply queries_agree hall
  · decide
  · decide
  · intro c hc
    obtain rfl | hc := List.mem_cons.1 hc
    · exact ⟨[0, 1], hall, by decide⟩
    · obtain rfl := List.mem_singleton.1 hc
      exact ⟨[1], hnet, by decide⟩

end ResourceHeap

end Kalinka
