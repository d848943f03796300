import BundlePackaging.Finishing

/-!
# What finishing adds to a package

The chain of injectors for a standalone package sets the variant targeting and the kind, stamps the
manifest, and puts entries at three paths, each if there is something to put there.  Everything else
stays.

## Main definitions

* `injectedPaths` — the three paths.
* `BundleMetadata.paths` — those of them at which a bundle provides a content.
* `BundleMetadata.provided` — the entries that are put there.
* `Injector.IsStandalone` — a step that occurs in such a chain.

## Main results

* `filter_isDex_applyInjectors`, `nodup_paths_applyInjectors` — any chain of such steps leaves the
  code segments alone, and the paths distinct.
* `applyInjectors_standaloneInjectors` — the chain as one change after the other.
* `entries_finished`, `mem_paths_finished`, `mem_entries_finished`, `targeting_finished` — what a
  finished package has.
* `finished_eq`, `Fragment.manifest_withOptionalStamp` — what finishing leaves as it is.
-/

namespace BundlePackaging

variable {f : Fragment} {q : EntryPath} {e : Entry} {c : Option Content} {restrictV3 : Bool}
  {stamp : Option String} {metadata : BundleMetadata}

/-! ### One entry -/

namespace Fragment

theorem targeting_withOptionalEntry : (f.withOptionalEntry q c).targeting = f.targeting := by
  cases c <;> rfl

/-- An entry that is no code segment leaves the code segments as they are. -/
theorem filter_isDex_withOptionalEntry (h : q.isDex = false) :
    (f.withOptionalEntry q c).entries.filter (·.path.isDex) =
      f.entries.filter (·.path.isDex) := by
  cases c with
  | none => rfl
  | some content =>
    rw [withOptionalEntry, withEntry, List.filter_append, List.filter_filter,
      List.filter_cons_of_neg (by simp [h]), List.filter_nil, List.append_nil]
    refine List.filter_congr fun e _ => ?_
    by_cases he : e.path = q
    · simp [he, h]
    · simp [he]

/-- An entry takes the place of all entries at its path, so distinct paths stay distinct. -/
theorem nodup_paths_withOptionalEntry (h : f.paths.Nodup) :
    (f.withOptionalEntry q c).paths.Nodup := by
  cases c with
  | none => exact h
  | some content =>
    rw [withOptionalEntry, paths_withEntry, List.nodup_append]
    refine ⟨h.filter _, List.pairwise_singleton _ q, ?_⟩
    intro x hx y hy
    rw [List.mem_filter] at hx
    rw [List.mem_singleton] at hy
    rw [hy]
    exact of_decide_eq_true hx.2

/-- Entries with distinct paths that are added one by one take the place of all entries at these
paths. -/
theorem entries_foldl_withEntry {es : List Entry} (h : (es.map (·.path)).Nodup) (f : Fragment) :
    (es.foldl withEntry f).entries = f.entries.filter (·.path ∉ es.map (·.path)) ++ es := by
  induction es generalizing f with
  | nil =>
    rw [List.append_nil, List.filter_eq_self.2 (by simp)]
    rfl
  | cons e es ih =>
    obtain ⟨he, hes⟩ := List.nodup_cons.1 h
    have hstays : [e].filter (·.path ∉ es.map (·.path)) = [e] := by simpa using he
    rw [List.foldl_cons, ih hes, withEntry, List.filter_append, hstays, List.filter_filter,
      List.append_assoc, List.singleton_append]
    simp only [List.map_cons, List.mem_cons, not_or, Bool.decide_and, Bool.and_comm, ne_eq]

/-- The fragment with the source of the package stamped into its manifest, if there is one. -/
def withOptionalStamp (f : Fragment) : Option String → Fragment
  | none => f
  | some source => f.withStamp source

theorem entries_withOptionalStamp : (f.withOptionalStamp stamp).entries = f.entries := by
  cases stamp <;> rfl

theorem targeting_withOptionalStamp : (f.withOptionalStamp stamp).targeting = f.targeting := by
  cases stamp <;> rfl

end Fragment

/-! ### Any chain of steps -/

/-- A step of some chain for standalone packages. -/
def Injector.IsStandalone (i : Injector) : Prop :=
  ∃ restrictV3 stamp metadata, i ∈ standaloneInjectors restrictV3 stamp metadata

namespace Injector.IsStandalone

variable {i : Injector}

/-- All that a step does to the entries is to put entries at the three paths. -/
theorem entries_apply (h : i.IsStandalone) : ∃ token profile profileMetadata, ∀ f,
    (i.apply f).entries = ((f.withOptionalEntry codeTransparencyPath token).withProfiles profile
      profileMetadata).entries := by
  obtain ⟨restrictV3, stamp, metadata, hi⟩ := h
  unfold standaloneInjectors at hi
  simp only [List.mem_append, List.mem_singleton, Option.mem_toList, Option.map_eq_some_iff] at hi
  rcases hi with ((rfl | ⟨source, -, rfl⟩) | ⟨token, -, rfl⟩) | hprofiles
  · exact ⟨none, none, none, fun _ => rfl⟩
  · exact ⟨none, none, none, fun _ => rfl⟩
  · exact ⟨some token, none, none, fun _ => rfl⟩
  · split at hprofiles
    · obtain rfl := List.mem_singleton.1 hprofiles
      exact ⟨none, metadata.baselineProfile, metadata.baselineProfileMetadata, fun _ => rfl⟩
    · cases hprofiles

theorem filter_isDex_apply (h : i.IsStandalone) (f : Fragment) :
    (i.apply f).entries.filter (·.path.isDex) = f.entries.filter (·.path.isDex) := by
  obtain ⟨token, profile, profileMetadata, hentries⟩ := h.entries_apply
  rw [hentries, Fragment.withProfiles, Fragment.filter_isDex_withOptionalEntry rfl,
    Fragment.filter_isDex_withOptionalEntry rfl, Fragment.filter_isDex_withOptionalEntry rfl]

theorem nodup_paths_apply (h : i.IsStandalone) (hf : f.paths.Nodup) : (i.apply f).paths.Nodup := by
  obtain ⟨token, profile, profileMetadata, hentries⟩ := h.entries_apply
  rw [Fragment.paths, hentries]
  apply Fragment.nodup_paths_withOptionalEntry
  apply Fragment.nodup_paths_withOptionalEntry
  exact Fragment.nodup_paths_withOptionalEntry hf

end Injector.IsStandalone

/-- A chain of steps leaves the code segments as they are. -/
theorem filter_isDex_applyInjectors {chain : List Injector} (h : ∀ i ∈ chain, i.IsStandalone)
    (f : Fragment) :
    (applyInjectors chain f).entries.filter (·.path.isDex) = f.entries.filter (·.path.isDex) := by
  induction chain generalizing f with
  | nil => rfl
  | cons i chain ih =>
    obtain ⟨hi, hchain⟩ := List.forall_mem_cons.1 h
    exact (ih hchain (i.apply f)).trans (hi.filter_isDex_apply f)

/-- A chain of steps leaves distinct paths distinct. -/
theorem nodup_paths_applyInjectors {chain : List Injector} (h : ∀ i ∈ chain, i.IsStandalone)
    (hf : f.paths.Nodup) : (applyInjectors chain f).paths.Nodup := by
  induction chain generalizing f with
  | nil => exact hf
  | cons i chain ih =>
    obtain ⟨hi, hchain⟩ := List.forall_mem_cons.1 h
    exact ih hchain (hi.nodup_paths_apply hf)

theorem isStandalone_of_mem {i : Injector}
    (h : i ∈ standaloneInjectors restrictV3 stamp metadata) : i.IsStandalone :=
  ⟨restrictV3, stamp, metadata, h⟩

/-! ### The chain -/

theorem applyInjectors_append (chain chain' : List Injector) (f : Fragment) :
    applyInjectors (chain ++ chain') f = applyInjectors chain' (applyInjectors chain f) :=
  List.foldl_append

/-- The chain for standalone packages, as one change after the other. -/
theorem applyInjectors_standaloneInjectors (restrictV3 : Bool) (stamp : Option String)
    (metadata : BundleMetadata) (f : Fragment) :
    applyInjectors (standaloneInjectors restrictV3 stamp metadata) f =
      (((f.asStandalone restrictV3).withOptionalStamp stamp).withOptionalEntry codeTransparencyPath
        metadata.codeTransparency).withProfiles metadata.baselineProfile
          metadata.baselineProfileMetadata := by
  have hstamp (g : Fragment) : applyInjectors (stamp.map fun source =>
      (⟨"source stamp", (·.withStamp source)⟩ : Injector)).toList g =
        g.withOptionalStamp stamp := by
    cases stamp <;> rfl
  have htoken (g : Fragment) : applyInjectors (metadata.codeTransparency.map fun token =>
      (⟨"code transparency", (·.withTransparency token)⟩ : Injector)).toList g =
        g.withOptionalEntry codeTransparencyPath metadata.codeTransparency := by
    cases metadata.codeTransparency <;> rfl
  -- without a profile and without its metadata there is no step, and the step would do nothing
  have hprofiles (g : Fragment) : applyInjectors
      (if metadata.baselineProfile.isSome || metadata.baselineProfileMetadata.isSome then
        [⟨"baseline profiles",
          (·.withProfiles metadata.baselineProfile metadata.baselineProfileMetadata)⟩]
      else []) g = g.withProfiles metadata.baselineProfile metadata.baselineProfileMetadata := by
    cases metadata.baselineProfile <;> cases metadata.baselineProfileMetadata <;> rfl
  unfold standaloneInjectors
  rw [applyInjectors_append, applyInjectors_append, applyInjectors_append, hprofiles, htoken,
    hstamp]
  rfl

/-! ### Finished packages -/

/-- The paths at which finishing may put entries. -/
def injectedPaths : List EntryPath :=
  [codeTransparencyPath, baselineProfilePath, baselineProfileMetadataPath]

/-- The paths at which finishing puts entries. -/
def BundleMetadata.paths (metadata : BundleMetadata) : List EntryPath :=
  [(codeTransparencyPath, metadata.codeTransparency),
    (baselineProfilePath, metadata.baselineProfile),
    (baselineProfileMetadataPath, metadata.baselineProfileMetadata)].filterMap fun x =>
      x.2.map fun _ => x.1

/-- The entries that finishing puts there. -/
def BundleMetadata.provided (metadata : BundleMetadata) : List Entry :=
  [(codeTransparencyPath, metadata.codeTransparency),
    (baselineProfilePath, metadata.baselineProfile),
    (baselineProfileMetadataPath, metadata.baselineProfileMetadata)].filterMap fun x =>
      x.2.map fun c => ⟨x.1, c, .compressed⟩

namespace BundleMetadata

theorem map_path_provided (metadata : BundleMetadata) :
    metadata.provided.map (·.path) = metadata.paths := by
  obtain ⟨token, profile, profileMetadata⟩ := metadata
  cases token <;> cases profile <;> cases profileMetadata <;> rfl

theorem paths_sublist (metadata : BundleMetadata) : metadata.paths.Sublist injectedPaths := by
  obtain ⟨token, profile, profileMetadata⟩ := metadata
  cases token <;> cases profile <;> cases profileMetadata <;>
    simp [paths, injectedPaths]

theorem paths_subset (metadata : BundleMetadata) : metadata.paths ⊆ injectedPaths :=
  metadata.paths_sublist.subset

theorem nodup_paths (metadata : BundleMetadata) : metadata.paths.Nodup :=
  metadata.paths_sublist.nodup (by decide)

end BundleMetadata

/-- A finished package has the entries of the merged fragment at other paths than those that the
bundle provides, and then what it provides. -/
theorem entries_finished (restrictV3 : Bool) (stamp : Option String) (metadata : BundleMetadata)
    (f : Fragment) :
    (applyInjectors (standaloneInjectors restrictV3 stamp metadata) f).entries =
      f.entries.filter (·.path ∉ metadata.paths) ++ metadata.provided := by
  have hfold : applyInjectors (standaloneInjectors restrictV3 stamp metadata) f =
      metadata.provided.foldl Fragment.withEntry
        ((f.asStandalone restrictV3).withOptionalStamp stamp) := by
    rw [applyInjectors_standaloneInjectors]
    obtain ⟨token, profile, profileMetadata⟩ := metadata
    cases token <;> cases profile <;> cases profileMetadata <;> rfl
  have hdistinct : (metadata.provided.map (·.path)).Nodup := by
    rw [metadata.map_path_provided]
    exact metadata.nodup_paths
  rw [hfold, Fragment.entries_foldl_withEntry hdistinct, metadata.map_path_provided,
    Fragment.entries_withOptionalStamp]
  rfl

/-- A finished package has the paths of the merged fragment and those that the bundle provides. -/
theorem mem_paths_finished :
    q ∈ (applyInjectors (standaloneInjectors restrictV3 stamp metadata) f).paths ↔
      q ∈ f.paths ∨ q ∈ metadata.paths := by
  have hkept : (f.entries.filter (·.path ∉ metadata.paths)).map (·.path) =
      f.paths.filter (· ∉ metadata.paths) := by
    rw [Fragment.paths, List.filter_map]
    rfl
  rw [Fragment.paths, entries_finished, List.map_append, hkept, metadata.map_path_provided,
    List.mem_append, List.mem_filter]
  by_cases hq : q ∈ metadata.paths
  · simp [hq]
  · simp [hq]

/-- At other paths than those that the bundle provides, a finished package has the entries of the
merged fragment. -/
theorem mem_entries_finished (h : e.path ∉ metadata.paths) :
    e ∈ (applyInjectors (standaloneInjectors restrictV3 stamp metadata) f).entries ↔
      e ∈ f.entries := by
  have hprovided : e ∉ metadata.provided := by
    intro he
    rw [← metadata.map_path_provided] at h
    exact h (List.mem_map_of_mem he)
  rw [entries_finished, List.mem_append, List.mem_filter]
  simp [h, hprovided]

theorem targeting_finished :
    (applyInjectors (standaloneInjectors restrictV3 stamp metadata) f).targeting = f.targeting := by
  rw [applyInjectors_standaloneInjectors, Fragment.withProfiles,
    Fragment.targeting_withOptionalEntry, Fragment.targeting_withOptionalEntry,
    Fragment.targeting_withOptionalEntry, Fragment.targeting_withOptionalStamp]
  rfl

/-- Finishing sets the kind, the variant targeting and the stamp, and changes the entries; nothing
else of the merged fragment changes. -/
theorem finished_eq (restrictV3 : Bool) (stamp : Option String) (metadata : BundleMetadata)
    (f : Fragment) : ∃ es, applyInjectors (standaloneInjectors restrictV3 stamp metadata) f =
      { (f.asStandalone restrictV3).withOptionalStamp stamp with entries := es } := by
  have hentry (g : Fragment) (q : EntryPath) (c : Option Content) :
      g.withOptionalEntry q c = { g with entries := (g.withOptionalEntry q c).entries } := by
    cases c <;> rfl
  rw [applyInjectors_standaloneInjectors, Fragment.withProfiles, hentry, hentry, hentry]
  exact ⟨_, rfl⟩

/-- The stamp is all that changes in the manifest. -/
theorem Fragment.manifest_withOptionalStamp (f : Fragment) (stamp : Option String) :
    (f.withOptionalStamp stamp).manifest.package = f.manifest.package ∧
      (f.withOptionalStamp stamp).manifest.attributes = f.manifest.attributes ∧
      ∀ key, key ≠ stampSourceKey → key ≠ stampTypeKey →
        (f.withOptionalStamp stamp).manifest.metadata? key = f.manifest.metadata? key := by
  cases stamp with
  | none => exact ⟨rfl, rfl, fun _ _ _ => rfl⟩
  | some source =>
    refine ⟨rfl, rfl, ?_⟩
    intro key hsource htype
    show ((f.manifest.withMetadata stampSourceKey source).withMetadata stampTypeKey
      standaloneStampType).metadata? key = f.manifest.metadata? key
    rw [Manifest.metadata?_withMetadata, if_neg (Ne.symm htype), Manifest.metadata?_withMetadata,
      if_neg (Ne.symm hsource)]

end BundlePackaging
