import BundlePackaging.Proofs.Canonical
import BundlePackaging.Proofs.Injection

/-!
# Finishing a package twice

The chain of injectors takes a fragment to one that it does not change: what it sets is set already,
and what it puts at the end is there already, after the entries that it leaves alone.  That the
fragment is a merged one plays no role; it may have several entries at a path, or entries where the
chain puts its own.

## Main results

* `Fragment.withOptionalStamp_of_manifest_eq` — a fragment that carries the stamp is not changed by
  stamping it.
* **`finished_twice`** — finishing twice is finishing once, and what finishing once changes.
-/

namespace BundlePackaging

variable {f g : Fragment} {restrictV3 : Bool} {stamp : Option String} {metadata : BundleMetadata}

/-! ### Stamps -/

namespace Fragment

/-- A stamped manifest has both values of the stamp. -/
theorem metadata?_withStamp (f : Fragment) (source : String) :
    (f.withStamp source).manifest.metadata? stampSourceKey = some source ∧
      (f.withStamp source).manifest.metadata? stampTypeKey = some standaloneStampType := by
  have hne : stampTypeKey ≠ stampSourceKey := by decide
  unfold withStamp
  constructor
  · rw [Manifest.metadata?_withMetadata, if_neg hne, Manifest.metadata?_withMetadata, if_pos rfl]
  · rw [Manifest.metadata?_withMetadata, if_pos rfl]

/-- A fragment whose manifest carries the stamp is not changed by stamping it. -/
theorem withOptionalStamp_of_manifest_eq (h : g.manifest = (f.withOptionalStamp stamp).manifest) :
    g.withOptionalStamp stamp = g := by
  cases stamp with
  | none => rfl
  | some source =>
    obtain ⟨hsource, htype⟩ := f.metadata?_withStamp source
    change g.manifest = (f.withStamp source).manifest at h
    rw [← h] at hsource htype
    show g.withStamp source = g
    unfold withStamp
    rw [Manifest.withMetadata_of_metadata?_eq_some hsource,
      Manifest.withMetadata_of_metadata?_eq_some htype]

end Fragment

/-! ### Entries -/

theorem BundleMetadata.path_mem_paths {e : Entry} (h : e ∈ metadata.provided) :
    e.path ∈ metadata.paths := by
  rw [← metadata.map_path_provided]
  exact List.mem_map_of_mem h

/-- A finished package has the provided entries once, and nothing else at their paths. -/
theorem filter_path_finished {e : Entry} (h : e ∈ metadata.provided) :
    (applyInjectors (standaloneInjectors restrictV3 stamp metadata) f).entries.filter
      (·.path = e.path) = [e] := by
  have hdistinct : (metadata.provided.map (·.path)).Nodup := by
    rw [metadata.map_path_provided]
    exact metadata.nodup_paths
  have hkept : (f.entries.filter (·.path ∉ metadata.paths)).filter (·.path = e.path) = [] := by
    rw [List.filter_eq_nil_iff]
    intro x hx hpath
    have hxpath := of_decide_eq_true (List.mem_filter.1 hx).2
    exact hxpath (of_decide_eq_true hpath ▸ BundleMetadata.path_mem_paths h)
  rw [entries_finished, List.filter_append, hkept, filter_key_eq_singleton hdistinct h,
    List.nil_append]

/-- Finishing leaves the entries at other paths as they are, in their order. -/
theorem filter_path_not_mem_finished :
    (applyInjectors (standaloneInjectors restrictV3 stamp metadata) f).entries.filter
        (·.path ∉ metadata.paths) = f.entries.filter (·.path ∉ metadata.paths) := by
  have hprovided : metadata.provided.filter (·.path ∉ metadata.paths) = [] := by
    rw [List.filter_eq_nil_iff]
    intro e he hpath
    exact of_decide_eq_true hpath (BundleMetadata.path_mem_paths he)
  rw [entries_finished, List.filter_append, hprovided, List.append_nil, List.filter_filter]
  simp only [Bool.and_self]

/-! ### The chain -/

/-- Finishing a fragment that is finished already changes nothing: the fragment is offered to the
devices it is for, carries the stamp, and ends with what the bundle provides.  Finishing it once
leaves the entries at other paths as they are, in their order, puts each provided entry in place of
all that is at its path, and changes neither name nor devices, and nothing in the manifest but the
stamp. -/
theorem finished_twice (restrictV3 : Bool) (stamp : Option String) (metadata : BundleMetadata)
    (f : Fragment) :
    let finish := applyInjectors (standaloneInjectors restrictV3 stamp metadata)
    finish (finish f) = finish f ∧
      (finish f).entries.filter (·.path ∉ metadata.paths) =
        f.entries.filter (·.path ∉ metadata.paths) ∧
      (∀ e ∈ metadata.provided, (finish f).entries.filter (·.path = e.path) = [e]) ∧
      (finish f).module = f.module ∧ (finish f).master = f.master ∧
      (finish f).targeting = f.targeting ∧
      (finish f).manifest.package = f.manifest.package ∧
      (finish f).manifest.attributes = f.manifest.attributes ∧
      ∀ key, key ≠ stampSourceKey → key ≠ stampTypeKey →
        (finish f).manifest.metadata? key = f.manifest.metadata? key := by
  intro finish
  obtain ⟨es, hfinished⟩ := finished_eq restrictV3 stamp metadata f
  obtain ⟨hpackage, hattributes, hvalues⟩ :=
    (f.asStandalone restrictV3).manifest_withOptionalStamp stamp
  have hmanifest : (finish f).manifest =
      ((f.asStandalone restrictV3).withOptionalStamp stamp).manifest := by
    show (applyInjectors _ f).manifest = _
    rw [hfinished]
  refine ⟨?_, filter_path_not_mem_finished,
    fun _ => filter_path_finished, ?_, ?_, targeting_finished, ?_, ?_, ?_⟩
  · obtain ⟨es', htwice⟩ := finished_eq restrictV3 stamp metadata (finish f)
    have hstandalone : (finish f).asStandalone restrictV3 = finish f := by
      show Fragment.asStandalone (applyInjectors _ f) restrictV3 = applyInjectors _ f
      rw [hfinished]
      cases stamp <;> rfl
    have hentries : (finish (finish f)).entries = (finish f).entries := by
      show (applyInjectors _ (finish f)).entries = (applyInjectors _ f).entries
      rw [entries_finished, filter_path_not_mem_finished, ← entries_finished]
    rw [hstandalone, Fragment.withOptionalStamp_of_manifest_eq hmanifest] at htwice
    change finish (finish f) = _ at htwice
    rw [htwice] at hentries ⊢
    exact congrArg (fun es => { finish f with entries := es }) hentries
  · show (applyInjectors _ f).module = f.module
    rw [hfinished]
    cases stamp <;> rfl
  · show (applyInjectors _ f).master = f.master
    rw [hfinished]
    cases stamp <;> rfl
  · rw [hmanifest]
    exact hpackage
  · rw [hmanifest]
    exact hattributes
  · rw [hmanifest]
    exact hvalues

end BundlePackaging
