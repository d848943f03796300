import BundlePackaging.Event
import BundlePackaging.Fragment

/-!
# Finishing of packages

A merged fragment becomes a package by a chain of injectors, each of which changes one thing: the
devices that the package is offered to, a provenance stamp in the manifest, and files of the bundle
that belong to no module.  An injector is in the chain only if there is something to inject.

## Main definitions

* `BundleMetadata` — the files of the bundle.
* `Injector`, `applyInjectors` — the steps, and applying them in order.
* `standaloneInjectors` — the chain for standalone packages.
-/

namespace BundlePackaging

/-- The files of a bundle that belong to no module. -/
structure BundleMetadata where
  /-- The signed token of code transparency. -/
  codeTransparency : Option Content := none
  /-- The baseline profile of the runtime. -/
  baselineProfile : Option Content := none
  /-- The metadata of the baseline profile. -/
  baselineProfileMetadata : Option Content := none
  deriving DecidableEq, Inhabited

/-! ### What is injected -/

/-- The metadata key under which the manifest names the source of a package. -/
def stampSourceKey : String := "com.android.stamp.source"

/-- The metadata key under which the manifest names the type of the stamp. -/
def stampTypeKey : String := "com.android.stamp.type"

/-- The type of the stamp of a standalone package. -/
def standaloneStampType : String := "STAMP_TYPE_STANDALONE_APK"

/-- Where a package has the token of code transparency. -/
def codeTransparencyPath : EntryPath := ⟨"root/META-INF/code_transparency_signed.jwt"⟩

/-- Where a package has the baseline profile. -/
def baselineProfilePath : EntryPath := ⟨"assets/dexopt/baseline.prof"⟩

/-- Where a package has the metadata of the baseline profile. -/
def baselineProfileMetadataPath : EntryPath := ⟨"assets/dexopt/baseline.profm"⟩

namespace Fragment

/-- The fragment as a package that is complete in itself, offered to the devices it is for. -/
def asStandalone (f : Fragment) (restrictV3 : Bool) : Fragment :=
  { f with variant := ⟨f.targeting, restrictV3⟩, kind := .standalone }

/-- The fragment with the source of the package stamped into its manifest. -/
def withStamp (f : Fragment) (source : String) : Fragment :=
  { f with
    manifest := (f.manifest.withMetadata stampSourceKey source).withMetadata stampTypeKey
      standaloneStampType }

/-- The fragment with the token of code transparency. -/
def withTransparency (f : Fragment) (token : Content) : Fragment :=
  f.withEntry ⟨codeTransparencyPath, token, .compressed⟩

/-- The fragment with an entry, if there is a content for it. -/
def withOptionalEntry (f : Fragment) (path : EntryPath) : Option Content → Fragment
  | none => f
  | some content => f.withEntry ⟨path, content, .compressed⟩

/-- The fragment with the baseline profile and its metadata, each if it is there. -/
def withProfiles (f : Fragment) (profile profileMetadata : Option Content) : Fragment :=
  (f.withOptionalEntry baselineProfilePath profile).withOptionalEntry baselineProfileMetadataPath
    profileMetadata

end Fragment

/-! ### Chains -/

/-- A step that finishes a package. -/
structure Injector where
  /-- The name of the step in reports. -/
  name : String
  /-- What the step does. -/
  apply : Fragment → Fragment

/-- The steps that finish a standalone package, in order. -/
def standaloneInjectors (restrictV3 : Bool) (stamp : Option String) (metadata : BundleMetadata) :
    List Injector :=
  [⟨"variant targeting", (·.asStandalone restrictV3)⟩] ++
    (stamp.map fun source => ⟨"source stamp", (·.withStamp source)⟩).toList ++
    (metadata.codeTransparency.map fun token =>
      ⟨"code transparency", (·.withTransparency token)⟩).toList ++
    if metadata.baselineProfile.isSome || metadata.baselineProfileMetadata.isSome then
      [⟨"baseline profiles",
        (·.withProfiles metadata.baselineProfile metadata.baselineProfileMetadata)⟩]
    else []

/-- Apply the steps of a chain in order. -/
def applyInjectors (chain : List Injector) (f : Fragment) : Fragment :=
  chain.foldl (fun f step => step.apply f) f

/-- What is reported while the steps of a chain are applied. -/
def injectorEvents : List Injector → Fragment → List Event
  | [], _ => []
  | step :: chain, f => .injectorApplied step.name f.module :: injectorEvents chain (step.apply f)

end BundlePackaging
