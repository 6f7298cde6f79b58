import TopdeskMcp.Core.ConfigManager

/-!
# The command `versions` (`cli/versions.rs`)
-/

namespace TopdeskMcp.Versions

structure VersionRow where
  label : String
  isDefault : Bool

def knownVersions : List VersionRow :=
  [⟨"general-1.2.0", true⟩, ⟨"incident-4.2.6", false⟩,
   ⟨"knowledge-base-before-explorer-migration", false⟩,
   ⟨"knowledge-base-after-explorer-migration", false⟩, ⟨"knowledgebase-graphql-1.0.0", false⟩,
   ⟨"reservations-2.0.0", false⟩, ⟨"services-1.3.7", false⟩, ⟨"change-1.4.0", false⟩,
   ⟨"assets-1.91.1", false⟩, ⟨"operations-management-1.10.0", false⟩, ⟨"visitors-2.0.0", false⟩,
   ⟨"supporting-files-2.7.11", false⟩, ⟨"access-roles-saas", false⟩,
   ⟨"access-roles-va-release-1-2026", false⟩, ⟨"lookandfeel-1.0.0", false⟩,
   ⟨"task-notifications-1.0.0", false⟩, ⟨"settings-1.1.0", false⟩,
   ⟨"custom-action-support-saas", false⟩,
   ⟨"custom-action-support-va-release-1-2023-or-newer", false⟩]

def VersionRow.markers (activeVersion : String) (row : VersionRow) : List String :=
  (if row.isDefault then ["default"] else []) ++
    if row.label = activeVersion then ["active"] else []

/-- The line of a version. -/
def VersionRow.line (activeVersion : String) (row : VersionRow) : String :=
  let markers := row.markers activeVersion
  if markers = [] then row.label else row.label ++ " (" ++ ", ".intercalate markers ++ ")"

/-- Without a configuration no version is active. -/
def activeVersion (serde : Serde) (machine : Machine) (env : StringMap) (files : TextFiles) :
    String :=
  match loadConfig serde machine ∅ env files with
  | .ok config => config.apiVersion
  | .error _ => ""

/-- The lines that are printed. -/
def run (serde : Serde) (machine : Machine) (env : StringMap) (files : TextFiles) : List String :=
  knownVersions.map (·.line (activeVersion serde machine env files))

end TopdeskMcp.Versions
