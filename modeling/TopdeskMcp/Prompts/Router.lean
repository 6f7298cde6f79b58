import Mathlib.Tactic.Common

/-!
# Prompts (`prompts/mod.rs`, `prompts/router.rs`)

A prompt is written for certain catalogs, and a server has one catalog. What a prompt says begins
with which one that is and whether it is one of those (`catalogCheckBlock`). The texts of the
workflows themselves are assets.
-/

namespace TopdeskMcp.Prompts

def catalogCheckBlock (activeApiVersion : String) (expected : List String) : String :=
  let expectedList := "`, `".intercalate expected
  if activeApiVersion ∈ expected then
    "## Active catalog check\n\n" ++
      "Active catalog: `" ++ activeApiVersion ++ "` — matches what this workflow needs " ++
      "(one of `" ++ expectedList ++ "`). You can proceed, but individual operation " ++
      "names below still aren't guaranteed to exist verbatim in this exact " ++
      "version — confirm each one with `search`/`get` before calling it.\n"
  else
    "## Active catalog check — MISMATCH\n\n" ++
      "Active catalog: `" ++ activeApiVersion ++ "`. This workflow needs one of: " ++
      "`" ++ expectedList ++ "`.\n\n" ++
      "Do not proceed as if this workflow's operations exist — they are not in " ++
      "the currently loaded catalog and `search` will not find them. Tell the " ++
      "user plainly that this server needs to be restarted with a different " ++
      "`api_version` (config file or `TOPDESK_MCP_API_VERSION` env var) before " ++
      "this workflow is possible; you cannot switch it yourself mid-session. " ++
      "See docs/SCHEMA_VERSIONS.md for the exact version label to use.\n"

/-- `char::is_whitespace` -/
def isWhitespace (c : Char) : Bool :=
  let n := c.toNat
  9 ≤ n && n ≤ 13 || n == 32 || n == 133 || n == 160 || n == 5760 || 8192 ≤ n && n ≤ 8202 ||
    n == 8232 || n == 8233 || n == 8239 || n == 8287 || n == 12288

def trim (text : String) : String :=
  let start := text.toList.dropWhile isWhitespace
  String.ofList (start.reverse.dropWhile isWhitespace).reverse

def renderContextHeader (context : Option String) : String :=
  match context.map trim with
  | none => ""
  | some text =>
      if text = "" then "" else "## Context already provided\n\n" ++ text ++ "\n\n"

def delegationGuidance : String :=
  "\n## If your environment supports delegation\n\n" ++
    "Some MCP clients can hand work to a sub-task/sub-agent with its own " ++
    "context window (e.g. a Task tool, background agent). If yours does:\n\n" ++
    "- **Whole-workflow delegation** (biggest context saving): once the " ++
    "catalog check above passes, hand this entire playbook to a sub-task " ++
    "and only bring back the outcome (record number, status, any " ++
    "question that needs a human decision) — not every intermediate " ++
    "search/get/call round-trip.\n" ++
    "- **Step-level delegation**, even without the above: large searches " ++
    "(enumerating every category/operator/branch), and independent bulk " ++
    "calls with no ordering dependency between them (e.g. registering " ++
    "several unrelated assets), are good candidates to delegate or run " ++
    "in parallel rather than piping every raw row through your own " ++
    "context.\n\n" ++
    "If your environment has no such mechanism, just work the numbered " ++
    "steps directly in this conversation — none of the above is required " ++
    "for correctness, only for context budget.\n"

/-! ## The router -/

/-- A prompt with the catalogs it is for and the asset with its text. -/
structure WorkflowPrompt where
  name : String
  expected : List String
  content : String
  deriving DecidableEq

/-- The message of a prompt. -/
def WorkflowPrompt.render (assets : String → String) (prompt : WorkflowPrompt)
    (apiVersion : String) (context : Option String) : String :=
  catalogCheckBlock apiVersion prompt.expected ++ renderContextHeader context ++
    assets prompt.content ++ "\n" ++ delegationGuidance

def changeManagementLifecycle : WorkflowPrompt where
  name := "topdesk-change-management-lifecycle"
  expected := ["change-1.4.0"]
  content := "content/change_management_lifecycle.md"

def incidentLifecycle : WorkflowPrompt where
  name := "topdesk-incident-lifecycle"
  expected := ["incident-4.2.6"]
  content := "content/incident_lifecycle.md"

def assetManagementBasics : WorkflowPrompt where
  name := "topdesk-asset-management-basics"
  expected := ["assets-1.91.1"]
  content := "content/asset_management_basics.md"

def knowledgeBaseLifecycle : WorkflowPrompt where
  name := "topdesk-knowledge-base-lifecycle"
  expected := ["knowledge-base-before-explorer-migration",
    "knowledge-base-after-explorer-migration", "knowledgebase-graphql-1.0.0"]
  content := "content/knowledge_base_lifecycle.md"

def reservationsBooking : WorkflowPrompt where
  name := "topdesk-reservations-booking"
  expected := ["reservations-2.0.0"]
  content := "content/reservations_booking.md"

def referenceDataLookup : WorkflowPrompt where
  name := "topdesk-reference-data-lookup"
  expected := ["supporting-files-2.7.11"]
  content := "content/reference_data_lookup.md"

def visitorRegistration : WorkflowPrompt where
  name := "topdesk-visitor-registration"
  expected := ["visitors-2.0.0"]
  content := "content/visitor_registration.md"

def operationsManagementTasks : WorkflowPrompt where
  name := "topdesk-operations-management-tasks"
  expected := ["operations-management-1.10.0"]
  content := "content/operations_management_tasks.md"

def accessRolesAssignment : WorkflowPrompt where
  name := "topdesk-access-roles-assignment"
  expected := ["access-roles-saas", "access-roles-va-release-1-2026"]
  content := "content/access_roles_assignment.md"

def selfServicePortalRequests : WorkflowPrompt where
  name := "topdesk-self-service-portal-requests"
  expected := ["incident-4.2.6", "change-1.4.0", "reservations-2.0.0"]
  content := "content/self_service_portal_requests.md"

/-- All but `topdesk-menu`, which is for any catalog. -/
def promptRouter : List WorkflowPrompt :=
  [changeManagementLifecycle, incidentLifecycle, assetManagementBasics, knowledgeBaseLifecycle,
   reservationsBooking, referenceDataLookup, visitorRegistration, operationsManagementTasks,
   accessRolesAssignment, selfServicePortalRequests]

/-- The message of a prompt that is asked for by its name; the other argument is optional. -/
def getPrompt (assets : String → String) (apiVersion name : String) (context : Option String) :
    Option String :=
  if name = "topdesk-menu" then
    some ("Active catalog right now: `" ++ apiVersion ++ "`\n\n" ++ assets "content/menu.md" ++
      "\n" ++ delegationGuidance)
  else (promptRouter.find? (·.name = name)).map fun prompt =>
    prompt.render assets apiVersion context

end TopdeskMcp.Prompts
