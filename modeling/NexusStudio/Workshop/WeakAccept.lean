import NexusStudio.Workshop.AuthorizedOperations
import NexusStudio.Workshop.Workflow

/-!
# The weak acceptance of a task

`evaluate_weak_accept`: the goals, the required artifacts and the capabilities that a task has used, against what was
submitted and granted.
-/

namespace NexusStudio.TaskOrchestrator

open AuthorizedOperations Workshop.Workflow

/-- `is_external_capability`. -/
def isExternalCapability (c : Capability) : Bool :=
  c ∈ [.browserWrite, .mcp, .createSchedule, .taobaoStoreWrite, .generationSubmit]

structure ArtifactSubmission where
  name : String
  storageType : ArtifactStorageType
  content : Option String
  storageKey : Option String
  sizeBytes : Option Int
  deriving DecidableEq, Repr

/-- `is_non_empty`. -/
def ArtifactSubmission.isNonEmpty (a : ArtifactSubmission) : Bool :=
  if a.storageType = .db then a.content.any fun c => strip c ≠ ""
  else a.sizeBytes.any (0 < ·)

/-- `ECOMMERCE_DELIVERABLE_TYPES`. -/
def ecommerceDeliverableTypes : List String := [
  "MarketCompetitorBrief", "ListingCopyVersion", "CreativeBrief", "GenerationAssetRef", "CampaignPlanDoc",
  "EmailSequenceDraft", "AdsStrategyBrief", "AdsReportDiagnosis", "MetricsSnapshot", "DailyOrWeeklyReview",
  "AnomalyList", "ChartArtifact", "PublishDiff", "PublishReceipt"]

section Model

-- the content of an artifact is a JSON object that its contract accepts
variable (deliverable : String → String → Bool)

/-- `_ecommerce_artifact_valid`. -/
def ecommerceArtifactValid (typeName : String) (a : ArtifactSubmission) : Bool :=
  a.storageType = .db && a.content.any (deliverable typeName)

/-- The first required artifact that is not as it has to be. -/
def artifactReason (artifacts : List ArtifactSubmission) : List String → Option String
  | [] => none
  | required :: names =>
    match artifacts.reverse.find? fun a => strip a.name = required with
    | none => some "artifacts_missing"
    | some a =>
      if a.isNonEmpty = false then some "artifact_empty"
      else if required ∈ ecommerceDeliverableTypes ∧ ecommerceArtifactValid deliverable required a = false then
        some "ecommerce_deliverable_invalid"
      else artifactReason artifacts names

/-- `evaluate_weak_accept`: the reasons against, none when it has passed. -/
def evaluateWeakAccept (goals coveredGoals requiredArtifacts : List String) (artifacts : List ArtifactSubmission)
    (grantedExternal usedCapabilities : List Capability) : List String :=
  (if goals.any fun goal => goal ∉ coveredGoals then ["goals_incomplete"] else []) ++
    (artifactReason deliverable artifacts requiredArtifacts).toList ++
    if (usedCapabilities.filter isExternalCapability) ⊆ grantedExternal then [] else ["external_auth_violation"]

variable {deliverable} {goals coveredGoals requiredArtifacts : List String} {artifacts : List ArtifactSubmission}
  {grantedExternal usedCapabilities : List Capability}

/-- A task that has passed has used no external capability without its grant. -/
theorem granted_of_passed (h : evaluateWeakAccept deliverable goals coveredGoals requiredArtifacts artifacts
      grantedExternal usedCapabilities = []) :
    ∀ c ∈ usedCapabilities, isExternalCapability c = true → c ∈ grantedExternal := by
  obtain ⟨-, hexternal⟩ := List.append_eq_nil_iff.1 h
  intro c hc hext
  split at hexternal
  case isTrue hsubset => exact hsubset (List.mem_filter.2 ⟨hc, hext⟩)
  case isFalse => cases hexternal

end Model

end NexusStudio.TaskOrchestrator
